import ArmatureTenancy.Request.Mediation
import ArmatureTenancy.Request.Claims

/-!
# Requests through a built-in resolver

An enforcing middleware whose resolver is one of the four built-in ones. What is left
outside is the tenant store, which answers lookups as it likes, and the rest of the
chain. Together they decide which requests reach which tenant.
-/

namespace ArmatureTenancy

open Foundations

variable {H X B ε P : Type}

inductive PassageCall (H X B : Type) where
  | lookup : TenantStoreCall → PassageCall H X B
  | next : HttpRequest H X B → PassageCall H X B

abbrev PassageCall.Answer (ε P : Type) : PassageCall H X B → Type
  | .lookup call => call.Answer
  | .next _ => Except (Error ε) P

def PassageCall.isLookup : PassageCall H X B → Bool
  | .lookup _ => true
  | .next _ => false

abbrev PassageProgram (H X B ε P : Type) :=
  Program (PassageCall H X B) (PassageCall.Answer ε P)

abbrev PassageLog (H X B ε P : Type) :=
  List (Exchange (PassageCall H X B) (PassageCall.Answer ε P))

def lookupCall (call : TenantStoreCall) : PassageProgram H X B ε P call.Answer :=
  .call (.lookup call) .pure

/-- The store answered with the tenant when what the resolver read was looked up. -/
def Found (find : String → TenantStoreCall) (key : Except TenantError String)
    (log : PassageLog H X B ε P) (t : Tenant) : Prop :=
  ∃ k, key = .ok k ∧ ⟨.lookup (find k), .ok (some t)⟩ ∈ log

/-- The lookups of a request for which no tenant is resolved, and the error. -/
inductive Unresolved (find : String → TenantStoreCall) (key : Except TenantError String) :
    PassageLog H X B ε P → TenantError → Prop
  | unread {e} : key = .error e → Unresolved find key [] e
  | failed {k e} : key = .ok k → Unresolved find key [⟨.lookup (find k), .error e⟩] e
  | missing {k} : key = .ok k →
      Unresolved find key [⟨.lookup (find k), .ok none⟩] (.notFound k)
  | inactive {k t} : key = .ok k → t.active = false →
      Unresolved find key [⟨.lookup (find k), .ok (some t)⟩] .inactive

section Lookups

variable {find : String → TenantStoreCall} {key : Except TenantError String} {e : TenantError}
  {log lookups : PassageLog H X B ε P} {t : Tenant} {r : HttpRequest H X B}

namespace Unresolved

theorem found_inactive (h : Unresolved find key lookups e) (found : Found find key lookups t) :
    t.active = false := by
  obtain ⟨k, hk, hmem⟩ := found
  cases h with
  | unread _ => cases hmem
  | failed hkey | missing hkey =>
    cases hkey.symm.trans hk
    cases List.mem_singleton.mp hmem
  | inactive hkey hactive =>
    cases hkey.symm.trans hk
    cases List.mem_singleton.mp hmem
    exact hactive

theorem not_next (h : Unresolved find key lookups e) {answer : Except (Error ε) P} :
    ⟨.next r, answer⟩ ∉ lookups := by
  intro hmem
  cases h with
  | unread _ => cases hmem
  | _ => cases List.mem_singleton.mp hmem

theorem lookup_of_key (h : Unresolved find key lookups e) {call : TenantStoreCall}
    {answer : Except TenantError (Option Tenant)} (hmem : ⟨.lookup call, answer⟩ ∈ lookups) :
    ∃ k, key = .ok k ∧ call = find k := by
  cases h with
  | unread _ => cases hmem
  | failed hkey | missing hkey | inactive hkey _ =>
    cases List.mem_singleton.mp hmem
    exact ⟨_, hkey, rfl⟩

theorem counts (h : Unresolved find key lookups e) :
    lookups.countP (·.1.isLookup) ≤ 1 ∧ lookups.countP (!·.1.isLookup) = 0 := by
  cases h with
  | unread _ => exact ⟨Nat.zero_le 1, rfl⟩
  | _ => exact ⟨le_rfl, rfl⟩

end Unresolved

variable {C σ : Type} {env : Environment C σ (PassageCall H X B) (PassageCall.Answer ε P)}
  {st st' : σ}

theorem runs_lookup {resolved : Except TenantError Tenant}
    (h : ((resolveBy find key).run.expand lookupCall).Runs env st log resolved st') :
    (∃ e, resolved = .error e ∧ Unresolved find key log e) ∨
      ∃ k t, key = .ok k ∧ t.active = true ∧ resolved = .ok t ∧
        log = [⟨.lookup (find k), .ok (some t)⟩] := by
  cases key with
  | error e =>
    obtain ⟨rfl, rfl, -⟩ := Program.runs_pure_iff.mp h
    exact .inl ⟨e, rfl, .unread rfl⟩
  | ok k =>
    obtain ⟨c, answer, s₁, tail, -, rfl, htail⟩ := Program.runs_call_iff.mp h
    match answer with
    | .error e =>
      obtain ⟨rfl, rfl, -⟩ := Program.runs_pure_iff.mp htail
      exact .inl ⟨e, rfl, .failed rfl⟩
    | .ok none =>
      obtain ⟨rfl, rfl, -⟩ := Program.runs_pure_iff.mp htail
      exact .inl ⟨.notFound k, rfl, .missing rfl⟩
    | .ok (some t) =>
      have hrun : ((if !t.active then throw .inactive else pure t : ResolverM Tenant).run.expand
          lookupCall : PassageProgram H X B ε P _) = .pure (admitted t) := by
        rw [admitted_run]
        rfl
      have hadmitted : (Program.pure (admitted t)).Runs env s₁ tail resolved st' := by
        rw [← hrun]
        exact htail
      obtain ⟨rfl, rfl, -⟩ := Program.runs_pure_iff.mp hadmitted
      unfold admitted
      cases hactive : t.active with
      | true => exact .inr ⟨k, t, rfl, hactive, rfl, rfl⟩
      | false => exact .inl ⟨.inactive, rfl, .inactive rfl hactive⟩

end Lookups

variable [TypedStorage X UserContext] [TypedStorage X TenantContext]

/-- The rest of the chain was called in the context of the tenant. -/
def Reached (log : PassageLog H X B ε P) (t : Tenant) : Prop :=
  ∃ r answer, ⟨.next r, answer⟩ ∈ log ∧ BoundTo r t

/-- The calls made for a request and its result. -/
inductive Passed (membership : TenantMembership) (optional : Bool) (request : HttpRequest H X B)
    (find : String → TenantStoreCall) (key : Except TenantError String) :
    PassageLog H X B ε P → Except (Error ε) P → Prop
  | served {k t r answer} : key = .ok k → t.active = true →
      AdmitsPrincipal membership request t → BoundTo r t →
      Passed membership optional request find key
        [⟨.lookup (find k), .ok (some t)⟩, ⟨.next r, answer⟩] answer
  | refused {k t} : key = .ok k → t.active = true → ¬ AdmitsPrincipal membership request t →
      Passed membership optional request find key [⟨.lookup (find k), .ok (some t)⟩]
        (.error (refusal request (.ok t)))
  | anonymous {lookups e r answer} : optional = true → Unresolved find key lookups e →
      r.extension TenantContext = none →
      Passed membership optional request find key (lookups ++ [⟨.next r, answer⟩]) answer
  | unresolved {lookups e} : optional = false → Unresolved find key lookups e →
      Passed membership optional request find key lookups (.error (refusal request (.error e)))

namespace Passed

variable {membership : TenantMembership} {optional : Bool} {request : HttpRequest H X B}
  {find : String → TenantStoreCall} {key : Except TenantError String}
  {log : PassageLog H X B ε P} {a : Except (Error ε) P}

theorem reached_iff (h : Passed membership optional request find key log a) (t : Tenant) :
    Reached log t ↔
      Found find key log t ∧ t.active = true ∧ AdmitsPrincipal membership request t := by
  cases h with
  | @served k t₀ r answer hkey hactive hadmits hr =>
    constructor
    · intro hreached
      obtain ⟨r', answer', hmem, hr'⟩ := hreached
      cases List.mem_singleton.mp ((List.mem_cons.mp hmem).resolve_left nofun)
      obtain rfl : t₀ = t := hr.unique hr'
      exact ⟨⟨k, hkey, List.mem_cons_self⟩, hactive, hadmits⟩
    · intro hfound
      obtain ⟨⟨k', hk', hmem⟩, -, -⟩ := hfound
      cases hkey.symm.trans hk'
      cases (List.mem_cons.mp hmem).resolve_right (by simp)
      exact ⟨r, a, List.mem_cons_of_mem _ List.mem_cons_self, hr⟩
  | @refused k t₀ hkey hactive hadmits =>
    apply iff_of_false
    · intro hreached
      obtain ⟨r', answer', hmem, -⟩ := hreached
      cases List.mem_singleton.mp hmem
    · intro hfound
      obtain ⟨⟨k', hk', hmem⟩, -, hadmits'⟩ := hfound
      cases hkey.symm.trans hk'
      cases List.mem_singleton.mp hmem
      exact hadmits hadmits'
  | anonymous _ hlookups hr =>
    apply iff_of_false
    · intro hreached
      obtain ⟨r', answer', hmem, hr'⟩ := hreached
      rcases List.mem_append.mp hmem with hmem | hmem
      · exact hlookups.not_next hmem
      · cases List.mem_singleton.mp hmem
        obtain ⟨context, hcontext, -⟩ := hr'
        cases hr.symm.trans hcontext
    · intro hfound
      obtain ⟨⟨k, hk, hmem⟩, hactive, -⟩ := hfound
      have hlookup := (List.mem_append.mp hmem).resolve_right (by simp)
      cases hactive.symm.trans (hlookups.found_inactive ⟨k, hk, hlookup⟩)
  | unresolved _ hlookups =>
    apply iff_of_false
    · intro hreached
      obtain ⟨r', answer', hmem, -⟩ := hreached
      exact hlookups.not_next hmem
    · intro hfound
      cases hfound.2.1.symm.trans (hlookups.found_inactive hfound.1)

/-- The rest of the chain has the last word, and nobody is served in a tenant's place. -/
theorem next_answer (h : Passed membership optional request find key log a)
    {r : HttpRequest H X B} {answer : Except (Error ε) P} (hmem : ⟨.next r, answer⟩ ∈ log) :
    a = answer ∧ ((∃ t, BoundTo r t) ∨ r.extension TenantContext = none ∧ optional = true ∧
      ∀ t, Found find key log t → t.active = false) := by
  cases h with
  | @served k t r' _ hkey hactive hadmits hr =>
    cases List.mem_singleton.mp ((List.mem_cons.mp hmem).resolve_left nofun)
    exact ⟨rfl, .inl ⟨t, hr⟩⟩
  | refused _ _ _ => cases List.mem_singleton.mp hmem
  | anonymous hoptional hlookups hr =>
    cases List.mem_singleton.mp ((List.mem_append.mp hmem).resolve_left hlookups.not_next)
    refine ⟨rfl, .inr ⟨hr, hoptional, fun t found => ?_⟩⟩
    obtain ⟨k, hk, hlookup⟩ := found
    exact hlookups.found_inactive ⟨k, hk, (List.mem_append.mp hlookup).resolve_right (by simp)⟩
  | unresolved _ hlookups => exact absurd hmem hlookups.not_next

/-- Only an active tenant found for a principal outside it is refused as forbidden. -/
theorem refused_iff (h : Passed membership optional request find key log a)
    (hstopped : ∀ r answer, ⟨.next r, answer⟩ ∉ log) :
    ∃ e, a = .error e ∧ ((∃ text, e = .forbidden text) ↔
      ∃ t user, Found find key log t ∧ t.active = true ∧
        request.extension UserContext = some user ∧ t.id ∉ membership.tenantsOf user) := by
  cases h with
  | served _ _ _ _ => exact absurd (List.mem_cons_of_mem _ List.mem_cons_self) (hstopped _ _)
  | @refused k t hkey hactive hadmits =>
    refine ⟨_, rfl, ?_⟩
    unfold refusal
    cases huser : request.extension UserContext with
    | none => simp
    | some user =>
      refine iff_of_true ⟨_, rfl⟩ ⟨t, user, ⟨k, hkey, List.mem_cons_self⟩, hactive, rfl, ?_⟩
      exact fun hmember => hadmits ⟨user, huser, hmember⟩
  | anonymous _ _ _ =>
    exact absurd (List.mem_append_right _ List.mem_cons_self) (hstopped _ _)
  | unresolved _ hlookups =>
    refine ⟨_, rfl, iff_of_false (by simp [refusal]) ?_⟩
    intro hfound
    obtain ⟨t, user, found, hactive, -⟩ := hfound
    cases hactive.symm.trans (hlookups.found_inactive found)

theorem lookup_of_key (h : Passed membership optional request find key log a)
    {call : TenantStoreCall} {answer : Except TenantError (Option Tenant)}
    (hmem : ⟨.lookup call, answer⟩ ∈ log) : ∃ k, key = .ok k ∧ call = find k := by
  cases h with
  | served hkey _ _ _ =>
    cases (List.mem_cons.mp hmem).resolve_right (by simp)
    exact ⟨_, hkey, rfl⟩
  | refused hkey _ _ =>
    cases List.mem_singleton.mp hmem
    exact ⟨_, hkey, rfl⟩
  | anonymous _ hlookups _ =>
    exact hlookups.lookup_of_key ((List.mem_append.mp hmem).resolve_right (by simp))
  | unresolved _ hlookups => exact hlookups.lookup_of_key hmem

theorem counts (h : Passed membership optional request find key log a) :
    log.countP (·.1.isLookup) ≤ 1 ∧ log.countP (!·.1.isLookup) ≤ 1 := by
  cases h with
  | served _ _ _ _ => exact ⟨le_rfl, le_rfl⟩
  | refused _ _ _ => exact ⟨le_rfl, Nat.zero_le 1⟩
  | anonymous _ hlookups _ =>
    obtain ⟨hlookup, hnext⟩ := hlookups.counts
    rw [List.countP_append, List.countP_append, hnext]
    exact ⟨hlookup, le_rfl⟩
  | unresolved _ hlookups =>
    obtain ⟨hlookup, hnext⟩ := hlookups.counts
    exact ⟨hlookup, hnext.trans_le (Nat.zero_le 1)⟩

end Passed

variable [HeaderMap H] [RequestTarget B]

namespace BuiltinResolver

def find : BuiltinResolver → String → TenantStoreCall
  | .header _ | .jwt _ => .findById
  | .subdomain _ | .path _ => .findByName

omit [TypedStorage X TenantContext] in
def key (request : HttpRequest H X B) : BuiltinResolver → Except TenantError String
  | .header resolver => resolver.tenantId request
  | .subdomain resolver => resolver.subdomain request
  | .jwt resolver => resolver.tenantId request
  | .path resolver => resolver.tenantName request

omit [TypedStorage X TenantContext] in
theorem resolve_eq_key (resolver : BuiltinResolver) (request : HttpRequest H X B) :
    resolver.resolve request = resolveBy resolver.find (resolver.key request) := by
  cases resolver <;> rfl

end BuiltinResolver

def passageCall (resolver : BuiltinResolver) :
    (e : MiddlewareCall H X B) → PassageProgram H X B ε P (e.Answer ε P)
  | .resolve request => (resolver.resolve request).run.expand lookupCall
  | .next request => .call (.next request) .pure

/-- `handle` with the resolver's own code in place of the call of the resolver. -/
def passage (mw : TenantMiddleware) (resolver : BuiltinResolver) (request : HttpRequest H X B) :
    PassageProgram H X B ε P (Except (Error ε) P) :=
  (mw.handle request : MiddlewareM H X B ε P P).run.expand (passageCall resolver)

section Runs

variable {C σ : Type} {env : Environment C σ (PassageCall H X B) (PassageCall.Answer ε P)}
  {st st' : σ} {log lookups : PassageLog H X B ε P} [LawfulTypedStorage X TenantContext]
  {membership : TenantMembership} {optional : Bool} {resolver : BuiltinResolver}
  {request : HttpRequest H X B} {a : Except (Error ε) P}

theorem runs_proceed {find : String → TenantStoreCall} {key : Except TenantError String}
    {resolved : Except TenantError Tenant}
    (hresolved : (∃ e, resolved = .error e ∧ Unresolved find key lookups e) ∨
      ∃ k t, key = .ok k ∧ t.active = true ∧ resolved = .ok t ∧
        lookups = [⟨.lookup (find k), .ok (some t)⟩])
    (h : ((TenantMiddleware.mk optional (some membership)).proceed request resolved :
      MiddlewareM H X B ε P P).run.expand (passageCall resolver) |>.Runs env st log a st') :
    Passed membership optional request find key (lookups ++ log) a := by
  rcases hresolved with ⟨e, rfl, hlookups⟩ | ⟨k, t, hkey, hactive, rfl, rfl⟩
  · rw [TenantMiddleware.proceed_error] at h
    cases optional with
    | true =>
      obtain ⟨c, answer, s₁, tail, -, rfl, htail⟩ := Program.runs_call_iff.mp h
      obtain ⟨rfl, rfl, -⟩ := Program.runs_pure_iff.mp htail
      exact .anonymous rfl hlookups request.extension_withoutExtension
    | false =>
      obtain ⟨rfl, rfl, -⟩ := Program.runs_pure_iff.mp h
      rw [List.append_nil]
      exact .unresolved rfl hlookups
  · have hmw : (TenantMiddleware.mk optional (some membership)).membership = some membership := rfl
    rcases TenantMiddleware.proceed_resolved ε P hmw request t with
      ⟨hadmits, hrun⟩ | ⟨hadmits, hrun⟩
    · rw [hrun] at h
      obtain ⟨c, answer, s₁, tail, -, rfl, htail⟩ := Program.runs_call_iff.mp h
      obtain ⟨rfl, rfl, -⟩ := Program.runs_pure_iff.mp htail
      exact .served hkey hactive hadmits (boundTo_withExtension request t)
    · rw [hrun] at h
      obtain ⟨rfl, rfl, -⟩ := Program.runs_pure_iff.mp h
      exact .refused hkey hactive hadmits

theorem passed_of_runs (h : (passage ⟨optional, some membership⟩ resolver request :
      PassageProgram H X B ε P _).Runs env st log a st') :
    Passed membership optional (TenantMiddleware.stripped request) resolver.find
      (resolver.key (TenantMiddleware.stripped request)) log a := by
  obtain ⟨resolved, s₁, first, second, hfirst, hsecond, rfl⟩ := Program.runs_bind h
  have hlookup : ((resolveBy resolver.find
      (resolver.key (TenantMiddleware.stripped request))).run.expand lookupCall :
        PassageProgram H X B ε P _).Runs env st first resolved s₁ := by
    rw [← resolver.resolve_eq_key]
    exact hfirst
  exact runs_proceed (runs_lookup hlookup) hsecond

variable [SeparateStorage X TenantContext UserContext]

omit [RequestTarget B] [LawfulTypedStorage X TenantContext] in
theorem admitsPrincipal_stripped {t : Tenant} :
    AdmitsPrincipal membership (TenantMiddleware.stripped request) t ↔
      AdmitsPrincipal membership request t := by
  unfold AdmitsPrincipal
  rw [TenantMiddleware.extension_stripped_user]

/-- Whatever the store answers, the rest of the chain serves a request for a tenant exactly
when the store found the tenant, active, under what the resolver read off the request, and
the principal belongs to it. The store is asked at most once, about that key only; the rest
of the chain is called at most once and its answer is the result; in optional mode it may
be called without a tenant if no active one was found; and what is stopped is forbidden
exactly when an active tenant was found to which the principal does not belong. -/
theorem tenant_reached_iff (calls : List ConfigCall) (resolver : BuiltinResolver)
    (request : HttpRequest H X B)
    (run : (passage (TenantMiddleware.new.configure calls) resolver request :
      PassageProgram H X B ε P _).Runs env st log a st') :
    let membership := TenantMiddleware.lastMembership calls
    let key := resolver.key (TenantMiddleware.stripped request)
    let found := Found resolver.find key log
    (∀ t, Reached log t ↔ found t ∧ t.active = true ∧ AdmitsPrincipal membership request t) ∧
    (∀ r answer, ⟨.next r, answer⟩ ∈ log → a = answer ∧
      ((∃ t, BoundTo r t) ∨ r.extension TenantContext = none ∧
        TenantMiddleware.lastOptional calls = true ∧ ∀ t, found t → t.active = false)) ∧
    ((∀ r answer, ⟨.next r, answer⟩ ∉ log) → ∃ e, a = .error e ∧
      ((∃ text, e = .forbidden text) ↔ ∃ t user, found t ∧ t.active = true ∧
        request.extension UserContext = some user ∧ t.id ∉ membership.tenantsOf user)) ∧
    log.countP (·.1.isLookup) ≤ 1 ∧ log.countP (!·.1.isLookup) ≤ 1 ∧
    ∀ call answer, ⟨.lookup call, answer⟩ ∈ log → ∃ k, key = .ok k ∧ call = resolver.find k := by
  intro membership key found
  rw [TenantMiddleware.configure_new] at run
  have passed : Passed membership _ _ resolver.find key log a := passed_of_runs run
  refine ⟨fun t => ?_, fun _ _ => passed.next_answer, fun hstopped => ?_, passed.counts.1,
    passed.counts.2, fun _ _ => passed.lookup_of_key⟩
  · rw [passed.reached_iff, admitsPrincipal_stripped]
  · have hrefused := passed.refused_iff hstopped
    rw [TenantMiddleware.extension_stripped_user] at hrefused
    exact hrefused

/-- `find_by_id` answers with the tenant of that id. -/
def FindsById (env : Environment C σ (PassageCall H X B) (PassageCall.Answer ε P)) : Prop :=
  ∀ choice s id t s', env choice s (.lookup (.findById id)) = some (.ok (some t), s') → t.id = id

omit [RequestTarget B] [LawfulTypedStorage X TenantContext] in
theorem tokenKey_ok_iff {claim k : String} :
    JwtTenantResolver.tenantId ⟨claim⟩ (TenantMiddleware.stripped request) = .ok k ↔
      ∃ user, request.extension UserContext = some user ∧
        JwtTenantResolver.extractClaim ⟨claim⟩ user = .ok k := by
  unfold JwtTenantResolver.tenantId
  rw [TenantMiddleware.extension_stripped_user]
  cases request.extension UserContext <;> simp

/-- The principal belongs to the tenant its token names. -/
theorem mem_tenantsOf_of_extractClaim {claim k : String} {user : UserContext}
    (h : JwtTenantResolver.extractClaim ⟨claim⟩ user = .ok k) :
    k ∈ (TenantMembership.new claim).tenantsOf user := by
  obtain ⟨hne, hvalue⟩ := (JwtTenantResolver.extractClaim_ok_iff ⟨claim⟩ user k).mp h
  rcases hvalue with hvalue | hvalue
  · rw [TenantMembership.tenantsOf_new hvalue, TenantMembership.strings_string hne]
    exact List.mem_singleton_self k
  · rw [TenantMembership.tenantsOf_new hvalue, TenantMembership.strings_singleton hne]
    exact List.mem_singleton_self k

/-- When the token resolver and the membership read the same claim, the verified token alone
decides: the tenant it names is served if the store has it and it is active, and nobody is
refused as a stranger to the tenant of his own token. -/
theorem token_alone_decides (claim : String) (calls : List ConfigCall)
    (same : TenantMiddleware.lastMembership calls = .new claim) (keyed : FindsById env)
    (request : HttpRequest H X B)
    (run : (passage (TenantMiddleware.new.configure calls) (.jwt ⟨claim⟩) request :
      PassageProgram H X B ε P _).Runs env st log a st') :
    (∀ t, Reached log t ↔ ∃ user, request.extension UserContext = some user ∧
      JwtTenantResolver.extractClaim ⟨claim⟩ user = .ok t.id ∧
      ⟨.lookup (.findById t.id), .ok (some t)⟩ ∈ log ∧ t.active = true) ∧
    ∀ text, a = .error (.forbidden text) → ∃ r, ⟨.next r, a⟩ ∈ log := by
  rw [TenantMiddleware.configure_new, same] at run
  have passed := passed_of_runs run
  have own {k : String} {t : Tenant} (hkey : JwtTenantResolver.tenantId ⟨claim⟩
      (TenantMiddleware.stripped request) = .ok k)
      (hmem : ⟨.lookup (.findById k), .ok (some t)⟩ ∈ log) :
      t.id = k ∧ AdmitsPrincipal (.new claim) request t := by
    obtain ⟨choice, s, s', hanswer⟩ := run.answered hmem
    obtain rfl : t.id = k := keyed choice s k t s' hanswer
    obtain ⟨user, huser, hclaim⟩ := tokenKey_ok_iff.mp hkey
    exact ⟨rfl, user, huser, mem_tenantsOf_of_extractClaim hclaim⟩
  refine ⟨fun t => ?_, fun text hforbidden => ?_⟩
  · rw [passed.reached_iff, admitsPrincipal_stripped]
    constructor
    · intro hreached
      obtain ⟨⟨k, hkey, hmem⟩, hactive, -⟩ := hreached
      obtain ⟨rfl, -⟩ := own hkey hmem
      obtain ⟨user, huser, hclaim⟩ := tokenKey_ok_iff.mp hkey
      exact ⟨user, huser, hclaim, hmem, hactive⟩
    · intro hnamed
      obtain ⟨user, huser, hclaim, hmem, hactive⟩ := hnamed
      have hkey := tokenKey_ok_iff.mpr ⟨user, huser, hclaim⟩
      exact ⟨⟨t.id, hkey, hmem⟩, hactive, (own hkey hmem).2⟩
  · cases passed with
    | served _ _ _ _ => exact ⟨_, List.mem_cons_of_mem _ List.mem_cons_self⟩
    | refused hkey _ hadmits =>
      have hown := (own hkey List.mem_cons_self).2
      exact absurd (admitsPrincipal_stripped.mpr hown) hadmits
    | anonymous _ _ _ => exact ⟨_, List.mem_append_right _ List.mem_cons_self⟩
    | unresolved _ _ => cases hforbidden

end Runs

instance : RequestTarget Unit := ⟨fun _ => "/"⟩

def acmeStore (_ : Unit) (s : Unit) :
    (e : PassageCall HeaderList ContextSlots Unit) → Option (e.Answer Unit Unit × Unit)
  | .lookup (.findById id) =>
    some (.ok (if id = "t-1" then some (Tenant.new "t-1" "acme") else none), s)
  | .lookup _ => some (.ok none, s)
  | .next _ => some (.ok (), s)

theorem acmeStore_findsById : FindsById acmeStore := by
  intro choice s id t s' h
  by_cases hid : id = "t-1"
  · subst hid
    cases h
    rfl
  · simp [acmeStore, hid] at h

def acmeRequest : HttpRequest HeaderList ContextSlots Unit where
  headers := []
  extensions := ⟨none, some (tenantIdClaim (.string "t-1"))⟩
  rest := ()

def acmePassage (calls : List ConfigCall) :
    Option (PassageLog HeaderList ContextSlots Unit Unit Unit × Except (Error Unit) Unit × Unit) :=
  (passage (TenantMiddleware.new.configure calls) (.jwt ⟨"tenant_id"⟩) acmeRequest).execute
    acmeStore [(), ()] ()

theorem tenant_reached_iff_acme :
    ∃ log a, acmePassage [] = some (log, a, ()) ∧ Reached log (Tenant.new "t-1" "acme") := by
  have hrun : acmePassage [] = some (_, _, ()) := rfl
  refine ⟨_, _, hrun, ?_⟩
  have hreached := (tenant_reached_iff [] (.jwt ⟨"tenant_id"⟩) acmeRequest
    (Program.runs_of_execute hrun)).1 (Tenant.new "t-1" "acme")
  refine hreached.mpr ⟨⟨"t-1", rfl, List.mem_cons_self⟩, rfl, ?_⟩
  exact ⟨tenantIdClaim (.string "t-1"), rfl, by decide⟩

theorem token_alone_decides_acme :
    ∃ log a, acmePassage [.withMembership (.new "tenant_id")] = some (log, a, ()) ∧
      Reached log (Tenant.new "t-1" "acme") := by
  have hrun : acmePassage [.withMembership (.new "tenant_id")] = some (_, _, ()) := rfl
  refine ⟨_, _, hrun, ?_⟩
  have hreached := (token_alone_decides "tenant_id" [.withMembership (.new "tenant_id")] rfl
    acmeStore_findsById acmeRequest (Program.runs_of_execute hrun)).1 (Tenant.new "t-1" "acme")
  exact hreached.mpr ⟨tenantIdClaim (.string "t-1"), rfl, rfl, List.mem_cons_self, rfl⟩

end ArmatureTenancy

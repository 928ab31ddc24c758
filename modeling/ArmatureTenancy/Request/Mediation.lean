import ArmatureTenancy.Request.Middleware

/-!
# Complete mediation

Whatever the resolver answers, the rest of the chain is called for a verified
member of the resolved tenant, or, in optional mode, for nobody in particular
when no tenant was resolved. Both facts hold for every chain of configuration
calls, of which only the last one of each kind counts.
-/

namespace ArmatureTenancy

open Foundations

inductive ConfigCall where
  | withMembership : TenantMembership → ConfigCall
  | withOptional : Bool → ConfigCall

namespace ConfigCall

def apply (mw : TenantMiddleware) : ConfigCall → TenantMiddleware
  | .withMembership membership => mw.withMembership membership
  | .withOptional optional => mw.withOptional optional

def membership? : ConfigCall → Option TenantMembership
  | .withMembership membership => some membership
  | .withOptional _ => none

def optional? : ConfigCall → Option Bool
  | .withMembership _ => none
  | .withOptional optional => some optional

end ConfigCall

namespace TenantMiddleware

def configure (mw : TenantMiddleware) (calls : List ConfigCall) : TenantMiddleware :=
  calls.foldl ConfigCall.apply mw

/-- The membership configured last, the default if none was. -/
def lastMembership (calls : List ConfigCall) : TenantMembership :=
  ((calls.filterMap ConfigCall.membership?).getLast?).getD .default

/-- The optional flag configured last, `false` if none was. -/
def lastOptional (calls : List ConfigCall) : Bool :=
  ((calls.filterMap ConfigCall.optional?).getLast?).getD false

theorem configure_concat (mw : TenantMiddleware) (calls : List ConfigCall) (call : ConfigCall) :
    mw.configure (calls ++ [call]) = call.apply (mw.configure calls) := by
  simp [configure]

theorem configure_new (calls : List ConfigCall) :
    new.configure calls = ⟨lastOptional calls, some (lastMembership calls)⟩ := by
  induction calls using List.reverseRecOn with
  | nil => rfl
  | append_singleton calls call ih =>
    rw [configure_concat, ih]
    cases call <;> simp [ConfigCall.apply, withMembership, withOptional, lastMembership,
      lastOptional, ConfigCall.membership?, ConfigCall.optional?]

theorem configure_public_membership (calls : List ConfigCall) :
    (publicUnverified.configure calls).membership = none := by
  induction calls using List.reverseRecOn with
  | nil => rfl
  | append_singleton calls call ih =>
    rw [configure_concat]
    cases call <;> simp [ConfigCall.apply, withMembership, withOptional, ih]

end TenantMiddleware

section Mediation

variable {H X B ε P : Type}

def AdmitsPrincipal [TypedStorage X UserContext] (membership : TenantMembership)
    (request : HttpRequest H X B) (tenant : Tenant) : Prop :=
  ∃ user, request.extension UserContext = some user ∧ tenant.id ∈ membership.tenantsOf user

/-- The rest of the chain is called once and its answer returned. -/
def Forwards (program : MiddlewareProgram H X B ε P (Except (Error ε) P))
    (request : HttpRequest H X B) : Prop :=
  program = .call (.next request) .pure

theorem forwards_call_iff {request r : HttpRequest H X B} :
    Forwards (.call (.next request) .pure : MiddlewareProgram H X B ε P _) r ↔ r = request := by
  constructor
  · intro h
    injection h with h
    injection h with h
    exact h.symm
  · intro h
    rw [h]
    rfl

theorem not_forwards_pure {result : Except (Error ε) P} {r : HttpRequest H X B} :
    ¬ Forwards (.pure result) r := by
  intro h
  cases h

variable [TypedStorage X UserContext]

def refusal (request : HttpRequest H X B) : Except TenantError Tenant → Error ε
  | .error e => .unauthorized ("Tenant resolution failed: " ++ e.toString)
  | .ok _ =>
    match request.extension UserContext with
    | none => .unauthorized "Tenant access requires an authenticated principal"
    | some _ => .forbidden "Principal is not a member of the requested tenant"

namespace TenantMiddleware

variable [TypedStorage X TenantContext] {membership : TenantMembership}
  {request : HttpRequest H X B}

variable (ε P) in
/-- A resolved tenant is served to its members with a bound context, and refused otherwise. -/
theorem proceed_resolved {mw : TenantMiddleware} (hmw : mw.membership = some membership)
    (request : HttpRequest H X B) (tenant : Tenant) :
    (AdmitsPrincipal membership request tenant ∧
      (mw.proceed request (.ok tenant) : MiddlewareM H X B ε P P).run =
        .call (.next (request.withExtension (TenantContext.boundToPrincipal tenant))) .pure) ∨
    (¬ AdmitsPrincipal membership request tenant ∧
      (mw.proceed request (.ok tenant) : MiddlewareM H X B ε P P).run =
        .pure (.error (refusal request (.ok tenant)))) := by
  unfold AdmitsPrincipal refusal
  cases huser : request.extension UserContext with
  | none =>
    refine .inr ⟨by simp, ?_⟩
    exact proceed_refused (contextFor_no_principal hmw huser)
  | some user =>
    by_cases hmember : tenant.id ∈ membership.tenantsOf user
    · refine .inl ⟨⟨user, rfl, hmember⟩, ?_⟩
      exact proceed_granted (contextFor_member hmw huser hmember)
    · refine .inr ⟨by simpa using hmember, ?_⟩
      exact proceed_refused (contextFor_stranger hmw huser hmember)

theorem extension_stripped_user [HeaderMap H] [SeparateStorage X TenantContext UserContext] :
    (stripped request).extension UserContext = request.extension UserContext :=
  (stripIncomingTenantHeaders request).extension_withoutExtension_of_separate

end TenantMiddleware

section Handle

variable [TypedStorage X TenantContext]

def NeverBound : MiddlewareCall H X B → Prop
  | .resolve _ => True
  | .next r => ∀ context, r.extension TenantContext = some context →
      context.isPrincipalBound = false

/-- The request carries a context for the tenant, bound to the principal. -/
def BoundTo (r : HttpRequest H X B) (tenant : Tenant) : Prop :=
  ∃ context, r.extension TenantContext = some context ∧ context.tenant = some tenant ∧
    context.isPrincipalBound = true

omit [TypedStorage X UserContext] in
theorem BoundTo.unique {r : HttpRequest H X B} {t t' : Tenant} (h : BoundTo r t)
    (h' : BoundTo r t') : t = t' := by
  obtain ⟨context, hcontext, htenant, -⟩ := h
  obtain ⟨context', hcontext', htenant', -⟩ := h'
  cases hcontext.symm.trans hcontext'
  exact Option.some.inj (htenant.symm.trans htenant')

/-- What has to follow the resolver's answer: the request goes on for members
of the resolved tenant, with a context bound to it, or in optional mode without
any context when no tenant was resolved, and is refused in every other case. -/
structure Mediates (membership : TenantMembership) (optional : Bool)
    (request : HttpRequest H X B) (resolved : Except TenantError Tenant)
    (program : MiddlewareProgram H X B ε P (Except (Error ε) P)) : Prop where
  forwards : (∃ r, Forwards program r) ↔
    (∃ tenant, resolved = .ok tenant ∧ AdmitsPrincipal membership request tenant) ∨
      (optional = true ∧ ∃ e, resolved = .error e)
  bound : ∀ tenant r, resolved = .ok tenant → Forwards program r → BoundTo r tenant
  absent : ∀ e r, resolved = .error e → Forwards program r → r.extension TenantContext = none
  refused : (¬ ∃ r, Forwards program r) → program = .pure (.error (refusal request resolved))

/-- Mediation looks at nothing of a request but its principal. -/
theorem Mediates.of_same_principal {membership : TenantMembership} {optional : Bool}
    {request request' : HttpRequest H X B} {resolved : Except TenantError Tenant}
    {program : MiddlewareProgram H X B ε P (Except (Error ε) P)}
    (h : Mediates membership optional request resolved program)
    (hsame : request.extension UserContext = request'.extension UserContext) :
    Mediates membership optional request' resolved program where
  forwards := by
    simpa only [AdmitsPrincipal, hsame] using h.forwards
  bound := h.bound
  absent := h.absent
  refused := by
    have hrefusal : (refusal request' resolved : Error ε) = refusal request resolved := by
      cases resolved <;> simp only [refusal, hsame]
    rw [hrefusal]
    exact h.refused

variable [LawfulTypedStorage X TenantContext]

omit [TypedStorage X UserContext] in
theorem boundTo_withExtension (request : HttpRequest H X B) (tenant : Tenant) :
    BoundTo (request.withExtension (TenantContext.boundToPrincipal tenant)) tenant :=
  ⟨_, request.extension_withExtension _, rfl, rfl⟩

theorem proceed_mediates {membership : TenantMembership} {optional : Bool}
    (request : HttpRequest H X B) (resolved : Except TenantError Tenant) :
    Mediates membership optional request resolved
      (TenantMiddleware.proceed ⟨optional, some membership⟩ request resolved :
        MiddlewareM H X B ε P P).run := by
  cases resolved with
  | ok tenant =>
    have hmw : (TenantMiddleware.mk optional (some membership)).membership = some membership := rfl
    rcases TenantMiddleware.proceed_resolved ε P hmw request tenant with
      ⟨hadmits, hrun⟩ | ⟨hadmits, hrun⟩
    · rw [hrun]
      constructor
      · simpa [hadmits] using ⟨_, forwards_call_iff.mpr rfl⟩
      · intro t r ht hr
        cases ht
        rw [forwards_call_iff.mp hr]
        exact boundTo_withExtension request tenant
      · intro e r he
        cases he
      · intro hnone
        exact absurd ⟨_, forwards_call_iff.mpr rfl⟩ hnone
    · rw [hrun]
      constructor
      · simp [not_forwards_pure, hadmits]
      · intro t r _ hr
        exact absurd hr not_forwards_pure
      · intro e r he
        cases he
      · intro _
        rfl
  | error e =>
    rw [TenantMiddleware.proceed_error]
    cases optional with
    | true =>
      constructor
      · simpa using ⟨_, forwards_call_iff.mpr rfl⟩
      · intro t r ht
        cases ht
      · intro e r _ hr
        rw [forwards_call_iff.mp hr, HttpRequest.extension_withoutExtension]
      · intro hnone
        exact absurd ⟨_, forwards_call_iff.mpr rfl⟩ hnone
    | false =>
      constructor
      · simp [not_forwards_pure]
      · intro t r ht
        cases ht
      · intro e r _ hr
        exact absurd hr not_forwards_pure
      · intro _
        rfl

variable [HeaderMap H]

theorem public_never_bound (calls : List ConfigCall) (request : HttpRequest H X B) :
    ((TenantMiddleware.publicUnverified.configure calls).handle request :
      MiddlewareM H X B ε P P).run.Within (fun _ _ => True) NeverBound fun _ => True := by
  have hmw := TenantMiddleware.configure_public_membership calls
  rw [TenantMiddleware.handle_run]
  refine ⟨trivial, fun resolved _ => ?_⟩
  cases resolved with
  | ok tenant =>
    simp only [TenantMiddleware.proceed_granted (TenantMiddleware.contextFor_unbound hmw)]
    refine ⟨?_, fun _ _ => trivial⟩
    intro context hcontext
    rw [HttpRequest.extension_withExtension] at hcontext
    cases hcontext
    rfl
  | error e =>
    simp only [TenantMiddleware.proceed_error]
    split
    · refine ⟨?_, fun _ _ => trivial⟩
      intro context hcontext
      simp at hcontext
    · trivial

/-- An enforcing middleware asks its resolver once, about the stripped request,
and mediates on the answer under the settings configured last. A public
middleware never passes on a bound context. -/
theorem complete_mediation [SeparateStorage X TenantContext UserContext]
    (calls : List ConfigCall) (request : HttpRequest H X B) :
    (∃ after : Except TenantError Tenant → MiddlewareProgram H X B ε P (Except (Error ε) P),
      ((TenantMiddleware.new.configure calls).handle request).run =
          .call (.resolve (TenantMiddleware.stripped request)) after ∧
        ∀ resolved, Mediates (TenantMiddleware.lastMembership calls)
          (TenantMiddleware.lastOptional calls) request resolved (after resolved)) ∧
    ((TenantMiddleware.publicUnverified.configure calls).handle request :
      MiddlewareM H X B ε P P).run.Within (fun _ _ => True) NeverBound fun _ => True := by
  refine ⟨⟨_, TenantMiddleware.handle_run _ request, fun resolved => ?_⟩,
    public_never_bound calls request⟩
  rw [TenantMiddleware.configure_new]
  exact (proceed_mediates (TenantMiddleware.stripped request) resolved).of_same_principal
    TenantMiddleware.extension_stripped_user

end Handle
end Mediation

def strangerRequest : HttpRequest HeaderList ContextSlots Unit where
  headers := [("__Tenant_Id", "t-2")]
  extensions := ⟨some (TenantContext.boundToPrincipal (Tenant.new "t-2" "bolt")),
    some ⟨.object [("tenants", .array [.string "t-1"])]⟩⟩
  rest := ()

theorem complete_mediation_member :
    ∃ after : Except TenantError Tenant →
        MiddlewareProgram HeaderList ContextSlots Unit Unit Unit (Except (Error Unit) Unit),
      ((TenantMiddleware.new.configure [.withOptional true]).handle strangerRequest).run =
          .call (.resolve (TenantMiddleware.stripped strangerRequest)) after ∧
        (¬ ∃ r, Forwards (after (.ok (Tenant.new "t-2" "bolt"))) r) ∧
        ∃ r, Forwards (after (.ok (Tenant.new "t-1" "acme"))) r ∧
          BoundTo r (Tenant.new "t-1" "acme") := by
  obtain ⟨after, hrun, hafter⟩ :=
    (complete_mediation [.withOptional true] strangerRequest).1
  refine ⟨after, hrun, fun hforwards => ?_, ?_⟩
  · rcases (hafter _).forwards.mp hforwards with ⟨t, ht, user, huser, hmember⟩ | ⟨-, e, he⟩
    · cases ht
      cases huser
      exact absurd hmember (by decide)
    · cases he
  · have hadmits : AdmitsPrincipal .default strangerRequest (Tenant.new "t-1" "acme") :=
      ⟨_, rfl, by decide⟩
    obtain ⟨r, hr⟩ := (hafter _).forwards.mpr (.inl ⟨_, rfl, hadmits⟩)
    exact ⟨r, hr, (hafter _).bound _ r rfl hr⟩

end ArmatureTenancy

import ArmatureTenancy.Request.Mediation
import ArmatureTenancy.Cache.Isolation

/-!
# Requests served from the cache

An enforcing middleware in front of a handler that works with the tenant-aware cache on
behalf of the tenant in its request's context. Requests of many principals are served at
the same time, one call after the other in any order; resolvers answer as they like and
cache calls fail as they like. What a request touches in the cache belongs to the tenants
of its own principal.
-/

namespace ArmatureTenancy

open Foundations

theorem cache_partition :
    Partition mapProvider (fun _ => False) CacheCall.Owned
      fun id s t => restrict (ownKey id) s = restrict (ownKey id) t where
  equivalence _ := ⟨fun _ => rfl, Eq.symm, Eq.trans⟩
  untouched h := h.elim
  outside hne hown h := mapProvider_outside hne hown h
  inside hown h hsim := mapProvider_inside hown h hsim
  answers := by
    intro choice store call
    cases call <;> simp [mapProvider]

section Serving

variable {H X B ε P : Type} [TypedStorage X TenantContext] [TypedStorage X UserContext]

variable (H X B ε P) in
/-- What a handler does for the tenant of its request's context, with calls of the cache on
that tenant's behalf, and what it answers where there is no tenant. -/
structure TenantHandler where
  work : Tenant → HttpRequest H X B →
    Program CacheOp (fun _ => Except CacheError CacheReply) (Except (Error ε) P)
  untenanted : HttpRequest H X B → Except (Error ε) P

def TenantHandler.program (handler : TenantHandler H X B ε P) (request : HttpRequest H X B) :
    Program CacheCall CacheCall.Answer (Except (Error ε) P) :=
  match (request.extension TenantContext).bind TenantContext.tenant with
  | some tenant => (handler.work tenant request).expand fun op => TenantCall.program ⟨tenant, op⟩
  | none => .pure (handler.untenanted request)

inductive ServeCall (H X B : Type) where
  | resolve : HttpRequest H X B → ServeCall H X B
  | cache : CacheCall → ServeCall H X B

abbrev ServeCall.Answer : ServeCall H X B → Type
  | .resolve _ => Except TenantError Tenant
  | .cache call => call.Answer

abbrev ServeProgram (H X B ε P : Type) :=
  Program (ServeCall H X B) ServeCall.Answer (Except (Error ε) P)

def serveCall (handler : TenantHandler H X B ε P) :
    (e : MiddlewareCall H X B) → Program (ServeCall H X B) ServeCall.Answer (e.Answer ε P)
  | .resolve request => .call (.resolve request) .pure
  | .next request => (handler.program request).expand fun call => .call (.cache call) .pure

variable [HeaderMap H]

def serve (mw : TenantMiddleware) (handler : TenantHandler H X B ε P)
    (request : HttpRequest H X B) : ServeProgram H X B ε P :=
  (mw.handle request : MiddlewareM H X B ε P P).run.expand (serveCall handler)

/-- What is decided at one call: the resolver's answer, or what the cache does. -/
structure ServeChoice where
  resolved : Except TenantError Tenant
  cache : CacheChoice

def serving (choice : ServeChoice) (store : CacheStore) :
    (e : ServeCall H X B) → Option (e.Answer × CacheStore)
  | .resolve _ => some (choice.resolved, store)
  | .cache call => mapProvider choice.cache store call

namespace ServeCall

def Neutral : ServeCall H X B → Prop
  | .resolve _ => True
  | .cache _ => False

def Owned (id : String) : ServeCall H X B → Prop
  | .resolve _ => False
  | .cache call => call.Owned id

def Admissible : (e : ServeCall H X B) → e.Answer → Prop
  | .resolve _, _ => True
  | .cache call, answer => call.Admissible answer

end ServeCall

omit [TypedStorage X TenantContext] [TypedStorage X UserContext] [HeaderMap H] in
theorem serving_admissible (choice : ServeChoice) (store : CacheStore) (e : ServeCall H X B)
    (answer : e.Answer) (store' : CacheStore) (h : serving choice store e = some (answer, store')) :
    e.Admissible answer := by
  cases e with
  | resolve request => trivial
  | cache call => exact mapProvider_admissible _ _ _ _ _ h

def principalTenants (membership : TenantMembership) (request : HttpRequest H X B) :
    List String :=
  match request.extension UserContext with
  | some user => membership.tenantsOf user
  | none => []

omit [TypedStorage X TenantContext] [HeaderMap H] in
theorem mem_principalTenants {membership : TenantMembership} {request : HttpRequest H X B}
    {tenant : Tenant} :
    tenant.id ∈ principalTenants membership request ↔
      AdmitsPrincipal membership request tenant := by
  unfold principalTenants AdmitsPrincipal
  cases request.extension UserContext <;> simp

/-- A request is passed on with a tenant of the principal in its context, or with none. -/
def PassesOwn (tenants : List String) : MiddlewareCall H X B → Prop
  | .resolve _ => True
  | .next r => ∀ tenant, (r.extension TenantContext).bind TenantContext.tenant = some tenant →
      tenant.id ∈ tenants

omit [TypedStorage X UserContext] [HeaderMap H] in
theorem TenantHandler.program_within (handler : TenantHandler H X B ε P)
    {request : HttpRequest H X B} {tenants : List String}
    (h : PassesOwn tenants (.next request)) :
    (handler.program request).Within CacheCall.Admissible
      (fun call => ∃ id ∈ tenants, call.Owned id) fun _ => True := by
  unfold program
  split
  · next tenant htenant =>
    have hop (op : CacheOp) (_ : True) : (TenantCall.program ⟨tenant, op⟩).Within
        CacheCall.Admissible (fun call => ∃ id ∈ tenants, call.Owned id) fun _ => True :=
      (TenantCall.program_within ⟨tenant, op⟩).imp
        (fun call hown => ⟨tenant.id, h tenant htenant, hown⟩) fun _ => id
    exact Program.within_expand hop
      (Program.within_of_forall (fun _ => trivial) (fun _ => trivial) _)
  · trivial

section Bounds

variable [LawfulTypedStorage X TenantContext] [SeparateStorage X TenantContext UserContext]
  {mw : TenantMiddleware} {membership : TenantMembership}

theorem handle_passesOwn (hmw : mw.membership = some membership) (request : HttpRequest H X B) :
    (mw.handle request : MiddlewareM H X B ε P P).run.Within (fun _ _ => True)
      (PassesOwn (principalTenants membership request)) fun _ => True := by
  have huser : (TenantMiddleware.stripped request).extension UserContext =
      request.extension UserContext := TenantMiddleware.extension_stripped_user
  have hproceed (resolved : Except TenantError Tenant) :
      (mw.proceed (TenantMiddleware.stripped request) resolved : MiddlewareM H X B ε P P).run.Within
        (fun _ _ => True) (PassesOwn (principalTenants membership request)) fun _ => True := by
    cases resolved with
    | error e =>
      rw [TenantMiddleware.proceed_error]
      split
      · refine ⟨?_, fun _ _ => trivial⟩
        intro tenant htenant
        simp at htenant
      · trivial
    | ok tenant =>
      rcases TenantMiddleware.proceed_resolved ε P hmw (TenantMiddleware.stripped request) tenant
        with ⟨hadmits, hrun⟩ | ⟨-, hrun⟩
      · rw [hrun]
        refine ⟨?_, fun _ _ => trivial⟩
        intro tenant' htenant
        rw [HttpRequest.extension_withExtension] at htenant
        cases htenant
        rw [AdmitsPrincipal, huser] at hadmits
        exact mem_principalTenants.mpr hadmits
      · rw [hrun]
        trivial
  rw [TenantMiddleware.handle_run]
  exact ⟨trivial, fun resolved _ => hproceed resolved⟩

theorem serve_within (hmw : mw.membership = some membership) (handler : TenantHandler H X B ε P)
    (request : HttpRequest H X B) :
    (serve mw handler request).Within ServeCall.Admissible
      (fun e => e.Neutral ∨ ∃ id, id ∈ principalTenants membership request ∧ e.Owned id)
      fun _ => True := by
  apply Program.within_expand _ (handle_passesOwn hmw request)
  intro e he
  cases e with
  | resolve r => exact ⟨.inl trivial, fun _ _ => trivial⟩
  | next r =>
    apply Program.within_expand _ (handler.program_within he)
    intro call hown
    exact ⟨.inr hown, fun answer hadmissible => hadmissible⟩

end Bounds

omit [TypedStorage X TenantContext] [TypedStorage X UserContext] [HeaderMap H] in
theorem serving_partition :
    Partition (serving : Environment ServeChoice CacheStore (ServeCall H X B) ServeCall.Answer)
      ServeCall.Neutral ServeCall.Owned
      fun id s t => restrict (ownKey id) s = restrict (ownKey id) t where
  equivalence := cache_partition.equivalence
  untouched := by
    intro choice s e answer s' hneutral h
    cases e with
    | resolve request =>
      cases h
      exact ⟨rfl, fun _ => rfl⟩
    | cache call => exact hneutral.elim
  outside := by
    intro id other choice s e answer s' hne hown h
    cases e with
    | resolve request => exact hown.elim
    | cache call => exact cache_partition.outside hne hown h
  inside := by
    intro id choice s t e answer s' hown h hsim
    cases e with
    | resolve request => exact hown.elim
    | cache call => exact cache_partition.inside hown h hsim
  answers := by
    intro choice s e
    cases e with
    | resolve request => exact Option.some_ne_none _
    | cache call => exact cache_partition.answers choice.cache s call

section System

variable {ι : Type*} [DecidableEq ι] (mw : TenantMiddleware)
  (handlers : ι → TenantHandler H X B ε P) (requests : ι → HttpRequest H X B) (store : CacheStore)

def servingSystem :
    Config ι CacheStore (ServeCall H X B) ServeCall.Answer (Except (Error ε) P) where
  state := store
  history := []
  program := fun i => serve mw (handlers i) (requests i)

variable [LawfulTypedStorage X TenantContext] [SeparateStorage X TenantContext UserContext]
  {mw} {membership : TenantMembership}

/-- However requests are interleaved, whatever their resolvers answer and whichever cache
calls fail: a request touches keys of its own principal's tenants only, its turns change
nothing that another tenant can see, and tenants that share no principal with the rest have
the same cache and give the same answers without the rest. -/
theorem requests_isolated (hmw : mw.membership = some membership)
    (schedule : List (ι × ServeChoice)) :
    let run := (servingSystem mw handlers requests store).run serving
    let tenants : ι → List String := fun i => principalTenants membership (requests i)
    (∀ i call answer, (i, ⟨.cache call, answer⟩) ∈ (run schedule).history →
      ∃ id ∈ tenants i, call.Owned id) ∧
    (∀ (turn : ι × ServeChoice) (b : Tenant), b.id ∉ tenants turn.1 →
      visible b (run (schedule ++ [turn])).state = visible b (run schedule).state) ∧
    ∀ (group : String → Prop) [DecidablePred group],
      (∀ i, (∀ id ∈ tenants i, group id) ∨ ∀ id ∈ tenants i, ¬ group id) →
      let own := schedule.filter fun turn : ι × ServeChoice => ∃ id ∈ tenants turn.1, group id
      (∀ b : Tenant, group b.id → visible b (run schedule).state = visible b (run own).state) ∧
        ∀ i, (∃ id ∈ tenants i, group id) → (run schedule).program i = (run own).program i := by
  intro run tenants
  have hstart (i : ι) : ((servingSystem mw handlers requests store).program i).Within
      ServeCall.Admissible (fun e => e.Neutral ∨ ∃ id, id ∈ tenants i ∧ e.Owned id)
      fun _ => True := serve_within hmw (handlers i) (requests i)
  refine ⟨?_, ?_, ?_⟩
  · intro i call answer hmem
    have hallowed := Config.history_within serving_admissible hstart (by simp [servingSystem])
      schedule _ hmem
    exact hallowed.resolve_left id
  · intro turn b hother
    apply visible_congr
    have hwithin := Config.run_within serving_admissible hstart schedule turn.1
    rw [show run (schedule ++ [turn]) = _ from Config.run_concat _ _ _ _]
    rcases (run schedule).step_cases serving turn with heq | ⟨e, rest, answer, s, hp, hr, heq⟩
    · exact congrArg (fun cfg => restrict (ownKey b.id) cfg.state) heq
    · rw [hp] at hwithin
      rw [heq]
      exact serving_partition.others hother hwithin.1 hr
  · intro group _ closed own
    have hpurge := (serving_partition.unwinding closed).run_purge serving_admissible hstart
      (fun _ _ => rfl) (fun _ _ => rfl) schedule
    exact ⟨fun b hb => visible_congr (hpurge.1 b.id hb), hpurge.2⟩

end System
end Serving

def requestOf (id : String) : HttpRequest HeaderList ContextSlots Unit where
  headers := []
  extensions := ⟨none, some ⟨.object [("tenants", .array [.string id])]⟩⟩
  rest := ()

def storing : TenantHandler HeaderList ContextSlots Unit Unit Unit where
  work _ _ := .call (.set "k" [1] none) fun _ => .pure (.ok ())
  untenanted _ := .ok ()

def bothResolve : List (Bool × ServeChoice) :=
  let choice : ServeChoice := ⟨.ok (Tenant.new "t-1" "acme"), ⟨none, default⟩⟩
  [(true, choice), (false, choice), (true, choice)]

theorem requests_isolated_stranger :
    let requests := fun i => requestOf (if i then "t-1" else "t-2")
    let run := (servingSystem .new (fun _ => storing) requests ∅).run serving
    (run bothResolve).program true = .pure (.ok ()) ∧
      (run bothResolve).program false =
        .pure (.error (.forbidden "Principal is not a member of the requested tenant")) ∧
      ∀ b : Tenant, b.id = "t-1" → visible b (run bothResolve).state =
        visible b (run (bothResolve.filter Prod.fst)).state := by
  intro requests run
  refine ⟨rfl, rfl, fun b hb => ?_⟩
  have hmw : TenantMiddleware.new.membership = some .default := rfl
  have hisolated := requests_isolated (fun _ => storing) requests ∅ hmw bothResolve
  exact (hisolated.2.2 (· = "t-1") (by decide)).1 b hb

end ArmatureTenancy

import ArmatureTenancy.Request.Mediation

/-!
# Contexts along a pipeline

A pipeline stacks tenant middlewares and middlewares of the user. User code makes,
changes and clones contexts through their public API and puts them into the request
it was handed; only a tenant middleware makes one that is bound to the principal. A
run is a list of such events, in which resolvers answer as they like, so that
quantifying over lists covers all user code and all resolvers.
-/

namespace ArmatureTenancy

open Foundations

inductive Stage where
  | tenant : TenantMiddleware → Stage
  | user : Stage

/-- The public API of `TenantContext`, on the contexts user code holds. -/
inductive ContextAction where
  | new : ContextAction
  | default : ContextAction
  | withTenant : Tenant → ContextAction
  | setTenant : (position : ℕ) → Tenant → ContextAction
  | clone : (position : ℕ) → ContextAction

def ContextAction.perform (held : List TenantContext) : ContextAction → List TenantContext
  | .new => TenantContext.new :: held
  | .default => TenantContext.default :: held
  | .withTenant tenant => TenantContext.withTenant tenant :: held
  | .setTenant position tenant => held.modify position fun ctx => ctx.setTenant tenant
  | .clone position => held[position]?.toList ++ held

/-- No use of the API makes a bound context out of unbound ones. -/
theorem ContextAction.mem_of_bound {action : ContextAction} {held : List TenantContext}
    {ctx : TenantContext} (hctx : ctx ∈ action.perform held)
    (hbound : ctx.isPrincipalBound = true) : ctx ∈ held := by
  cases action with
  | new =>
    rcases List.mem_cons.mp hctx with rfl | hctx
    · cases hbound
    · exact hctx
  | default =>
    rcases List.mem_cons.mp hctx with rfl | hctx
    · cases hbound
    · exact hctx
  | withTenant tenant =>
    rcases List.mem_cons.mp hctx with rfl | hctx
    · cases hbound
    · exact hctx
  | setTenant position tenant =>
    obtain ⟨i, hi, rfl⟩ := List.mem_iff_getElem.mp hctx
    simp only [ContextAction.perform, List.getElem_modify] at hbound ⊢
    split at hbound
    · cases hbound
    · next hne =>
      rw [if_neg hne]
      exact List.getElem_mem _
  | clone position =>
    rcases List.mem_append.mp hctx with hctx | hctx
    · exact List.mem_of_getElem? (Option.mem_toList.mp hctx)
    · exact hctx

section Pipeline

variable {H X B : Type} [TypedStorage X TenantContext] [TypedStorage X UserContext]

variable (H X B) in
/-- A change of a request that leaves the two contexts in it alone. -/
structure RequestEdit where
  edit : HttpRequest H X B → HttpRequest H X B
  user : ∀ request, (edit request).extension UserContext = request.extension UserContext
  context : ∀ request, (edit request).extension TenantContext = request.extension TenantContext

variable (H X B) in
/-- What a user middleware does to the request it was handed. -/
inductive RequestAction where
  | insert : (position : ℕ) → RequestAction
  | remove : RequestAction
  | setTenant : Tenant → RequestAction
  | edit : RequestEdit H X B → RequestAction

def RequestAction.perform (held : List TenantContext) (request : HttpRequest H X B) :
    RequestAction H X B → HttpRequest H X B
  | .insert position =>
    match held[position]? with
    | some ctx => request.withExtension ctx
    | none => request
  | .remove => request.withoutExtension TenantContext
  | .setTenant tenant =>
    match request.extension TenantContext with
    | some ctx => request.withExtension (ctx.setTenant tenant)
    | none => request
  | .edit change => change.edit request

section Action

variable {held : List TenantContext} {request : HttpRequest H X B} {action : RequestAction H X B}

theorem RequestAction.user_perform [SeparateStorage X TenantContext UserContext] :
    (action.perform held request).extension UserContext = request.extension UserContext := by
  cases action with
  | insert position =>
    simp only [perform]
    split
    · exact request.extension_withExtension_of_separate _
    · rfl
  | remove => exact request.extension_withoutExtension_of_separate
  | setTenant tenant =>
    simp only [perform]
    split
    · exact request.extension_withExtension_of_separate _
    · rfl
  | edit change => exact change.user request

theorem RequestAction.mem_of_bound [LawfulTypedStorage X TenantContext] {ctx : TenantContext}
    (hctx : (action.perform held request).extension TenantContext = some ctx)
    (hbound : ctx.isPrincipalBound = true) :
    ctx ∈ held ∨ request.extension TenantContext = some ctx := by
  cases action with
  | insert position =>
    simp only [perform] at hctx
    split at hctx
    · next inserted hinserted =>
      rw [HttpRequest.extension_withExtension] at hctx
      cases hctx
      exact .inl (List.mem_of_getElem? hinserted)
    · exact .inr hctx
  | remove =>
    rw [perform, HttpRequest.extension_withoutExtension] at hctx
    cases hctx
  | setTenant tenant =>
    simp only [perform] at hctx
    split at hctx
    · rw [HttpRequest.extension_withExtension] at hctx
      cases hctx
      cases hbound
    · exact .inr hctx
  | edit change =>
    rw [perform, change.context] at hctx
    exact .inr hctx

end Action

/-- The request with which a middleware calls the rest of the chain, if it does,
when its resolver answers as given. -/
def passedOn {ε P α : Type} (answer : Except TenantError Tenant) :
    MiddlewareProgram H X B ε P α → Option (HttpRequest H X B)
  | .pure _ => none
  | .call (.resolve _) rest => passedOn answer (rest answer)
  | .call (.next request) _ => some request

variable [HeaderMap H]

/-- A request passed on carries a context bound to a tenant of the principal, an
unbound one, or none. -/
theorem passedOn_handle {ε P : Type} {mw : TenantMiddleware} {request r : HttpRequest H X B}
    {answer : Except TenantError Tenant}
    (h : passedOn answer (mw.handle request : MiddlewareM H X B ε P P).run = some r) :
    (∃ tenant membership, answer = .ok tenant ∧ mw.membership = some membership ∧
      AdmitsPrincipal membership (TenantMiddleware.stripped request) tenant ∧
      r = (TenantMiddleware.stripped request).withExtension
        (TenantContext.boundToPrincipal tenant)) ∨
    (∃ tenant, answer = .ok tenant ∧
      r = (TenantMiddleware.stripped request).withExtension (TenantContext.withTenant tenant)) ∨
    ∃ e, answer = .error e ∧
      r = (TenantMiddleware.stripped request).withoutExtension TenantContext := by
  rw [TenantMiddleware.handle_run, passedOn] at h
  cases answer with
  | error e =>
    rw [TenantMiddleware.proceed_error] at h
    split at h
    · exact .inr (.inr ⟨e, rfl, (Option.some.inj h).symm⟩)
    · cases h
  | ok tenant =>
    cases hmw : mw.membership with
    | none =>
      rw [TenantMiddleware.proceed_granted (TenantMiddleware.contextFor_unbound hmw)] at h
      exact .inr (.inl ⟨tenant, rfl, (Option.some.inj h).symm⟩)
    | some membership =>
      rcases TenantMiddleware.proceed_resolved ε P hmw (TenantMiddleware.stripped request) tenant
        with ⟨hadmits, hrun⟩ | ⟨-, hrun⟩
      · rw [hrun] at h
        exact .inl ⟨tenant, membership, rfl, rfl, hadmits, (Option.some.inj h).symm⟩
      · rw [hrun] at h
        cases h

variable (H X B) in
/-- A run that has reached the handler once all stages are passed. -/
structure PipelineState where
  passed : ℕ
  request : HttpRequest H X B
  held : List TenantContext
  /-- The tenants that tenant middlewares have resolved and let through, with
  their places in the pipeline. -/
  admitted : List (ℕ × Tenant)

variable (H X B) in
inductive PipelineEvent where
  | hold : ContextAction → PipelineEvent
  /-- The current user middleware, or the handler, clones the context of its request. -/
  | read : PipelineEvent
  | change : RequestAction H X B → PipelineEvent
  /-- The resolver of the current tenant middleware answers. -/
  | resolve : Except TenantError Tenant → PipelineEvent
  | passOn : PipelineEvent

namespace PipelineState

def start (first : HttpRequest H X B) : PipelineState H X B := ⟨0, first, [], []⟩

/-- One event, or `none` where it cannot happen. A request that a tenant
middleware refuses goes no further. -/
def step (stages : List Stage) (s : PipelineState H X B) :
    PipelineEvent H X B → Option (PipelineState H X B)
  | .hold action => some { s with held := action.perform s.held }
  | .read =>
    match stages[s.passed]? with
    | some (.tenant _) => none
    | _ => some { s with held := (s.request.extension TenantContext).toList ++ s.held }
  | .change action =>
    match stages[s.passed]? with
    | some .user => some { s with request := action.perform s.held s.request }
    | _ => none
  | .resolve answer =>
    match stages[s.passed]? with
    | some (.tenant mw) =>
      (passedOn answer (mw.handle s.request : MiddlewareM H X B Unit Unit Unit).run).map
        fun request =>
          { s with
            passed := s.passed + 1
            request := request
            admitted :=
              (answer.toOption.map fun tenant => (s.passed, tenant)).toList ++ s.admitted }
    | _ => none
  | .passOn =>
    match stages[s.passed]? with
    | some .user => some { s with passed := s.passed + 1 }
    | _ => none

def run (stages : List Stage) (s : PipelineState H X B) (events : List (PipelineEvent H X B)) :
    Option (PipelineState H X B) :=
  events.foldlM (step stages) s

/-- User code, or the handler, can look at the context. -/
def Sees (s : PipelineState H X B) (ctx : TenantContext) : Prop :=
  ctx ∈ s.held ∨ s.request.extension TenantContext = some ctx

/-- An enforcing middleware that the run has passed resolved the tenant of the
context and found it among those of the principal, under its own membership. -/
def Verified (stages : List Stage) (user? : Option UserContext) (s : PipelineState H X B)
    (ctx : TenantContext) : Prop :=
  ∃ place tenant mw membership user, (place, tenant) ∈ s.admitted ∧ place < s.passed ∧
    stages[place]? = some (.tenant mw) ∧ mw.membership = some membership ∧
    user? = some user ∧ tenant.id ∈ membership.tenantsOf user ∧
    ctx.tenantId = some tenant.id

/-- The principal is the one of the first request, and contexts are bound only
to verified tenants. -/
structure Unforged (stages : List Stage) (user? : Option UserContext) (s : PipelineState H X B) :
    Prop where
  user : s.request.extension UserContext = user?
  verified : ∀ ctx, s.Sees ctx → ctx.isPrincipalBound = true → Verified stages user? s ctx

section Steps

variable {stages : List Stage} {user? : Option UserContext} {s s' : PipelineState H X B}
  {event : PipelineEvent H X B}

omit [TypedStorage X TenantContext] [TypedStorage X UserContext] [HeaderMap H] in
theorem Verified.mono {ctx : TenantContext} (h : Verified stages user? s ctx)
    (hadmitted : s.admitted ⊆ s'.admitted) (hpassed : s.passed ≤ s'.passed) :
    Verified stages user? s' ctx := by
  obtain ⟨place, tenant, mw, membership, user, hmem, hplace, hverified⟩ := h
  exact ⟨place, tenant, mw, membership, user, hadmitted hmem, by omega, hverified⟩

theorem step_resolve {answer : Except TenantError Tenant}
    (h : s.step stages (.resolve answer) = some s') :
    ∃ mw request, stages[s.passed]? = some (.tenant mw) ∧
      passedOn answer (mw.handle s.request : MiddlewareM H X B Unit Unit Unit).run =
        some request ∧
      s' = ⟨s.passed + 1, request, s.held,
        (answer.toOption.map fun tenant => (s.passed, tenant)).toList ++ s.admitted⟩ := by
  simp only [step] at h
  split at h
  · next mw hmw =>
    obtain ⟨request, hrequest, rfl⟩ := Option.map_eq_some_iff.mp h
    exact ⟨mw, request, hmw, hrequest, rfl⟩
  · cases h

omit [HeaderMap H] in
theorem Unforged.of_request (h : Unforged stages user? s) (hheld : s'.held = s.held)
    (hadmitted : s.admitted ⊆ s'.admitted) (hpassed : s.passed ≤ s'.passed)
    (huser : s'.request.extension UserContext = s.request.extension UserContext)
    (hrequest : ∀ ctx, s'.request.extension TenantContext = some ctx →
      ctx.isPrincipalBound = true → Verified stages user? s' ctx) :
    Unforged stages user? s' := by
  refine ⟨huser.trans h.user, ?_⟩
  rintro ctx (hctx | hctx) hbound
  · rw [hheld] at hctx
    exact (h.verified ctx (.inl hctx) hbound).mono hadmitted hpassed
  · exact hrequest ctx hctx hbound

variable [LawfulTypedStorage X TenantContext] [SeparateStorage X TenantContext UserContext]

omit [HeaderMap H] in
theorem Unforged.of_withExtension (h : Unforged stages user? s) {request : HttpRequest H X B}
    {stored : TenantContext} (hheld : s'.held = s.held) (hadmitted : s.admitted ⊆ s'.admitted)
    (hpassed : s.passed ≤ s'.passed) (hs' : s'.request = request.withExtension stored)
    (huser : request.extension UserContext = s.request.extension UserContext)
    (hstored : stored.isPrincipalBound = true → Verified stages user? s' stored) :
    Unforged stages user? s' := by
  refine h.of_request hheld hadmitted hpassed ?_ ?_
  · rw [hs', HttpRequest.extension_withExtension_of_separate, huser]
  · intro ctx hctx hbound
    rw [hs', HttpRequest.extension_withExtension] at hctx
    cases hctx
    exact hstored hbound

theorem Unforged.resolve (h : Unforged stages user? s) {answer : Except TenantError Tenant}
    (hstep : s.step stages (.resolve answer) = some s') : Unforged stages user? s' := by
  obtain ⟨mw, request, hmw, hrequest, rfl⟩ := step_resolve hstep
  have huser : (TenantMiddleware.stripped s.request).extension UserContext =
      s.request.extension UserContext := TenantMiddleware.extension_stripped_user
  have hadmitted : s.admitted ⊆
      (answer.toOption.map fun tenant => (s.passed, tenant)).toList ++ s.admitted :=
    List.subset_append_right _ _
  rcases passedOn_handle hrequest with ⟨tenant, membership, rfl, hmembership, hadmits, rfl⟩ |
    ⟨tenant, rfl, rfl⟩ | ⟨e, rfl, rfl⟩
  · refine h.of_withExtension rfl hadmitted (Nat.le_succ _) rfl huser ?_
    intro _
    obtain ⟨user, hprincipal, hmember⟩ := hadmits
    exact ⟨s.passed, tenant, mw, membership, user, List.mem_cons_self, Nat.lt_succ_self _, hmw,
      hmembership, h.user.symm.trans (huser.symm.trans hprincipal), hmember, rfl⟩
  · refine h.of_withExtension rfl hadmitted (Nat.le_succ _) rfl huser ?_
    intro hbound
    cases hbound
  · refine h.of_request rfl hadmitted (Nat.le_succ _) ?_ ?_
    · exact (HttpRequest.extension_withoutExtension_of_separate _).trans huser
    · intro ctx hctx hbound
      rw [HttpRequest.extension_withoutExtension] at hctx
      cases hctx

/-- No event forges or retargets a bound context. -/
theorem Unforged.step (h : Unforged stages user? s) (hstep : s.step stages event = some s') :
    Unforged stages user? s' := by
  cases event with
  | hold action =>
    cases hstep
    refine ⟨h.user, ?_⟩
    rintro ctx (hctx | hctx) hbound
    · exact h.verified ctx (.inl (ContextAction.mem_of_bound hctx hbound)) hbound
    · exact h.verified ctx (.inr hctx) hbound
  | read =>
    simp only [PipelineState.step] at hstep
    split at hstep
    · cases hstep
    · cases hstep
      refine ⟨h.user, ?_⟩
      rintro ctx (hctx | hctx) hbound
      · rcases List.mem_append.mp hctx with hctx | hctx
        · exact h.verified ctx (.inr (Option.mem_toList.mp hctx)) hbound
        · exact h.verified ctx (.inl hctx) hbound
      · exact h.verified ctx (.inr hctx) hbound
  | change action =>
    simp only [PipelineState.step] at hstep
    split at hstep
    · cases hstep
      refine h.of_request rfl (List.Subset.refl _) le_rfl RequestAction.user_perform ?_
      intro ctx hctx hbound
      exact h.verified ctx (RequestAction.mem_of_bound hctx hbound) hbound
    · cases hstep
  | resolve answer => exact h.resolve hstep
  | passOn =>
    simp only [PipelineState.step] at hstep
    split at hstep
    · cases hstep
      refine h.of_request rfl (List.Subset.refl _) (Nat.le_succ _) rfl ?_
      intro ctx hctx hbound
      exact (h.verified ctx (.inr hctx) hbound).mono (List.Subset.refl _) (Nat.le_succ _)
    · cases hstep

end Steps

theorem run_induction {stages : List Stage} {P : PipelineState H X B → Prop}
    (keeps : ∀ s event s', P s → s.step stages event = some s' → P s')
    {events : List (PipelineEvent H X B)} {s s' : PipelineState H X B} (start : P s)
    (h : s.run stages events = some s') : P s' := by
  induction events generalizing s with
  | nil =>
    cases h
    exact start
  | cons event events ih =>
    obtain ⟨middle, hmiddle, hrest⟩ := Option.bind_eq_some_iff.mp h
    exact ih (keeps s event middle start hmiddle) hrest

/-- Past the last stage, the request carries no bound context. -/
def HandlerUnbound (stages : List Stage) (s : PipelineState H X B) : Prop :=
  s.passed ≤ stages.length ∧ (s.passed = stages.length →
    ∀ ctx, s.request.extension TenantContext = some ctx → ctx.isPrincipalBound = false)

theorem HandlerUnbound.step [LawfulTypedStorage X TenantContext] {earlier : List Stage}
    {mw : TenantMiddleware} (hmw : mw.membership = none) {s s' : PipelineState H X B}
    {event : PipelineEvent H X B} (h : HandlerUnbound (earlier ++ [.tenant mw]) s)
    (hstep : s.step (earlier ++ [.tenant mw]) event = some s') :
    HandlerUnbound (earlier ++ [.tenant mw]) s' := by
  cases event with
  | hold action =>
    cases hstep
    exact h
  | read =>
    simp only [PipelineState.step] at hstep
    split at hstep
    · cases hstep
    · cases hstep
      exact h
  | change action =>
    simp only [PipelineState.step] at hstep
    split at hstep
    · next huser =>
      cases hstep
      refine ⟨h.1, fun hend => ?_⟩
      obtain ⟨hlt, -⟩ := List.getElem?_eq_some_iff.mp huser
      exact absurd hend (Nat.ne_of_lt hlt)
    · cases hstep
  | resolve answer =>
    obtain ⟨mw', request, hstage, hrequest, rfl⟩ := step_resolve hstep
    obtain ⟨hlt, -⟩ := List.getElem?_eq_some_iff.mp hstage
    refine ⟨hlt, ?_⟩
    intro hend ctx hctx
    have hlast : s.passed = earlier.length := by simpa using hend
    rw [hlast, List.getElem?_concat_length] at hstage
    cases hstage
    rcases passedOn_handle hrequest with ⟨tenant, membership, -, hmembership, -⟩ |
      ⟨tenant, rfl, rfl⟩ | ⟨e, rfl, rfl⟩
    · cases hmw.symm.trans hmembership
    · rw [HttpRequest.extension_withExtension] at hctx
      cases hctx
      rfl
    · rw [HttpRequest.extension_withoutExtension] at hctx
      cases hctx
  | passOn =>
    simp only [PipelineState.step] at hstep
    split at hstep
    · next huser =>
      cases hstep
      obtain ⟨hlt, -⟩ := List.getElem?_eq_some_iff.mp huser
      refine ⟨hlt, fun hend => ?_⟩
      have hlast : s.passed = earlier.length := by simpa using hend
      rw [hlast, List.getElem?_concat_length] at huser
      cases huser
    · cases hstep

end PipelineState

/-- In every run of every pipeline whose first request carries no bound context:
each bound context that a stage, the handler or other user code sees is for a
tenant that an enforcing middleware passed earlier has resolved and found among
those of the principal under its own membership; and if the last stage is a public
middleware, the handler's request carries no bound context. -/
theorem bound_contexts_unforged [LawfulTypedStorage X TenantContext]
    [SeparateStorage X TenantContext UserContext] (stages : List Stage) (first : HttpRequest H X B)
    (unbound : ∀ ctx, first.extension TenantContext = some ctx → ctx.isPrincipalBound = false)
    (events : List (PipelineEvent H X B)) {s : PipelineState H X B}
    (run : (PipelineState.start first).run stages events = some s) :
    (∀ ctx, s.Sees ctx → ctx.isPrincipalBound = true →
      s.Verified stages (first.extension UserContext) ctx) ∧
    ∀ earlier mw, stages = earlier ++ [.tenant mw] → mw.membership = none →
      s.passed = stages.length →
        ∀ ctx, s.request.extension TenantContext = some ctx → ctx.isPrincipalBound = false := by
  constructor
  · have hstart : (PipelineState.start first).Unforged stages (first.extension UserContext) := by
      refine ⟨rfl, ?_⟩
      rintro ctx (hctx | hctx) hbound
      · cases hctx
      · rw [unbound ctx hctx] at hbound
        cases hbound
    exact (PipelineState.run_induction (fun _ _ _ h => h.step) hstart run).verified
  · rintro earlier mw rfl hmw hend
    have hstart : (PipelineState.start first).HandlerUnbound (earlier ++ [.tenant mw]) :=
      ⟨Nat.zero_le _, fun _ => unbound⟩
    exact (PipelineState.run_induction (fun _ _ _ h => h.step hmw) hstart run).2 hend

end Pipeline

def memberRequest : HttpRequest HeaderList ContextSlots Unit where
  headers := []
  extensions := ⟨none, some ⟨.object [("tenants", .array [.string "t-1"])]⟩⟩
  rest := ()

def retargeting : List (PipelineEvent HeaderList ContextSlots Unit) :=
  [.resolve (.ok (Tenant.new "t-1" "acme")), .read, .hold (.clone 0),
    .hold (.setTenant 0 (Tenant.new "t-2" "bolt")), .change .remove, .change (.insert 1), .passOn]

theorem bound_contexts_unforged_member :
    ∃ s, (PipelineState.start memberRequest).run [.tenant .new, .user] retargeting = some s ∧
      s.held = [TenantContext.withTenant (Tenant.new "t-2" "bolt"),
        TenantContext.boundToPrincipal (Tenant.new "t-1" "acme")] ∧
      s.Verified [.tenant .new, .user] (memberRequest.extension UserContext)
        (TenantContext.boundToPrincipal (Tenant.new "t-1" "acme")) := by
  refine ⟨_, rfl, rfl, ?_⟩
  have hunbound : ∀ ctx, memberRequest.extension TenantContext = some ctx →
      ctx.isPrincipalBound = false := by
    intro ctx hctx
    cases hctx
  exact (bound_contexts_unforged [.tenant .new, .user] memberRequest hunbound retargeting rfl).1 _
    (.inr rfl) rfl

end ArmatureTenancy

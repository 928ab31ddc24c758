import ArmatureTenancy.Management.Queries
import ArmatureTenancy.Management.SlugUniqueness

/-!
# Slug lookup and creation over sequential runs

`get_by_slug` returns the first record with the slug in whatever order the map
yields its values. Run alone, a creation checks its slug and inserts its record
with nothing in between, so slugs stay unique and the order does not matter: the
lookup by slug and the lookup by id find the same records, and a creation is
refused exactly when the lookup finds something.
-/

namespace ArmatureTenancy

open Foundations InMemoryManagedTenantStore

theorem Effect.slugsUnique {s s' : InMemoryManagedTenantStore} {op : ManagerOp}
    {events : List ProvisionerEvent} {a : ManagerResult} (h : Effect s op events a s')
    (hunique : SlugsUnique s) : SlugsUnique s' := by
  have inserted {m : ManagedTenant} (fresh : s.get m.tenant.id = none)
      (slug : SlugFree s m.tenant.name) : SlugsUnique (s.put m) :=
    (hunique.put_iff fresh).mpr slug
  have written {s : InMemoryManagedTenantStore} {m u : ManagedTenant} {id : String}
      (hunique : SlugsUnique s) (stored : s.get id = some m) (same : u.identity = m.identity) :
      SlugsUnique (s.put u) :=
    hunique.put (get_of_identity stored same) (ManagedTenant.slug_eq_of_identity same)
  cases h with
  | @created newV4 now request slug fresh =>
    have hput := inserted (m := request.managed newV4 (now 0)) (by simpa using fresh)
      (by rw [request.managed_slug]; exact slug)
    exact written hput (get_put_self _ _)
      ((request.managed newV4 (now 0)).identity_markProvisioned _)
  | provisionFailed slug fresh =>
    rw [remove_put fresh (CreateTenantRequest.managed_id _ _ _)]
    exact hunique
  | updated stored => exact written hunique stored rfl
  | suspended stored guard => exact written hunique stored rfl
  | activated stored guard => exact written hunique stored rfl
  | deprovisionFailed stored guard => exact written hunique stored rfl
  | terminated stored guard =>
    exact written (written hunique stored rfl) (get_put_self _ _) rfl
  | deleted stored terminated => exact hunique.remove _
  | usageUpdated stored => exact written hunique stored rfl
  | _ => exact hunique

theorem slugsUnique_of_run {past : List ManagerDone} {s : InMemoryManagedTenantStore}
    (run : ManagerRun past s) : SlugsUnique s := by
  induction run with
  | nil =>
    intro a b ra rb ha
    cases ha
  | step earlier runs ih => exact (effect_of_runs runs).slugsUnique ih

/-- Where slugs are unique, the order of iteration does not matter. -/
theorem SlugsUnique.getBySlug_iff {s : InMemoryManagedTenantStore} (hunique : SlugsUnique s)
    (order : StoreOrder) (slug : String) (r : ManagedTenant) :
    s.getBySlug order slug = some r ↔ s.get r.tenant.id = some r ∧ r.tenant.name = slug := by
  constructor
  · exact getBySlug_eq_some
  · rintro ⟨hget, hslug⟩
    cases hfound : s.getBySlug order slug with
    | none => exact absurd hslug (getBySlug_eq_none_iff.mp hfound _ r hget)
    | some r' =>
      obtain ⟨hget', hslug'⟩ := getBySlug_eq_some hfound
      have hid := hunique _ _ r' r hget' hget (hslug'.trans hslug.symm)
      rw [hid, hget] at hget'
      exact hget'.symm

/-- The creation ended with its lookup, and returned the refusal. -/
def RefusedForSlug (request : CreateTenantRequest)
    (log : List (Exchange ManagerCall ManagerCall.Answer)) (a : ManagerResult) : Prop :=
  (∃ found, log = [⟨.storeGetBySlug request.slug, found⟩]) ∧
    a = .error (.invalid ("Tenant slug '" ++ request.slug ++ "' already exists"))

section Creation

variable {s s' : InMemoryManagedTenantStore} {newV4 : String} {now : Clock}
  {request : CreateTenantRequest} {log : List (Exchange ManagerCall ManagerCall.Answer)}
  {a : ManagerResult}

theorem refusedForSlug_iff
    (h : (ManagerOp.create newV4 now request).program.Runs memory s log a s') :
    RefusedForSlug request log a ↔ ∃ k r, s.get k = some r ∧ r.tenant.name = request.slug := by
  rw [ManagerOp.program_create] at h
  obtain ⟨c, answer, s₁, tail, hanswer, rfl, hrun⟩ := Program.runs_call_iff.mp h
  cases hanswer
  cases hslug : s.getBySlug c.order request.slug with
  | some r =>
    rw [hslug] at hrun
    obtain ⟨rfl, rfl, rfl⟩ := Program.runs_pure_iff.mp hrun
    obtain ⟨hstored, hname⟩ := getBySlug_eq_some hslug
    exact iff_of_true ⟨⟨_, rfl⟩, rfl⟩ ⟨_, r, hstored, hname⟩
  | none =>
    rw [hslug] at hrun
    obtain ⟨c, answer, s₂, tail, hanswer, rfl, -⟩ := Program.runs_call_iff.mp hrun
    have hfree := getBySlug_eq_none_iff.mp hslug
    apply iff_of_false
    · rintro ⟨⟨found, hlog⟩, -⟩
      cases hlog
    · rintro ⟨k, r, hr, hname⟩
      exact hfree k r hr hname

theorem create_failed_restores
    (h : (ManagerOp.create newV4 now request).program.Runs memory s log a s') {m : ManagedTenant}
    {e : TenantError} (failed : ⟨.provisioner .provision m, .error e⟩ ∈ log) : s' = s := by
  have hevent : ⟨.provision, m, .error e⟩ ∈ provisionerEvents log :=
    List.mem_filterMap.mpr ⟨_, failed, rfl⟩
  have heffect := effect_of_runs h
  generalize provisionerEvents log = events at heffect hevent
  cases heffect with
  | slugTaken stored slug => cases hevent
  | idTaken slug stored => cases hevent
  | created slug fresh => simp at hevent
  | provisionFailed slug fresh => exact remove_put fresh (request.managed_id _ _)

theorem create_extends
    (h : (ManagerOp.create newV4 now request).program.Runs memory s log a s') {m : ManagedTenant}
    (hm : a = .ok (some m)) :
    m.tenant.id = newV4 ∧ s.get newV4 = none ∧
      (∀ k, s'.get k = if k = newV4 then some m else s.get k) ∧
      m = (request.managed newV4 (now 0)).markProvisioned (now 1) := by
  have heffect := effect_of_runs h
  generalize provisionerEvents log = events at heffect
  cases heffect with
  | slugTaken stored slug => cases hm
  | idTaken slug stored => cases hm
  | provisionFailed slug fresh => cases hm
  | created slug fresh =>
    cases hm
    have same := (request.managed newV4 (now 0)).identity_markProvisioned (now 1)
    have hid := (ManagedTenant.id_eq_of_identity same).trans (request.managed_id newV4 (now 0))
    refine ⟨hid, fresh, fun k => ?_, rfl⟩
    rw [get_put_put s same, get_put, hid]

end Creation

/-- The record as requested: each field is the request's, and the limits are the
custom ones when given, else the plan's. -/
structure AsRequested (m : ManagedTenant) (request : CreateTenantRequest) : Prop where
  slug : m.tenant.name = request.slug
  domain : m.tenant.domain = request.domain
  displayName : m.tenant.displayName = request.displayName
  plan : m.plan = request.plan
  owner : m.ownerId = request.ownerId
  metadata : ∀ key, m.tenant.metadata.lookup key = request.metadata.lookup key
  limits : m.limits = request.customLimits.getD (TenantLimits.forPlan request.plan)

theorem CreateTenantRequest.asRequested (request : CreateTenantRequest) (id : String)
    (now now' : DateTime) :
    AsRequested ((request.managed id now).markProvisioned now') request := by
  constructor
  case metadata =>
    intro key
    simp [managed, ManagedTenant.markProvisioned, ManagedTenant.fromTenant, tenant_eq,
      lookup_extend]
  all_goals simp [managed, ManagedTenant.markProvisioned, ManagedTenant.fromTenant, tenant_eq]

/-- After every sequential run, in whatever order the map yields its values,
`get_by_slug` finds exactly the records that `get` finds and that have the slug; a
creation is refused for its slug exactly when a stored record has it; one whose
provisioning fails leaves the store as it was; and one that succeeds adds exactly
the record it returns, made as requested. -/
theorem slug_lookup_agrees {past : List ManagerDone} {s s' : InMemoryManagedTenantStore}
    {log : List (Exchange ManagerCall ManagerCall.Answer)} (run : ManagerRun past s) :
    (∀ slug (a : Except TenantError (Option ManagedTenant)),
      (TenantManager.getBySlug slug).run.Runs memory s log a s' →
      s' = s ∧ ∃ found, a = .ok found ∧ ∀ r, found = some r ↔
        (∃ log, (TenantManager.get r.tenant.id).run.Runs memory s log (.ok (some r)) s) ∧
          r.tenant.name = slug) ∧
    ∀ newV4 now request (a : ManagerResult),
      (ManagerOp.create newV4 now request).program.Runs memory s log a s' →
      (RefusedForSlug request log a ↔ ∃ k r, s.get k = some r ∧ r.tenant.name = request.slug) ∧
      (∀ m e, ⟨.provisioner .provision m, .error e⟩ ∈ log → s' = s) ∧
      ∀ m, a = .ok (some m) → s.get m.tenant.id = none ∧
        (∀ k, s'.get k = if k = m.tenant.id then some m else s.get k) ∧
        AsRequested m request := by
  have hunique := slugsUnique_of_run run
  constructor
  · intro slug a h
    obtain ⟨order, rfl, rfl⟩ := runs_getBySlug h
    refine ⟨rfl, _, rfl, fun r => ?_⟩
    rw [hunique.getBySlug_iff]
    apply and_congr_left
    intro _
    constructor
    · intro hget
      exact ⟨_, runs_get_iff.mpr ⟨rfl, by rw [hget], rfl⟩⟩
    · rintro ⟨log, hlog⟩
      obtain ⟨-, hget, -⟩ := runs_get_iff.mp hlog
      exact (Except.ok.inj hget).symm
  · intro newV4 now request a h
    refine ⟨refusedForSlug_iff h, fun m e failed => create_failed_restores h failed, ?_⟩
    intro m hm
    obtain ⟨hid, hfresh, hget, hrecord⟩ := create_extends h hm
    rw [hid]
    refine ⟨hfresh, hget, ?_⟩
    rw [hrecord]
    exact request.asRequested newV4 (now 0) (now 1)

def slugReclaimed : List (ManagerOp × List ManagerChoice) :=
  [(.create "t-1" (fun _ => 0) (.new "acme"),
      [default, default, ⟨.error .inactive, default, 0⟩, default]),
    (.create "t-2" (fun _ => 1) (.new "acme"), [default, default, default, default])]

theorem slug_lookup_agrees_reclaimed :
    ∃ past s log a, sequence memory ManagerOp.program slugReclaimed [] .new = some (past, s) ∧
      (TenantManager.getBySlug "acme").run.Runs memory s log a s ∧
      ∃ r, a = .ok (some r) ∧ r.tenant.id = "t-2" ∧ r.tenant.name = "acme" := by
  refine ⟨_, _, _, _, rfl, .call (c := default) rfl (.pure _ _), _, rfl, rfl, ?_⟩
  have hrun : ManagerRun _ _ := sequential_of_sequence .nil
    (rfl : sequence memory ManagerOp.program slugReclaimed [] .new = some _)
  obtain ⟨-, found, hfound, hiff⟩ := (slug_lookup_agrees hrun).1 "acme" _
    (.call (c := default) rfl (.pure _ _))
  exact ((hiff _).mp (Except.ok.inj hfound).symm).2

end ArmatureTenancy

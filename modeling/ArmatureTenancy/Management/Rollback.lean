import ArmatureTenancy.Management.Provisioning

/-!
# Creation under a single fault

Here the store is any map keyed by id whose failing calls have no effect. A
creation that fails rolls back after every single fault except one: when the
update that activates the new record fails, nothing removes the record or the
resources provisioned for it.
-/

namespace ArmatureTenancy

open Foundations

namespace ManagerCall

def failed : (e : ManagerCall) → e.Answer → Bool
  | .storeCreate _, answer => !answer.isOk
  | .storeGet _, answer => !answer.isOk
  | .storeGetBySlug _, answer => !answer.isOk
  | .storeUpdate _, answer => !answer.isOk
  | .storeDelete _, answer => !answer.isOk
  | .storeUpdateUsage _ _, answer => !answer.isOk
  | .provisioner _ _, answer => !answer.isOk

def failure (err : TenantError) : (e : ManagerCall) → e.Answer
  | .storeCreate _ => .error err
  | .storeGet _ => .error err
  | .storeGetBySlug _ => .error err
  | .storeUpdate _ => .error err
  | .storeDelete _ => .error err
  | .storeUpdateUsage _ _ => .error err
  | .provisioner _ _ => .error err

end ManagerCall

/-- Any store that behaves as a map keyed by id, next to any provisioner. -/
structure MapStore (C σ : Type) where
  env : Environment C σ ManagerCall ManagerCall.Answer
  records : σ → String → Option ManagedTenant
  failed_unchanged : ∀ {c s e answer s'}, env c s e = some (answer, s') →
    e.failed answer = true → records s' = records s
  getBySlug_ok : ∀ {c s slug found s'}, env c s (.storeGetBySlug slug) = some (.ok found, s') →
    records s' = records s ∧
      (found = none ↔ ∀ id m, records s id = some m → m.tenant.name ≠ slug)
  create_ok : ∀ {c s m s'}, env c s (.storeCreate m) = some (.ok (), s') →
    records s m.tenant.id = none ∧
      records s' = Function.update (records s) m.tenant.id (some m)
  update_ok : ∀ {c s m s'}, env c s (.storeUpdate m) = some (.ok (), s') →
    records s m.tenant.id ≠ none ∧
      records s' = Function.update (records s) m.tenant.id (some m)
  delete_ok : ∀ {c s id s'}, env c s (.storeDelete id) = some (.ok (), s') →
    records s' = Function.update (records s) id none
  provisioner_unchanged : ∀ {c s method m answer s'},
    env c s (.provisioner method m) = some (answer, s') → records s' = records s

abbrev ManagerLog := List (Exchange ManagerCall ManagerCall.Answer)

def faults (log : ManagerLog) : ℕ := log.countP fun x => x.1.failed x.2

/-- What a creation that returns an error should leave behind: the records it
found, and no resources for the id it generated. -/
def LeftNothing {C σ : Type} (store : MapStore C σ) (newV4 : String) (s s' : σ)
    (log : ManagerLog) : Prop :=
  store.records s' = store.records s ∧ ¬ Live (Resources.replay (provisionerEvents log) newV4)

/-- The update that activates the new record failed. -/
def ActivationFailed (log : ManagerLog) : Prop := ∃ m e, ⟨.storeUpdate m, .error e⟩ ∈ log

theorem not_live_none : ¬ Live none := by
  intro h
  rcases h with h | h <;> cases h

section Create

open ManagerProgram

variable {C σ : Type} (store : MapStore C σ) {newV4 : String} {now : Clock}
  {request : CreateTenantRequest} {s s' : σ} {log : ManagerLog} {a : ManagerResult}

/-- After the new record was inserted: either it is activated, or the update
that activates it fails, or provisioning failed and the record is deleted, or
that deletion fails too. -/
theorem runs_provisionNew {m : ManagedTenant} {at1 : DateTime}
    (h : (provisionNew m at1).Runs store.env s log a s') :
    (∃ m', a = .ok m') ∨
    (∃ e, log = [⟨.provisioner .provision m, .ok ()⟩,
      ⟨.storeUpdate (m.markProvisioned at1), .error e⟩]) ∨
    (∃ e, log = [⟨.provisioner .provision m, .error e⟩, ⟨.storeDelete m.tenant.id, .ok ()⟩] ∧
      store.records s' = Function.update (store.records s) m.tenant.id none) ∨
    2 ≤ faults log := by
  obtain ⟨c₁, answer, s₁, tail₁, hprovision, rfl, h₁⟩ := Program.runs_call_iff.mp h
  have hs₁ := store.provisioner_unchanged hprovision
  cases answer with
  | ok value =>
    obtain ⟨c₂, answer, s₂, tail₂, hupdate, rfl, h₂⟩ := Program.runs_call_iff.mp h₁
    cases answer with
    | ok value =>
      obtain ⟨rfl, rfl, rfl⟩ := Program.runs_pure_iff.mp h₂
      exact .inl ⟨_, rfl⟩
    | error e =>
      obtain ⟨rfl, rfl, rfl⟩ := Program.runs_pure_iff.mp h₂
      exact .inr (.inl ⟨e, rfl⟩)
  | error e =>
    obtain ⟨c₂, answer, s₂, tail₂, hdelete, rfl, h₂⟩ := Program.runs_call_iff.mp h₁
    cases answer with
    | ok value =>
      obtain ⟨rfl, rfl, rfl⟩ := Program.runs_pure_iff.mp h₂
      have hs₂ := store.delete_ok hdelete
      rw [hs₁] at hs₂
      exact .inr (.inr (.inl ⟨e, rfl, hs₂⟩))
    | error e' =>
      obtain ⟨rfl, rfl, rfl⟩ := Program.runs_pure_iff.mp h₂
      refine .inr (.inr (.inr ?_))
      simp [faults, ManagerCall.failed, Except.isOk, Except.toBool]

/-- A creation alone that returns an error after at most one failing call left
nothing behind, exactly when the failing call is not the activating update. -/
theorem create_rolls_back_iff
    (h : (ManagerOp.create newV4 now request).program.Runs store.env s log a s')
    (herr : ∃ e, a = .error e) (hone : faults log ≤ 1) :
    LeftNothing store newV4 s s' log ↔ ¬ ActivationFailed log := by
  rw [ManagerOp.program_create] at h
  obtain ⟨c₁, answer, s₁, tail₁, hslug, rfl, h₁⟩ := Program.runs_call_iff.mp h
  match answer, h₁, hslug with
  | .error e, h₁, hslug =>
    obtain ⟨rfl, rfl, rfl⟩ := Program.runs_pure_iff.mp h₁
    exact iff_of_true ⟨store.failed_unchanged hslug rfl, not_live_none⟩ (by simp [ActivationFailed])
  | .ok (some m), h₁, hslug =>
    obtain ⟨rfl, rfl, rfl⟩ := Program.runs_pure_iff.mp h₁
    exact iff_of_true ⟨(store.getBySlug_ok hslug).1, not_live_none⟩ (by simp [ActivationFailed])
  | .ok none, h₁, hslug =>
    have hs₁ := (store.getBySlug_ok hslug).1
    obtain ⟨c₂, answer, s₂, tail₂, hcreate, rfl, h₂⟩ := Program.runs_call_iff.mp h₁
    cases answer with
    | error e =>
      obtain ⟨rfl, rfl, rfl⟩ := Program.runs_pure_iff.mp h₂
      have hs₂ := (store.failed_unchanged hcreate rfl).trans hs₁
      exact iff_of_true ⟨hs₂, not_live_none⟩ (by simp [ActivationFailed])
    | ok value =>
      obtain ⟨hfree, hs₂⟩ := store.create_ok hcreate
      have hid := request.managed_id newV4 (now 0)
      rw [hid] at hfree hs₂
      rcases runs_provisionNew store h₂ with ⟨m', rfl⟩ | ⟨e, rfl⟩ | ⟨e, rfl, hs'⟩ | hfaults
      · obtain ⟨e, he⟩ := herr
        cases he
      · refine iff_of_false ?_ (not_not.mpr ⟨_, e, by simp; rfl⟩)
        have hrunning : Function.update (fun _ => none) (request.managed newV4 (now 0)).tenant.id
            (some ResourceState.running) newV4 = some ResourceState.running := by
          rw [hid, Function.update_self]
        intro hleft
        exact hleft.2 (.inl hrunning)
      · rw [hid, hs₂, Function.update_idem, ← hfree, Function.update_eq_self] at hs'
        exact iff_of_true ⟨hs'.trans hs₁, not_live_none⟩ (by simp [ActivationFailed])
      · have hcount : faults (⟨.storeGetBySlug request.slug, .ok none⟩ ::
            ⟨.storeCreate (request.managed newV4 (now 0)), .ok value⟩ :: tail₂) =
          faults tail₂ := rfl
        omega

end Create

/-- Any call may fail without effect; otherwise the in-memory store answers. -/
structure FaultyChoice where
  fault : Option TenantError
  choice : ManagerChoice

def faulty (c : FaultyChoice) (s : InMemoryManagedTenantStore) (e : ManagerCall) :
    Option (e.Answer × InMemoryManagedTenantStore) :=
  match c.fault with
  | some err => some (e.failure err, s)
  | none => memory c.choice s e

theorem memory_failed_unchanged {c : ManagerChoice} {s s' : InMemoryManagedTenantStore}
    {e : ManagerCall} {answer : e.Answer} (h : memory c s e = some (answer, s'))
    (hfailed : e.failed answer = true) : s' = s := by
  cases e with
  | storeCreate m =>
    cases answer with
    | ok value => cases hfailed
    | error err => exact (InMemoryManagedTenantStore.create_error (Option.some.inj h)).2
  | storeUpdate m =>
    cases answer with
    | ok value => cases hfailed
    | error err => exact (InMemoryManagedTenantStore.update_error (Option.some.inj h)).2
  | storeUpdateUsage id usage =>
    cases answer with
    | ok value => cases hfailed
    | error err => exact InMemoryManagedTenantStore.updateUsage_error (Option.some.inj h)
  | storeDelete id =>
    cases h
    cases hfailed
  | _ =>
    cases h
    rfl

def faultyStore : MapStore FaultyChoice InMemoryManagedTenantStore where
  env := faulty
  records := InMemoryManagedTenantStore.get
  failed_unchanged := by
    intro c s e answer s' h hfailed
    unfold faulty at h
    split at h
    · cases h
      rfl
    · rw [memory_failed_unchanged h hfailed]
  getBySlug_ok := by
    intro c s slug found s' h
    unfold faulty at h
    split at h
    · cases h
    · cases h
      exact ⟨rfl, InMemoryManagedTenantStore.getBySlug_eq_none_iff⟩
  create_ok := by
    intro c s m s' h
    unfold faulty at h
    split at h
    · cases h
    · obtain ⟨hfree, rfl⟩ := InMemoryManagedTenantStore.create_ok (Option.some.inj h)
      refine ⟨hfree, funext fun k => ?_⟩
      rw [InMemoryManagedTenantStore.get_put, Function.update_apply]
  update_ok := by
    intro c s m s' h
    unfold faulty at h
    split at h
    · cases h
    · obtain ⟨⟨r, hr⟩, rfl⟩ := InMemoryManagedTenantStore.update_ok (Option.some.inj h)
      refine ⟨by simp [hr], funext fun k => ?_⟩
      rw [InMemoryManagedTenantStore.get_put, Function.update_apply]
  delete_ok := by
    intro c s id s' h
    unfold faulty at h
    split at h
    · cases h
    · cases h
      apply funext
      intro k
      rw [InMemoryManagedTenantStore.get_remove, Function.update_apply]
  provisioner_unchanged := by
    intro c s method m answer s' h
    unfold faulty at h
    split at h <;> cases h <;> rfl

def lastCallFails : List FaultyChoice :=
  [⟨none, default⟩, ⟨none, default⟩, ⟨none, default⟩, ⟨some (.storage "connection lost"), default⟩]

def provisioningFails : List FaultyChoice :=
  [⟨none, default⟩, ⟨none, default⟩, ⟨some (.storage "out of disk"), default⟩, ⟨none, default⟩]

theorem create_rolls_back_iff_provisioning :
    ∃ log a s', (ManagerOp.create "t-1" (fun _ => 0) (.new "acme")).program.execute faulty
        provisioningFails .new = some (log, a, s') ∧
      LeftNothing faultyStore "t-1" .new s' log := by
  refine ⟨_, _, _, rfl, ?_⟩
  have hrun : (ManagerOp.create "t-1" (fun _ => 0) (.new "acme")).program.Runs faultyStore.env
    .new _ _ _ := Program.runs_of_execute
      (rfl : Program.execute faulty _ provisioningFails .new = some _)
  exact (create_rolls_back_iff faultyStore hrun ⟨_, rfl⟩ (by decide)).mpr
    (by simp [ActivationFailed])

/-- One fault, in the activating update: the slug stays taken and the resources run. -/
theorem failed_activation_leaves_record :
    ∃ log a s', (ManagerOp.create "t-1" (fun _ => 0) (.new "acme")).program.execute faulty
        lastCallFails .new = some (log, a, s') ∧
      (∃ e, a = .error e) ∧ faults log = 1 ∧
      (s'.get "t-1").map (fun m => m.tenant.name) = some "acme" ∧
      Resources.replay (provisionerEvents log) "t-1" = some .running :=
  ⟨_, _, _, rfl, ⟨_, rfl⟩, rfl, rfl, rfl⟩

end ArmatureTenancy

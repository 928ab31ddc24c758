import ArmatureTenancy.Management.Effects

/-!
# What a failing operation leaves behind

An operation run alone writes nothing before its last error, with one exception: a
termination marks the record as terminating before it calls the provisioner. The
record that is left then is the old one but for its status and the time of its update,
and a later termination picks it up.
-/

namespace ArmatureTenancy

open Foundations InMemoryManagedTenantStore

theorem mem_provisionerEvents {log : List (Exchange ManagerCall ManagerCall.Answer)}
    {method : ProvisionerMethod} {m : ManagedTenant} {outcome : Except TenantError Unit} :
    ⟨method, m, outcome⟩ ∈ provisionerEvents log ↔ ⟨.provisioner method m, outcome⟩ ∈ log := by
  rw [provisionerEvents, List.mem_filterMap]
  constructor
  · rintro ⟨⟨call, answer⟩, hx, hevent⟩
    cases call with
    | provisioner method' m' =>
      cases hevent
      exact hx
    | _ => cases hevent
  · intro h
    exact ⟨_, h, rfl⟩

theorem mem_of_provisionerEvents_eq {log : List (Exchange ManagerCall ManagerCall.Answer)}
    {method : ProvisionerMethod} {m : ManagedTenant} {outcome : Except TenantError Unit}
    (h : provisionerEvents log = [⟨method, m, outcome⟩]) :
    ⟨.provisioner method m, outcome⟩ ∈ log := by
  rw [← mem_provisionerEvents, h]
  exact List.mem_singleton.mpr rfl

theorem Effect.failed_cases {s s' : InMemoryManagedTenantStore} {op : ManagerOp}
    {events : List ProvisionerEvent} {e : TenantError} (h : Effect s op events (.error e) s')
    (hnew : op.newId? = none) :
    (s' = s ∧ ∀ event ∈ events, event.method ≠ .deprovision) ∨
    ∃ id reason now m, op = .terminate id reason now ∧ s.get id = some m ∧
      m.status ≠ .terminated ∧
      events = [⟨.deprovision, m.markTerminating (now 0), .error e⟩] ∧
      s' = s.put (m.markTerminating (now 0)) := by
  cases h with
  | slugTaken stored slug => cases hnew
  | idTaken slug stored => cases hnew
  | provisionFailed slug fresh => cases hnew
  | deprovisionFailed stored guard => exact .inr ⟨_, _, _, _, rfl, stored, guard, rfl, rfl⟩
  | _ => exact .inl ⟨rfl, by simp⟩

theorem Effect.terminated_of_deprovisioned {s s' : InMemoryManagedTenantStore} {id reason : String}
    {now : Clock} {events : List ProvisionerEvent} {a : ManagerResult} {m record : ManagedTenant}
    (h : Effect s (.terminate id reason now) events a s') (stored : s.get id = some m)
    (hdone : ⟨.deprovision, record, .ok ()⟩ ∈ events) :
    a = .ok (some ((m.markTerminating (now 0)).markTerminated reason (now 1))) ∧
      s'.get id = some ((m.markTerminating (now 0)).markTerminated reason (now 1)) := by
  cases h with
  | terminateMissing missing => simp at hdone
  | terminateRefused stored' refused => simp at hdone
  | deprovisionFailed stored' guard => simp at hdone
  | terminated stored' guard =>
    rw [stored, Option.some_inj] at stored'
    subst stored'
    refine ⟨rfl, ?_⟩
    rw [get_put_put s ((m.markTerminating (now 0)).identity_markTerminated reason (now 1))]
    exact get_put_of_identity stored rfl

def CallsDeprovision (log : List (Exchange ManagerCall ManagerCall.Answer)) : Prop :=
  ∃ m outcome, ⟨.provisioner .deprovision m, outcome⟩ ∈ log

def Deprovisioned (log : List (Exchange ManagerCall ManagerCall.Answer)) : Prop :=
  ∃ m, ⟨.provisioner .deprovision m, .ok ()⟩ ∈ log

/-- A termination failed in `deprovision`, and of the record of the operation only the
status and the time of the update are changed. -/
def HalfTerminated (op : ManagerOp) (s : InMemoryManagedTenantStore)
    (log : List (Exchange ManagerCall ManagerCall.Answer)) (e : TenantError)
    (s' : InMemoryManagedTenantStore) : Prop :=
  ∃ id reason now m record, op = .terminate id reason now ∧ s.get id = some m ∧
    ⟨.provisioner .deprovision record, .error e⟩ ∈ log ∧
    s'.get id = some { m with status := .terminating, updatedAt := now 0 }

/-- A termination of `id` can go through, and it does if the resources are released: it
returns the record it stores, terminated and inactive for the given reason. -/
def Terminable (s : InMemoryManagedTenantStore) (id : String) : Prop :=
  ∀ reason now,
    (∃ log a s', (ManagerOp.terminate id reason now).program.Runs memory s log a s' ∧
      Deprovisioned log) ∧
    ∀ log a s', (ManagerOp.terminate id reason now).program.Runs memory s log a s' →
      Deprovisioned log → ∃ m, a = .ok (some m) ∧ s'.get id = some m ∧
        m.status = .terminated ∧ m.tenant.active = false ∧ m.suspensionReason = some reason

variable {s s' : InMemoryManagedTenantStore} {id : String} {m : ManagedTenant}

theorem exists_deprovisioned (stored : s.get id = some m) (hstatus : m.status ≠ .terminated)
    (reason : String) (now : Clock) :
    ∃ log a s', (ManagerOp.terminate id reason now).program.Runs memory s log a s' ∧
      Deprovisioned log := by
  obtain ⟨log, a, s', hrun, hlog⟩ := Program.exists_runs (memory_answers default)
    (ManagerOp.terminate id reason now).program s
  refine ⟨log, a, s', hrun, ?_⟩
  have heffect := effect_of_runs hrun
  generalize hevents : provisionerEvents log = events at heffect
  cases heffect with
  | terminateMissing missing =>
    rw [stored] at missing
    cases missing
  | terminateRefused stored' refused =>
    rw [stored, Option.some_inj] at stored'
    exact absurd (stored' ▸ refused) hstatus
  | deprovisionFailed stored' guard =>
    obtain ⟨s₁, s₂, hanswer⟩ := hlog _ (mem_of_provisionerEvents_eq hevents)
    cases hanswer
  | terminated stored' guard => exact ⟨_, mem_of_provisionerEvents_eq hevents⟩

theorem terminable_of_not_terminated (stored : s.get id = some m)
    (hstatus : m.status ≠ .terminated) : Terminable s id := by
  intro reason now
  refine ⟨exists_deprovisioned stored hstatus reason now, ?_⟩
  rintro log a s' hrun ⟨record, hrecord⟩
  obtain ⟨ha, hget⟩ := (effect_of_runs hrun).terminated_of_deprovisioned stored
    (mem_provisionerEvents.mpr hrecord)
  exact ⟨_, ha, hget, rfl, rfl, rfl⟩

/-- An operation run alone touches the record of its own id only, and if it fails not even
that, unless it got to calling `deprovision`. It then leaves the record half terminated,
and a termination from there goes through once the resources are released. -/
theorem failures_leave_registry_intact {op : ManagerOp} (hop : op.newId? = none)
    {log : List (Exchange ManagerCall ManagerCall.Answer)} {a : ManagerResult}
    (run : op.program.Runs memory s log a s') :
    (∀ k, k ≠ op.target → s'.get k = s.get k) ∧
    ∀ e, a = .error e →
      (s'.get op.target = s.get op.target ∧ ¬ CallsDeprovision log) ∨
      (HalfTerminated op s log e s' ∧ Terminable s' op.target) := by
  have heffect := effect_of_runs run
  refine ⟨fun k hk => heffect.frame hk, ?_⟩
  rintro e rfl
  rcases heffect.failed_cases hop with ⟨rfl, hevents⟩ |
    ⟨id, reason, now, m, rfl, stored, hstatus, hevents, rfl⟩
  · refine .inl ⟨rfl, ?_⟩
    rintro ⟨record, outcome, hcall⟩
    exact hevents _ (mem_provisionerEvents.mpr hcall) rfl
  · have hget : (s.put (m.markTerminating (now 0))).get id = some (m.markTerminating (now 0)) :=
      get_put_of_identity stored rfl
    have hcall := mem_of_provisionerEvents_eq hevents
    refine .inr ⟨⟨id, reason, now, m, _, rfl, stored, hcall, hget⟩, ?_⟩
    exact terminable_of_not_terminated hget (by simp [ManagedTenant.markTerminating])

theorem failures_leave_registry_intact_stalled :
    let s := new.put (.fromTenant (.new "t-1" "acme") .free 0)
    ∃ log s', (ManagerOp.terminate "t-1" "closing" fun _ => 1).program.Runs memory s log
        (.error .inactive) s' ∧
      HalfTerminated (.terminate "t-1" "closing" fun _ => 1) s log .inactive s' ∧
      Terminable s' "t-1" := by
  intro s
  have run : ∃ log s', (ManagerOp.terminate "t-1" "closing" fun _ => 1).program.Runs memory s log
      (.error .inactive) s' ∧ (s'.get "t-1").map ManagedTenant.status = some .terminating :=
    ⟨_, _, .call (c := default) rfl (.call (c := default) rfl
      (.call (c := ⟨.error .inactive, default, 1⟩) rfl (.pure _ _))), rfl⟩
  obtain ⟨log, s', run, hstatus⟩ := run
  rcases (failures_leave_registry_intact rfl run).2 _ rfl with ⟨hsame, -⟩ | hhalf
  · have hget : s'.get "t-1" = s.get "t-1" := hsame
    rw [hget] at hstatus
    exact absurd hstatus (by decide)
  · exact ⟨log, s', run, hhalf⟩

end ArmatureTenancy

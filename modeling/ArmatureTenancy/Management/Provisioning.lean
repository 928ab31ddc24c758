import ArmatureTenancy.Management.Effects

/-!
# Records and provisioned resources

The resources behind an id are driven by the provisioner calls that succeed.
After every operation of a sequential run they are in the state the record's
status announces, and resources that are still there belong to a stored record.
-/

namespace ArmatureTenancy

open Foundations InMemoryManagedTenantStore

inductive ResourceState where
  | running
  | suspended
  | gone
  deriving DecidableEq

def ProvisionerMethod.leaves : ProvisionerMethod → ResourceState
  | .provision => .running
  | .deprovision => .gone
  | .suspend => .suspended
  | .resume => .running

/-- The resources behind each id, `none` for ids never provisioned. -/
abbrev Resources := String → Option ResourceState

namespace Resources

def apply (resources : Resources) (event : ProvisionerEvent) : Resources :=
  match event.outcome with
  | .ok () => Function.update resources event.record.tenant.id (some event.method.leaves)
  | .error _ => resources

def after (resources : Resources) (events : List ProvisionerEvent) : Resources :=
  events.foldl apply resources

/-- The resources once the events have happened, from none at all. -/
def replay (events : List ProvisionerEvent) : Resources := after (fun _ => none) events

theorem replay_append (before events : List ProvisionerEvent) :
    replay (before ++ events) = after (replay before) events :=
  List.foldl_append

theorem apply_of_ne (resources : Resources) {event : ProvisionerEvent} {k : String}
    (hk : k ≠ event.record.tenant.id) : resources.apply event k = resources k := by
  obtain ⟨method, m, outcome⟩ := event
  cases outcome with
  | ok value => exact Function.update_of_ne hk _ _
  | error e => rfl

end Resources

/-- What a record's status says about its resources. -/
def Backed : TenantStatus → Option ResourceState → Prop
  | .provisioning, _ => False
  | .active, r => r = some .running
  | .suspended, r => r = some .suspended
  | .terminating, r => r = some .running ∨ r = some .suspended
  | .terminated, r => r = some .gone

def Live (r : Option ResourceState) : Prop := r = some .running ∨ r = some .suspended

/-- Every record's resources are as its status says, and no live resources are
without a record. -/
structure Agreement (s : InMemoryManagedTenantStore) (resources : Resources) : Prop where
  backed : ∀ id m, s.get id = some m → Backed m.status (resources id)
  no_leak : ∀ id, Live (resources id) → ∃ m, s.get id = some m

theorem Backed.live {status : TenantStatus} {r : Option ResourceState} (h : Backed status r)
    (hstatus : status ≠ .terminated) : Live r := by
  cases status with
  | provisioning => exact h.elim
  | active => exact .inl h
  | suspended => exact .inr h
  | terminating => exact h
  | terminated => exact absurd rfl hstatus

theorem Live.ne_gone {r : Option ResourceState} (h : Live r) : r ≠ some .gone := by
  intro hgone
  rcases h with h | h <;> rw [h] at hgone <;> cases hgone

namespace Agreement

variable {s s' : InMemoryManagedTenantStore} {resources : Resources} {id : String}
  {m m' : ManagedTenant}

theorem congr (h : Agreement s resources) (same : ∀ k, s'.get k = s.get k) :
    Agreement s' resources := by
  constructor
  · intro k r hr
    rw [same] at hr
    exact h.backed k r hr
  · intro k hk
    rw [same]
    exact h.no_leak k hk

theorem put (h : Agreement s resources) {r : Option ResourceState} (backed : Backed m.status r) :
    Agreement (s.put m) (Function.update resources m.tenant.id r) := by
  constructor
  · intro k m' hm'
    rw [get_put] at hm'
    by_cases hk : k = m.tenant.id
    · rw [if_pos hk] at hm'
      cases hm'
      rw [hk, Function.update_self]
      exact backed
    · rw [if_neg hk] at hm'
      rw [Function.update_of_ne hk]
      exact h.backed k m' hm'
  · intro k hk
    rw [get_put]
    by_cases hid : k = m.tenant.id
    · exact ⟨m, if_pos hid⟩
    · rw [Function.update_of_ne hid] at hk
      rw [if_neg hid]
      exact h.no_leak k hk

theorem put_same (h : Agreement s resources) (stored : s.get id = some m)
    (same : m'.identity = m.identity) (backed : Backed m'.status (resources id)) :
    Agreement (s.put m') resources := by
  have hid : m'.tenant.id = id := (ManagedTenant.id_eq_of_identity same).trans (id_of_get stored)
  have hput := h.put (m := m') backed
  rwa [hid, Function.update_eq_self] at hput

theorem remove (h : Agreement s resources) (dead : ¬ Live (resources id)) :
    Agreement (s.remove id) resources := by
  constructor
  · intro k m hm
    rw [get_remove] at hm
    split at hm
    · cases hm
    · exact h.backed k m hm
  · intro k hk
    have hne : k ≠ id := fun heq => dead (heq ▸ hk)
    rw [get_remove, if_neg hne]
    exact h.no_leak k hk

end Agreement

/-- What one operation does to records and resources that agree: they agree
again, and it asks nothing of resources that are gone. -/
theorem Effect.agreement {s s' : InMemoryManagedTenantStore} {op : ManagerOp}
    {events : List ProvisionerEvent} {a : ManagerResult} (h : Effect s op events a s')
    {resources : Resources} (hagree : Agreement s resources)
    (hnew : ∀ id, op.newId? = some id → resources id = none) :
    Agreement s' (resources.after events) ∧
      ∀ event ∈ events, resources event.record.tenant.id ≠ some .gone := by
  have callable {id : String} {m : ManagedTenant} (stored : s.get id = some m)
      (guard : m.status ≠ .terminated) : resources m.tenant.id ≠ some .gone := by
    rw [id_of_get stored]
    exact ((hagree.backed id m stored).live guard).ne_gone
  cases h with
  | @created newV4 now request slug fresh =>
    have hid := request.managed_id newV4 (now 0)
    refine ⟨?_, List.forall_mem_singleton.mpr (by simp [hnew newV4 rfl])⟩
    have same := (request.managed newV4 (now 0)).identity_markProvisioned (now 1)
    have hput : Agreement (s.put ((request.managed newV4 (now 0)).markProvisioned (now 1)))
        (Function.update resources _ (some .running)) := hagree.put rfl
    exact hput.congr (get_put_put s same)
  | @provisionFailed newV4 now request e slug fresh =>
    have hid := request.managed_id newV4 (now 0)
    refine ⟨?_, List.forall_mem_singleton.mpr (by simp [hnew newV4 rfl])⟩
    exact hagree.congr (get_put_remove fresh hid)
  | @updated id now request m stored =>
    have hstatus : Backed (m.apply request (now 0)).status (resources id) :=
      hagree.backed id m stored
    exact ⟨hagree.put_same stored rfl hstatus, by simp⟩
  | suspendFailed stored guard =>
    exact ⟨hagree, List.forall_mem_singleton.mpr (callable stored guard)⟩
  | @suspended id reason now m stored guard =>
    refine ⟨?_, List.forall_mem_singleton.mpr (callable stored guard)⟩
    have hput : Agreement (s.put (m.markSuspended reason (now 0)))
        (Function.update resources _ (some .suspended)) := hagree.put rfl
    exact hput
  | activateFailed stored guard =>
    exact ⟨hagree, List.forall_mem_singleton.mpr (callable stored guard)⟩
  | @activated id now m stored guard =>
    refine ⟨?_, List.forall_mem_singleton.mpr (callable stored guard)⟩
    have hput : Agreement (s.put (m.markActive (now 0)))
        (Function.update resources _ (some .running)) := hagree.put rfl
    exact hput
  | @deprovisionFailed id reason now m e stored guard =>
    have hcallable := callable stored guard
    refine ⟨?_, List.forall_mem_singleton.mpr hcallable⟩
    exact hagree.put_same stored rfl ((hagree.backed id m stored).live guard)
  | @terminated id reason now m stored guard =>
    have hcallable := callable stored guard
    refine ⟨?_, List.forall_mem_singleton.mpr hcallable⟩
    have same := (m.markTerminating (now 0)).identity_markTerminated reason (now 1)
    have hput : Agreement (s.put ((m.markTerminating (now 0)).markTerminated reason (now 1)))
        (Function.update resources _ (some .gone)) := hagree.put rfl
    exact hput.congr (get_put_put s same)
  | @deleted id m stored terminated =>
    refine ⟨hagree.remove ?_, by simp⟩
    have hgone := hagree.backed id m stored
    rw [terminated] at hgone
    intro hlive
    exact hlive.ne_gone hgone
  | @usageUpdated id usage m now stored =>
    have hstatus : Backed (m.recordUsage usage now).status (resources id) :=
      hagree.backed id m stored
    exact ⟨hagree.put_same stored rfl hstatus, by simp⟩
  | _ => exact ⟨hagree, by simp⟩

/-- No provisioner method is called on an id whose resources are gone. -/
def NeverCalledWhenGone (events : List ProvisionerEvent) : Prop :=
  ∀ before event rest, events = before ++ event :: rest →
    Resources.replay before event.record.tenant.id ≠ some .gone

theorem NeverCalledWhenGone.append {past events : List ProvisionerEvent}
    (hpast : NeverCalledWhenGone past)
    (hevents : events = [] ∨ ∃ event, events = [event] ∧
      Resources.replay past event.record.tenant.id ≠ some .gone) :
    NeverCalledWhenGone (past ++ events) := by
  rcases hevents with rfl | ⟨event, rfl, hevent⟩
  · rw [List.append_nil]
    exact hpast
  · intro before x rest hsplit
    rcases List.eq_nil_or_concat rest with rfl | ⟨rest, last, rfl⟩
    · obtain ⟨rfl, hx⟩ := List.append_inj' hsplit rfl
      cases hx
      exact hevent
    · rw [List.concat_eq_append, ← List.cons_append, ← List.append_assoc] at hsplit
      exact hpast before x rest (List.append_inj' hsplit rfl).1

def Unseen (ids : List String) (s : InMemoryManagedTenantStore) (resources : Resources) : Prop :=
  ∀ id, id ∉ ids → s.get id = none ∧ resources id = none

theorem Effect.unseen {s s' : InMemoryManagedTenantStore} {op : ManagerOp}
    {events : List ProvisionerEvent} {a : ManagerResult} (h : Effect s op events a s')
    {ids : List String} {resources : Resources} (hids : Unseen ids s resources) :
    Unseen (op.newId?.toList ++ ids) s' (resources.after events) := by
  intro k hk
  rw [List.mem_append, not_or] at hk
  obtain ⟨hget, hres⟩ := hids k hk.2
  by_cases htarget : k = op.target
  · cases hnew : op.newId? with
    | none =>
      obtain ⟨rfl, rfl⟩ := h.missing hnew (htarget ▸ hget)
      exact ⟨hget, hres⟩
    | some newV4 =>
      have hcreate : op.target = newV4 := by
        cases op <;> cases hnew
        rfl
      simp [hnew, htarget, hcreate] at hk
  · refine ⟨(h.frame htarget).trans hget, ?_⟩
    rcases h.events_cases with rfl | ⟨event, rfl, hevent⟩
    · exact hres
    · exact (Resources.apply_of_ne resources (hevent ▸ htarget)).trans hres

theorem managerRun_invariant {past : List ManagerDone} {s : InMemoryManagedTenantStore}
    (h : ManagerRun past s) (fresh : FreshIds past) :
    Agreement s (Resources.replay (runEvents past)) ∧
      NeverCalledWhenGone (runEvents past) ∧
      Unseen (newIds past) s (Resources.replay (runEvents past)) := by
  induction h with
  | nil =>
    refine ⟨⟨by simp, ?_⟩, by simp [NeverCalledWhenGone, runEvents], fun id _ => ⟨rfl, rfl⟩⟩
    intro id hlive
    rcases hlive with h | h <;> cases h
  | @step past op s s' log a earlier runs ih =>
    unfold FreshIds at fresh
    rw [newIds_cons] at fresh ⊢
    obtain ⟨hagree, hgone, hunseen⟩ := ih fresh.of_append_right
    have heffect := effect_of_runs runs
    have hnew : ∀ id, op.newId? = some id → Resources.replay (runEvents past) id = none := by
      intro id hid
      have hnot : id ∉ newIds past := by
        simp only [hid, Option.toList_some, List.singleton_append, List.nodup_cons] at fresh
        exact fresh.1
      exact (hunseen id hnot).2
    obtain ⟨hagree', hcalls⟩ := heffect.agreement hagree hnew
    simp only [runEvents, Resources.replay_append]
    refine ⟨hagree', hgone.append ?_, heffect.unseen hunseen⟩
    rcases heffect.events_cases with hnil | ⟨event, hevent, -⟩
    · exact .inl hnil
    · exact .inr ⟨event, hevent, hcalls event (by simp [hevent])⟩

/-- After every operation of a sequential run with fresh ids and arbitrary
provisioner answers, each record's status tells the state of its resources, no
record is left `Provisioning`, live resources belong to a record, and the
provisioner was never called about resources already gone. -/
theorem records_and_resources_agree {past : List ManagerDone} {s : InMemoryManagedTenantStore}
    (h : ManagerRun past s) (fresh : FreshIds past) :
    let resources := Resources.replay (runEvents past)
    (∀ id m, s.get id = some m →
      (m.status = .active → resources id = some .running) ∧
      (m.status = .suspended → resources id = some .suspended) ∧
      (m.status = .terminating →
        resources id = some .running ∨ resources id = some .suspended) ∧
      (m.status = .terminated → resources id = some .gone) ∧
      m.status ≠ .provisioning) ∧
    (∀ id, resources id = some .running ∨ resources id = some .suspended →
      ∃ m, s.get id = some m) ∧
    NeverCalledWhenGone (runEvents past) := by
  obtain ⟨hagree, hgone, -⟩ := managerRun_invariant h fresh
  refine ⟨?_, hagree.no_leak, hgone⟩
  intro id m hm
  have hbacked := hagree.backed id m hm
  cases hstatus : m.status <;> rw [hstatus] at hbacked <;> simp_all [Backed]

theorem records_and_resources_agree_stalled :
    ∃ past s m, sequence memory ManagerOp.program stalledTermination [] .new = some (past, s) ∧
      s.get "t-1" = some m ∧ m.status = .terminating ∧
      (Resources.replay (runEvents past) "t-1" = some .running ∨
        Resources.replay (runEvents past) "t-1" = some .suspended) := by
  refine ⟨_, _, _, rfl, rfl, rfl, ?_⟩
  have hrun : ManagerRun _ _ := sequential_of_sequence .nil
    (rfl : sequence memory ManagerOp.program stalledTermination [] .new = some _)
  exact ((records_and_resources_agree hrun (by decide)).1 "t-1" _ rfl).2.2.1 rfl

end ArmatureTenancy

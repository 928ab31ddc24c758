import ArmatureTenancy.Management.Isolation
import ArmatureTenancy.Management.Provisioning

/-!
# Records and resources, tenant by tenant

What holds of a tenant after sequential runs carries over to interleavings in which only
calls about different tenants overlap: the calls about the tenant are a sequential run,
and the resources of an id depend on the provisioner calls about that id alone.
-/

namespace ArmatureTenancy

open Foundations InMemoryManagedTenantStore

def eventsAbout (k : String) (events : List ProvisionerEvent) : List ProvisionerEvent :=
  events.filter fun event => event.record.tenant.id = k

theorem eventsAbout_append (k : String) (first second : List ProvisionerEvent) :
    eventsAbout k (first ++ second) = eventsAbout k first ++ eventsAbout k second :=
  List.filter_append _ _

namespace Resources

variable {r r' : Resources} {k : String}

theorem apply_congr (h : r k = r' k) (event : ProvisionerEvent) :
    r.apply event k = r'.apply event k := by
  by_cases hk : k = event.record.tenant.id
  · obtain ⟨method, m, outcome⟩ := event
    cases outcome with
    | ok value => simp [apply, hk]
    | error e => exact h
  · rw [r.apply_of_ne hk, r'.apply_of_ne hk, h]

theorem after_congr (h : r k = r' k) (events : List ProvisionerEvent) :
    r.after (eventsAbout k events) k = r'.after events k := by
  induction events generalizing r r' with
  | nil => exact h
  | cons event events ih =>
    by_cases hk : event.record.tenant.id = k
    · rw [eventsAbout, List.filter_cons_of_pos (by simpa using hk)]
      exact ih (apply_congr h event)
    · rw [eventsAbout, List.filter_cons_of_neg (by simpa using hk)]
      exact ih (h.trans (r'.apply_of_ne (Ne.symm hk)).symm)

theorem replay_eventsAbout (k : String) (events : List ProvisionerEvent) :
    replay (eventsAbout k events) k = replay events k :=
  after_congr rfl events

theorem replay_congr {events events' : List ProvisionerEvent}
    (h : eventsAbout k events = eventsAbout k events') : replay events k = replay events' k := by
  rw [← replay_eventsAbout, h, replay_eventsAbout]

end Resources

/-- The provisioner is not called on this id once its resources are gone. -/
def NeverCalledAfterGone (k : String) (events : List ProvisionerEvent) : Prop :=
  ∀ before event rest, events = before ++ event :: rest → event.record.tenant.id = k →
    Resources.replay before k ≠ some .gone

theorem NeverCalledWhenGone.congr {k : String} {events events' : List ProvisionerEvent}
    (h : NeverCalledWhenGone events) (same : eventsAbout k events = eventsAbout k events') :
    NeverCalledAfterGone k events' := by
  intro before event rest hsplit hevent
  have habout : eventsAbout k events = eventsAbout k before ++ event :: eventsAbout k rest := by
    rw [same, hsplit, eventsAbout_append]
    exact congrArg _ (List.filter_cons_of_pos (by simpa using hevent))
  obtain ⟨first, second, rfl, hfirst, hsecond⟩ := List.filter_eq_append_iff.mp habout
  obtain ⟨skipped, tail, rfl, hskipped, -, -⟩ := List.filter_eq_cons_iff.mp hsecond
  have hnone : eventsAbout k skipped = [] := List.filter_eq_nil_iff.mpr hskipped
  have hsame : eventsAbout k (first ++ skipped) = eventsAbout k before := by
    rw [eventsAbout_append, hnone, List.append_nil]
    exact hfirst
  rw [← Resources.replay_congr hsame, ← hevent]
  exact h (first ++ skipped) event tail (List.append_assoc _ _ _).symm

theorem runEvents_append (later past : List ManagerDone) :
    runEvents (later ++ past) = runEvents past ++ runEvents later := by
  induction later with
  | nil => exact (List.append_nil _).symm
  | cons done later ih => rw [List.cons_append, runEvents, runEvents, ih, List.append_assoc]

theorem FreshIds.append_old {later past : List ManagerDone} (fresh : FreshIds past)
    (hold : ∀ done ∈ later, done.op.newId? = none) : FreshIds (later ++ past) := by
  have hnone : newIds later = [] := List.filterMap_eq_nil_iff.mpr hold
  rw [FreshIds, newIds, List.filterMap_append, ← newIds, hnone]
  exact fresh

variable {ι : Type*}

def historyEvents (h : ManagerHistory ι) : List ProvisionerEvent :=
  provisionerEvents (h.map Prod.snd).reverse

theorem historyEvents_cons (x : ι × Exchange ManagerCall ManagerCall.Answer)
    (h : ManagerHistory ι) :
    historyEvents (x :: h) = historyEvents h ++ (provisionerEvent x.2).toList := by
  rw [historyEvents, List.map_cons, List.reverse_cons, provisionerEvents, List.filterMap_append]
  cases hx : provisionerEvent x.2 <;> simp [hx, historyEvents, provisionerEvents]

theorem historyEvents_exchanges (past : List (ι × ManagerDone)) :
    historyEvents (exchanges past) = runEvents (past.map Prod.snd) := by
  induction past with
  | nil => rfl
  | cons x past ih =>
    rw [List.map_cons, runEvents, ← ih, exchanges, List.flatMap_cons, historyEvents]
    simp [historyEvents, provisionerEvents, exchanges, Function.comp_def]

/-- The calls about a tenant make the provisioner calls about its id. -/
theorem eventsAbout_historyEvents {calls : ι → ManagerOp} (k : String) {h : ManagerHistory ι}
    (touches : ∀ x ∈ h, (calls x.1).Touches x.2.1) :
    eventsAbout k (historyEvents (h.filter fun x => (calls x.1).target = k)) =
      eventsAbout k (historyEvents h) := by
  induction h with
  | nil => rfl
  | cons x h ih =>
    obtain ⟨hx, hrest⟩ := List.forall_mem_cons.mp touches
    rw [historyEvents_cons, eventsAbout_append, ← ih hrest]
    by_cases hk : (calls x.1).target = k
    · rw [List.filter_cons_of_pos (by simpa using hk), historyEvents_cons, eventsAbout_append]
    · rw [List.filter_cons_of_neg (by simpa using hk)]
      have hnone : eventsAbout k (provisionerEvent x.2).toList = [] := by
        obtain ⟨i, e, answer⟩ := x
        cases e with
        | provisioner method m =>
          have hid : m.tenant.id ≠ k := fun hid => hk (hx.symm.trans hid)
          exact List.filter_eq_nil_iff.mpr (by simpa [provisionerEvent] using hid)
        | _ => rfl
      rw [hnone, List.append_nil]

variable [DecidableEq ι]

/-- After a sequential run, calls about any tenants overlap, but those about one tenant
do not overlap among themselves. Whenever no call about the tenant is under way, its
record's status tells the state of its resources, live resources have their record, and
the provisioner was never called on resources already gone. -/
theorem resources_agree_per_tenant {past : List ManagerDone} {start : InMemoryManagedTenantStore}
    (run : ManagerRun past start) (fresh : FreshIds past) (calls : ι → ManagerOp) (k : String)
    (schedule : List (ι × ManagerChoice)) (created : ∀ i, (calls i).newId? ≠ some k)
    (apart : (managerSystemFrom calls start).SerialWithin (fun i => (calls i).target = k) memory
      schedule) :
    let last := (managerSystemFrom calls start).run memory schedule
    let events := runEvents past ++ historyEvents last.history
    (∀ i, (calls i).target = k → ¬ last.Busy i) →
      (∀ m, last.state.get k = some m → Backed m.status (Resources.replay events k)) ∧
      (Live (Resources.replay events k) → ∃ m, last.state.get k = some m) ∧
      NeverCalledAfterGone k events := by
  intro last events quiet
  have hsettled : CreationsOver calls k ((managerSystemFrom calls start).run memory []) :=
    fun i hi => absurd hi (created i)
  obtain ⟨later, s, hlater, hmine, hstate, hown⟩ :=
    management_unwinding.serializable ManagerOp.program calls memory_keyed hsettled.within rfl
      apart quiet
  have hrun : ManagerRun (later.map Prod.snd ++ past) s := run.append hlater.run
  have hfresh : FreshIds (later.map Prod.snd ++ past) := by
    refine fresh.append_old fun done hdone => ?_
    obtain ⟨x, hx, rfl⟩ := List.mem_map.mp hdone
    rw [hlater.op x hx]
    rcases (calls x.1).newId?_cases with hnew | hnew
    · exact hnew
    · exact absurd (hnew.trans (congrArg some (hmine x hx))) (created x.1)
  obtain ⟨hagree, hgone, -⟩ := managerRun_invariant hrun hfresh
  have htouches : ∀ x ∈ last.history, (calls x.1).Touches x.2.1 := by
    refine Config.history_within memory_keyed (managerSystemFrom_keepsTo calls start []) ?_ schedule
    intro x hx
    cases hx
  have hevents : eventsAbout k (runEvents (later.map Prod.snd ++ past)) = eventsAbout k events := by
    rw [runEvents_append, eventsAbout_append, eventsAbout_append, ← historyEvents_exchanges, ← hown]
    exact congrArg _ (eventsAbout_historyEvents k htouches)
  have hrecord : last.state.get k = s.get k := hstate
  rw [hrecord, ← Resources.replay_congr hevents]
  exact ⟨hagree.backed k, hagree.no_leak k, hgone.congr hevents⟩

/-- A tenant is created; then it is suspended and activated again while another one is
created. -/
theorem resources_agree_per_tenant_two :
    let script : List (ManagerOp × List ManagerChoice) :=
      [(.create "t-1" (fun _ => 0) (.new "acme"), [default, default, default, default])]
    let schedule : List (Fin 3 × ManagerChoice) := [(0, default), (1, default), (0, default),
      (1, default), (0, default), (2, default), (1, default), (2, default), (1, default),
      (2, default)]
    ∃ past start, sequence memory ManagerOp.program script [] .new = some (past, start) ∧
      let last := (managerSystemFrom suspendedAndActivated start).run memory schedule
      ∃ m, last.state.get "t-1" = some m ∧
        Backed m.status
          (Resources.replay (runEvents past ++ historyEvents last.history) "t-1") := by
  intro script schedule
  refine ⟨_, _, rfl, _, rfl, ?_⟩
  have hrun : ManagerRun _ _ := sequential_of_sequence .nil
    (rfl : sequence memory ManagerOp.program script [] .new = some _)
  exact (resources_agree_per_tenant hrun (by decide) suspendedAndActivated "t-1" schedule
    (by decide) (by decide) (by decide)).1 _ rfl

end ArmatureTenancy

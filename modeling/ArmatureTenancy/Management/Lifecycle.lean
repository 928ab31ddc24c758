import ArmatureTenancy.Management.Effects
import ArmatureTenancy.Management.LostUpdates
import ArmatureTenancy.Foundations.Serial
import Mathlib.Data.Fintype.Basic
import Mathlib.Data.List.GetD
import Mathlib.Tactic.IntervalCases

/-!
# Termination in serial runs

Alone, an operation writes back the record it has just read, so its write moves
the stored status along one of a few edges. The guards of `suspend` and `activate`
close the edges out of `Terminated`, but not those out of `Terminating`, the status
a termination leaves behind whose `deprovision` fails. A termination only moves
forward exactly as long as no such edge is taken.
-/

namespace ArmatureTenancy

open Foundations InMemoryManagedTenantStore

namespace ManagerOp

/-- The edges along which a write of the operation moves the stored status. -/
def Moves : ManagerOp → TenantStatus → TenantStatus → Prop
  | .create _ _ _, old, new => old = .provisioning ∧ new = .active
  | .update _ _ _, old, new => new = old
  | .suspend _ _ _, old, new => old ≠ .terminated ∧ new = .suspended
  | .activate _ _, old, new => old ≠ .terminated ∧ new = .active
  | .terminate _ _ _, old, new =>
    (old ≠ .terminated ∧ new = .terminating) ∨ (old = .terminating ∧ new = .terminated)
  | .delete _, _, _ => False
  | .updateUsage _ _, _, _ => False

/-- A write replaces a stored record and moves its status along an edge. -/
def WritesBack (op : ManagerOp) (s : InMemoryManagedTenantStore) (e : ManagerCall) : Prop :=
  ∀ m, e = .storeUpdate m → ∃ r, s.get m.tenant.id = some r ∧ op.Moves r.status m.status

end ManagerOp

section Alone

open ManagerProgram

variable {op : ManagerOp} {s : InMemoryManagedTenantStore} {id : String} {m : ManagedTenant}

theorem alone_other {e : ManagerCall} {rest : e.Answer → ManagerProgram ManagerResult}
    (hother : ∀ m, e ≠ .storeUpdate m)
    (hnext : ∀ answer s', MemoryStep s e answer s' →
      (rest answer).Alone memory op.WritesBack s') :
    (Program.call e rest).Alone memory op.WritesBack s := by
  constructor
  · intro m heq
    exact absurd heq (hother m)
  · intro choice answer s' hanswer
    exact hnext answer s' (memory_step hanswer)

theorem alone_orNotFound {next : ManagedTenant → ManagerProgram ManagerResult}
    (hnext : ∀ m, s.get id = some m → (next m).Alone memory op.WritesBack s) :
    (orNotFound id next).Alone memory op.WritesBack s := by
  apply alone_other (by simp)
  intro answer s' hstep
  cases hstep
  cases hm : s.get id with
  | none => trivial
  | some m => exact hnext m hm

theorem alone_unlessTerminated {text : String}
    {next : ManagedTenant → ManagerProgram ManagerResult}
    (hnext : ∀ m, s.get id = some m → m.status ≠ .terminated →
      (next m).Alone memory op.WritesBack s) :
    (unlessTerminated id text next).Alone memory op.WritesBack s := by
  apply alone_orNotFound
  intro m stored
  split
  · trivial
  · next guard => exact hnext m stored guard

theorem alone_provisionerThen {method : ProvisionerMethod} {next : ManagerProgram ManagerResult}
    (hnext : next.Alone memory op.WritesBack s) :
    (provisionerThen method m next).Alone memory op.WritesBack s := by
  apply alone_other (by simp)
  intro answer s' hstep
  cases hstep
  cases answer with
  | error e => trivial
  | ok value => exact hnext

theorem alone_updateThen {r : ManagedTenant} {next : ManagerProgram ManagerResult}
    (stored : s.get id = some r) (same : m.identity = r.identity)
    (hmoves : op.Moves r.status m.status)
    (hnext : next.Alone memory op.WritesBack (s.put m)) :
    (updateThen m next).Alone memory op.WritesBack s := by
  have hget := get_of_identity stored same
  constructor
  · intro m' heq
    cases heq
    exact ⟨r, hget, hmoves⟩
  · intro choice answer s' hanswer
    cases memory_step hanswer with
    | updated => exact hnext
    | updateRefused missing =>
      rw [missing] at hget
      cases hget

theorem alone_finish {r : ManagedTenant} (stored : s.get id = some r)
    (same : m.identity = r.identity) (hmoves : op.Moves r.status m.status) :
    (finish m).Alone memory op.WritesBack s :=
  alone_updateThen stored same hmoves trivial

theorem alone_provisionNew {now : DateTime} (stored : s.get m.tenant.id = some m)
    (hmoves : op.Moves m.status .active) :
    (provisionNew m now).Alone memory op.WritesBack s := by
  apply alone_other (by simp)
  intro answer s' hstep
  cases hstep
  cases answer with
  | ok value => exact alone_finish stored (m.identity_markProvisioned now) hmoves
  | error e =>
    apply alone_other (by simp)
    intro answer s' _
    cases answer <;> trivial

/-- Alone, an operation writes back only what it has just read or inserted. -/
theorem ManagerOp.program_alone (op : ManagerOp) (s : InMemoryManagedTenantStore) :
    op.program.Alone memory op.WritesBack s := by
  cases op with
  | create newV4 now request =>
    rw [ManagerOp.program_create]
    apply alone_other (by simp)
    intro answer s' hstep
    cases hstep with
    | @searched _ order =>
      cases s.getBySlug order request.slug with
      | some m => trivial
      | none =>
        apply alone_other (by simp)
        intro answer s' hstep
        cases hstep with
        | created free => exact alone_provisionNew (get_put_self _ _) ⟨rfl, rfl⟩
        | createRefused taken => trivial
  | update id now request =>
    rw [ManagerOp.program_update]
    apply alone_orNotFound
    intro m stored
    exact alone_finish stored (m.identity_apply request (now 0)) rfl
  | suspend id reason now =>
    rw [ManagerOp.program_suspend]
    apply alone_unlessTerminated
    intro m stored guard
    apply alone_provisionerThen
    exact alone_finish stored (m.identity_markSuspended reason (now 0)) ⟨guard, rfl⟩
  | activate id now =>
    rw [ManagerOp.program_activate]
    apply alone_unlessTerminated
    intro m stored guard
    apply alone_provisionerThen
    exact alone_finish stored (m.identity_markActive (now 0)) ⟨guard, rfl⟩
  | terminate id reason now =>
    rw [ManagerOp.program_terminate]
    apply alone_unlessTerminated
    intro m stored guard
    have hfirst : (ManagerOp.terminate id reason now).Moves m.status .terminating :=
      Or.inl ⟨guard, rfl⟩
    apply alone_updateThen stored (m.identity_markTerminating (now 0)) hfirst
    apply alone_provisionerThen
    exact alone_finish (get_put_self s _)
      ((m.markTerminating (now 0)).identity_markTerminated reason (now 1)) (Or.inr ⟨rfl, rfl⟩)
  | delete id =>
    rw [ManagerOp.program_delete]
    apply alone_other (by simp)
    intro answer s' hstep
    cases hstep
    cases s.get id with
    | none => trivial
    | some m =>
      simp only
      split
      · apply alone_other (by simp)
        intro answer s' _
        cases answer <;> trivial
      · trivial
  | updateUsage id usage =>
    rw [ManagerOp.program_updateUsage]
    apply alone_other (by simp)
    intro answer s' _
    cases answer <;> trivial

end Alone

/-- The status of a tenant whose deprovisioning has started. -/
def TenantStatus.Ending (status : TenantStatus) : Prop :=
  status = .terminating ∨ status = .terminated

def ManagerOp.Resumes : ManagerOp → Prop
  | .suspend _ _ _ => True
  | .activate _ _ => True
  | _ => False

theorem ManagerOp.Moves.ending_iff {op : ManagerOp} {old new : TenantStatus}
    (hmoves : op.Moves old new) (hold : old.Ending) :
    new.Ending ↔ ¬ (op.Resumes ∧ old = .terminating) := by
  cases op with
  | create newV4 now request =>
    obtain ⟨rfl, -⟩ := hmoves
    rcases hold with hold | hold <;> cases hold
  | update id now request =>
    cases hmoves
    exact iff_of_true hold fun h => h.1
  | suspend id reason now =>
    obtain ⟨hopen, rfl⟩ := hmoves
    have hterminating : old = .terminating := hold.resolve_right hopen
    exact iff_of_false (by simp [TenantStatus.Ending]) fun h => h ⟨trivial, hterminating⟩
  | activate id now =>
    obtain ⟨hopen, rfl⟩ := hmoves
    have hterminating : old = .terminating := hold.resolve_right hopen
    exact iff_of_false (by simp [TenantStatus.Ending]) fun h => h ⟨trivial, hterminating⟩
  | terminate id reason now =>
    have hnew : new.Ending := hmoves.imp And.right And.right
    exact iff_of_true hnew fun h => h.1
  | delete id => exact hmoves.elim
  | updateUsage id usage => exact hmoves.elim

section Serial

variable {ι : Type*} [DecidableEq ι] {calls : ι → ManagerOp}

/-- In the state of `cfg`, the call whose turn it is writes no record back with which
a `suspend` or `activate` replaces one that is being terminated. -/
def ResumesNoTermination (calls : ι → ManagerOp) (cfg : ManagerConfig ι)
    (turn : ι × ManagerChoice) : Prop :=
  ∀ m rest, cfg.program turn.1 = .call (.storeUpdate m) rest → (calls turn.1).Resumes →
    ∀ r, cfg.state.get m.tenant.id = some r → r.status ≠ .terminating

/-- From the first store to the second, a tenant whose deprovisioning has started
has not been put back. -/
def MovesForward (s s' : InMemoryManagedTenantStore) : Prop :=
  ∀ id m, s.get id = some m → m.status.Ending → ∀ m', s'.get id = some m' → m'.status.Ending

theorem ResumesNoTermination.movesForward {cfg : ManagerConfig ι} {turn : ι × ManagerChoice}
    (hwrites : ∀ e rest, cfg.program turn.1 = .call e rest →
      (calls turn.1).WritesBack cfg.state e)
    (hresumes : ResumesNoTermination calls cfg turn) :
    MovesForward cfg.state (cfg.step memory turn).state := by
  intro id m hm hending m' hm'
  rcases get_step_cases cfg turn id with hsame | ⟨c, rest, -, -, hnone⟩ |
    ⟨u, rest, r, hp, rfl, -, hu⟩ | hgone | ⟨usage, r, time, hr, hu⟩
  · rw [hsame, hm] at hm'
    cases hm'
    exact hending
  · rw [hnone] at hm
    cases hm
  · rw [hu] at hm'
    cases hm'
    obtain ⟨old, hold, hmoves⟩ := hwrites _ rest hp m' rfl
    rw [hm] at hold
    cases hold
    apply (hmoves.ending_iff hending).mpr
    rintro ⟨hop, hterminating⟩
    exact hresumes m' rest hp hop m hm hterminating
  · rw [hgone] at hm'
    cases hm'
  · rw [hr] at hm
    cases hm
    rw [hu] at hm'
    cases hm'
    exact hending

theorem serial_writesBack {start : InMemoryManagedTenantStore}
    {schedule before : List (ι × ManagerChoice)}
    (serial : (managerSystemFrom calls start).Serial memory schedule)
    (hbefore : before <+: schedule) {i : ι} {e : ManagerCall}
    {rest : e.Answer → ManagerProgram ManagerResult}
    (hp : ((managerSystemFrom calls start).run memory before).program i = .call e rest) :
    (calls i).WritesBack ((managerSystemFrom calls start).run memory before).state e :=
  serial.allowed (P := fun i => (calls i).WritesBack) rfl (fun i => (calls i).program_alone)
    hbefore hp

/-- Operations one after the other are the calls of a serial schedule. -/
theorem serial_of_sequential {start s : InMemoryManagedTenantStore} {past : List ManagerDone}
    (run : Sequential memory ManagerOp.program start past s) :
    ∃ (calls : ℕ → ManagerOp) (schedule : List (ℕ × ManagerChoice)),
      (managerSystemFrom calls start).Serial memory schedule ∧
        ((managerSystemFrom calls start).run memory schedule).state = s := by
  let calls (n : ℕ) : ManagerOp := (past.map Completed.op).reverse.getD n (.delete "")
  have numbered : past.map Completed.op = ((List.range past.length).map calls).reverse := by
    rw [← List.reverse_eq_iff]
    apply List.ext_getElem
    · simp
    · intro n hn _
      rw [List.getElem_map, List.getElem_range]
      exact (List.getD_eq_getElem _ _ hn).symm
  obtain ⟨schedule, hserial, hend, -⟩ := run.serial calls numbered
  exact ⟨calls, schedule, hserial, hend⟩

/-- Along the schedule, a record that is being terminated is being terminated or
terminated in all later states until it is deleted. -/
def TerminationMovesForward (calls : ι → ManagerOp) (start : InMemoryManagedTenantStore)
    (schedule : List (ι × ManagerChoice)) : Prop :=
  let after := (managerSystemFrom calls start).run memory
  ∀ before later, before <+: later → later <+: schedule →
    ∀ id m, (after before).state.get id = some m → m.status = .terminating →
      (∀ middle, before <+: middle → middle <+: later → (after middle).state.get id ≠ none) →
      ∀ m', (after later).state.get id = some m' →
        m'.status = .terminating ∨ m'.status = .terminated

/-- In every serial run, from any store and with any answers of the provisioner,
terminations only move forward exactly if no `suspend` or `activate` comes to write
back a record that is being terminated. -/
theorem termination_moves_forward_iff (calls : ι → ManagerOp) (start : InMemoryManagedTenantStore)
    (schedule : List (ι × ManagerChoice))
    (serial : (managerSystemFrom calls start).Serial memory schedule) :
    TerminationMovesForward calls start schedule ↔
      ∀ before turn, before ++ [turn] <+: schedule →
        ResumesNoTermination calls ((managerSystemFrom calls start).run memory before) turn := by
  have hwrites {before e rest} {turn : ι × ManagerChoice} (hbefore : before ++ [turn] <+: schedule)
      (hp : ((managerSystemFrom calls start).run memory before).program turn.1 = .call e rest) :
      (calls turn.1).WritesBack ((managerSystemFrom calls start).run memory before).state e :=
    serial_writesBack serial ((List.prefix_append _ _).trans hbefore) hp
  constructor
  · intro hall before turn hbefore m rest hp hresumes r hr hterminating
    have hnext : ((managerSystemFrom calls start).run memory (before ++ [turn])).state.get
        m.tenant.id = some m := by
      rw [Config.run_concat]
      exact get_step_update hp hr
    have hpresent : ∀ middle, before <+: middle → middle <+: before ++ [turn] →
        ((managerSystemFrom calls start).run memory middle).state.get m.tenant.id ≠ none := by
      intro middle hmiddle hlater
      rcases List.prefix_concat_iff.mp hlater with rfl | hshort
      · simp [hnext]
      · rw [hshort.eq_of_length_le hmiddle.length_le]
        simp [hr]
    have hending : m.status.Ending := hall before (before ++ [turn]) (List.prefix_append _ _)
      hbefore _ r hr hterminating hpresent m hnext
    obtain ⟨old, hold, hmoves⟩ := hwrites hbefore hp m rfl
    rw [hr] at hold
    cases hold
    exact (hmoves.ending_iff (.inl hterminating)).mp hending ⟨hresumes, hterminating⟩
  · intro hcond before later hlater hschedule id m hm hterminating hpresent
    obtain ⟨middle, rfl⟩ := hlater
    induction middle using List.reverseRecOn with
    | nil =>
      intro m' hm'
      rw [List.append_nil, hm] at hm'
      cases hm'
      exact .inl hterminating
    | append_singleton middle turn ih =>
      rw [← List.append_assoc] at hschedule hpresent ⊢
      have hshorter : before ++ middle <+: before ++ middle ++ [turn] := List.prefix_append _ _
      obtain ⟨r, hr⟩ := Option.ne_none_iff_exists'.mp
        (hpresent (before ++ middle) (List.prefix_append _ _) hshorter)
      have hending := ih (hshorter.trans hschedule)
        (fun b hb hb' => hpresent b hb (hb'.trans hshorter)) r hr
      rw [Config.run_concat]
      exact (hcond _ turn hschedule).movesForward (fun e rest => hwrites hschedule) id r hr hending

end Serial

def activatedAfterTermination : Fin 3 → ManagerOp :=
  ![.create "t-1" (fun _ => 0) (.new "acme"), .terminate "t-1" "closing" (fun _ => 1),
    .activate "t-1" (fun _ => 2)]

def failedTermination {ι : Type*} (creation termination : ι) : List (ι × ManagerChoice) :=
  List.replicate 4 (creation, default) ++ [(termination, default), (termination, default),
    (termination, { (default : ManagerChoice) with
      outcome := .error (.storage "deprovision failed") })]

theorem termination_moves_forward_iff_failed :
    TerminationMovesForward activatedAfterTermination .new (failedTermination 0 1) := by
  refine (termination_moves_forward_iff activatedAfterTermination .new (failedTermination 0 1)
    (by decide)).mpr ?_
  intro before turn hbefore m rest _ hresumes
  have hcalls : ∀ turn ∈ failedTermination (0 : Fin 3) 1, turn.1 = 0 ∨ turn.1 = 1 := by
    simp [failedTermination]
  rcases hcalls turn (hbefore.subset (List.mem_append_right _ List.mem_cons_self)) with h | h <;>
    rw [h] at hresumes <;> cases hresumes

/-- After the failed termination, the tenant is put back to work. -/
theorem activation_revives_terminating :
    let later := failedTermination 0 1 ++ List.replicate 3 (2, default)
    (managerSystemFrom activatedAfterTermination .new).Serial memory later ∧
      ¬ TerminationMovesForward activatedAfterTermination .new later := by
  refine ⟨by decide, ?_⟩
  intro hforward
  have hpresent : ∀ middle, failedTermination 0 1 <+: middle →
      middle <+: failedTermination 0 1 ++ List.replicate 3 (2, default) →
      ((managerSystemFrom activatedAfterTermination .new).run memory middle).state.get "t-1" ≠
        none := by
    rintro middle ⟨activation, rfl⟩ hlater
    obtain ⟨hlength, hactivation⟩ := List.prefix_replicate_iff.mp
      ((List.prefix_append_right_inj _).mp hlater)
    rw [hactivation]
    interval_cases activation.length <;> exact Option.some_ne_none _
  have hending := hforward (failedTermination 0 1) _ (List.prefix_append _ _)
    (List.prefix_refl _) "t-1" _ rfl rfl hpresent _ rfl
  rcases hending with h | h <;> cases h

end ArmatureTenancy

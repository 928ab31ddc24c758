import ArmatureTenancy.Management.Identity
import Mathlib.Data.Fin.VecNotation

/-!
# Termination under interleaving

Each operation refuses a terminated record, but it looks at the record in one
step and writes it back in a later one. A terminated record stays terminated, or
goes away for good, exactly as long as no operation writes to it without knowing
of the termination: it read the record terminated, or deprovisioned it itself.
-/

namespace ArmatureTenancy

open Foundations InMemoryManagedTenantStore

section Knowledge

variable {ι : Type*} [DecidableEq ι]

def deprovisioned : Exchange ManagerCall ManagerCall.Answer → Option Unit
  | ⟨.provisioner .deprovision _, .ok ()⟩ => some ()
  | _ => none

/-- The call last read a terminated record, or it has deprovisioned the tenant. -/
def KnowsTerminated (i : ι) (h : ManagerHistory ι) : Prop :=
  (∃ copy, lastRead i h = some copy ∧ copy.status = .terminated) ∨
    lastOwn i deprovisioned h = some ()

theorem knowsTerminated_stable {i : ι} {h h' : ManagerHistory ι} (moved : OthersMoved i h h') :
    KnowsTerminated i h' ↔ KnowsTerminated i h := by
  rw [KnowsTerminated, KnowsTerminated, lastRead, lastRead, moved.lastOwn_eq, moved.lastOwn_eq]

/-- A record is written as terminated exactly by a call that knows it to be. -/
def finalityDiscipline : Discipline ι ManagerCall ManagerCall.Answer ManagerResult where
  allowed h i
    | .storeUpdate m => m.status = .terminated ↔ KnowsTerminated i h
    | _ => True
  answers _ _ _ _ := True
  post _ _ _ := True
  allowed_stable := by
    intro h h' i e moved hallowed
    cases e with
    | storeUpdate m => exact hallowed.trans (knowsTerminated_stable moved).symm
    | _ => trivial
  post_stable _ _ := trivial

open ManagerProgram

variable {i : ι} {h : ManagerHistory ι} {copy? : Option ManagedTenant} {m : ManagedTenant}

/-- The call last read the given record, if any, and has not deprovisioned the tenant. -/
def HasOnlyRead (i : ι) (h : ManagerHistory ι) (copy? : Option ManagedTenant) : Prop :=
  lastRead i h = copy? ∧ lastOwn i deprovisioned h = none

theorem finality_mayFail :
    MayFail (finalityDiscipline : Discipline ι ManagerCall ManagerCall.Answer ManagerResult) :=
  fun _ _ _ => trivial

namespace HasOnlyRead

theorem next {h' : ManagerHistory ι} (hread : HasOnlyRead i h copy?) (moved : OthersMoved i h h')
    {x : Exchange ManagerCall ManagerCall.Answer} (hx : recordRead x = none)
    (hx' : deprovisioned x = none) : HasOnlyRead i ((i, x) :: h') copy? :=
  ⟨(lastOwn_cons_none hx).trans (moved.lastOwn_eq.trans hread.1),
    (lastOwn_cons_none hx').trans (moved.lastOwn_eq.trans hread.2)⟩

theorem read {h' : ManagerHistory ι} (hread : HasOnlyRead i h copy?) (moved : OthersMoved i h h')
    (id : String) (m : ManagedTenant) :
    HasOnlyRead i ((i, ⟨.storeGet id, .ok (some m)⟩) :: h') (some m) :=
  ⟨lastOwn_cons_some rfl, (lastOwn_cons_none rfl).trans (moved.lastOwn_eq.trans hread.2)⟩

theorem knows_iff (hread : HasOnlyRead i h copy?) :
    KnowsTerminated i h ↔ ∃ copy, copy? = some copy ∧ copy.status = .terminated := by
  simp [KnowsTerminated, hread.1, hread.2]

theorem follows_finish (hread : HasOnlyRead i h copy?)
    (hm : m.status = .terminated ↔ ∃ copy, copy? = some copy ∧ copy.status = .terminated) :
    (finish m).Follows finalityDiscipline i h :=
  follows_updateThen finality_mayFail (hm.trans hread.knows_iff.symm) fun _ _ => trivial

theorem follows_deprovision {m' : ManagedTenant} (hm' : m'.status = .terminated) :
    (provisionerThen .deprovision m (finish m')).Follows finalityDiscipline i h := by
  apply follows_provisionerThen finality_mayFail trivial
  intro h' _
  have hknows : KnowsTerminated i ((i, ⟨.provisioner .deprovision m, .ok ()⟩) :: h') :=
    .inr (lastOwn_cons_some rfl)
  exact follows_updateThen finality_mayFail (iff_of_true hm' hknows) fun _ _ => trivial

theorem program_follows (hread : HasOnlyRead i h none) (op : ManagerOp) :
    op.program.Follows finalityDiscipline i h := by
  cases op with
  | create newV4 now request =>
    apply follows_create finality_mayFail trivial fun _ _ => trivial
    intro h' h'' moved moved'
    have hinserted : HasOnlyRead i
        ((i, ⟨.storeCreate (request.managed newV4 (now 0)), .ok ()⟩) :: h'') none :=
      (hread.next moved rfl rfl).next moved' rfl rfl
    apply follows_provisionNew finality_mayFail trivial
    · intro h' moved
      exact (hinserted.next moved rfl rfl).follows_finish (by simp [ManagedTenant.markProvisioned])
    · intro h' e _
      trivial
  | update id now request =>
    rw [ManagerOp.program_update]
    apply follows_orNotFound finality_mayFail trivial
    intro h' m moved _
    exact (hread.read moved id m).follows_finish (by simp [ManagedTenant.apply])
  | suspend id reason now =>
    rw [ManagerOp.program_suspend]
    apply follows_unlessTerminated finality_mayFail trivial
    intro h' m moved _ guard
    apply follows_provisionerThen finality_mayFail trivial
    intro h'' moved'
    have hread' := (hread.read moved id m).next moved' (x := ⟨.provisioner .suspend m, .ok ()⟩)
    exact (hread' rfl rfl).follows_finish (by simp [ManagedTenant.markSuspended, guard])
  | activate id now =>
    rw [ManagerOp.program_activate]
    apply follows_unlessTerminated finality_mayFail trivial
    intro h' m moved _ guard
    apply follows_provisionerThen finality_mayFail trivial
    intro h'' moved'
    have hread' := (hread.read moved id m).next moved' (x := ⟨.provisioner .resume m, .ok ()⟩)
    exact (hread' rfl rfl).follows_finish (by simp [ManagedTenant.markActive, guard])
  | terminate id reason now =>
    rw [ManagerOp.program_terminate]
    apply follows_unlessTerminated finality_mayFail trivial
    intro h' m moved _ guard
    have hfirst : (m.markTerminating (now 0)).status = .terminated ↔ _ :=
      Iff.trans (by simp [ManagedTenant.markTerminating, guard])
        (hread.read moved id m).knows_iff.symm
    exact follows_updateThen finality_mayFail hfirst fun _ _ => follows_deprovision rfl
  | delete id =>
    exact follows_delete finality_mayFail (fun _ => trivial) trivial fun _ _ _ _ => trivial
  | updateUsage id usage =>
    exact follows_updateUsage finality_mayFail trivial fun _ _ => trivial

end HasOnlyRead
end Knowledge

section Interleaved

variable {ι : Type*} [DecidableEq ι] {calls : ι → ManagerOp}

/-- If the program's next call writes a record that is not terminated, the
stored one is not terminated either. -/
def RevivesNothing (cfg : ManagerConfig ι) (turn : ι × ManagerChoice) : Prop :=
  ∀ m rest, cfg.program turn.1 = .call (.storeUpdate m) rest → m.status ≠ .terminated →
    ∀ r, cfg.state.get m.tenant.id = some r → r.status ≠ .terminated

/-- From the first store to the second, what was terminated is terminated or gone. -/
def StaysTerminated (s s' : InMemoryManagedTenantStore) : Prop :=
  ∀ id m, s.get id = some m → m.status = .terminated →
    ∀ m', s'.get id = some m' → m'.status = .terminated

theorem staysTerminated_step_iff (cfg : ManagerConfig ι) (turn : ι × ManagerChoice) :
    StaysTerminated cfg.state (cfg.step memory turn).state ↔ RevivesNothing cfg turn := by
  constructor
  · intro hstays m rest hp hstatus r hr hterminated
    exact hstatus (hstays _ r hr hterminated m (get_step_update hp hr))
  · intro hcond id m hm hterminated m' hm'
    rcases get_step_cases cfg turn id with hsame | ⟨c, rest, -, -, hnone⟩ |
      ⟨u, rest, r, hp, rfl, -, hu⟩ | hgone | ⟨usage, r, time, hr, hu⟩
    · rw [hsame, hm] at hm'
      cases hm'
      exact hterminated
    · rw [hnone] at hm
      cases hm
    · rw [hu] at hm'
      cases hm'
      by_contra hstatus
      exact hcond m' rest hp hstatus m hm hterminated
    · rw [hgone] at hm'
      cases hm'
    · rw [hr] at hm
      cases hm
      rw [hu] at hm'
      cases hm'
      exact hterminated

/-- The id was used by a record, and it has none or a terminated one. -/
def Closed (cfg : ManagerConfig ι) (id : String) : Prop :=
  (∃ ident, Born cfg.history ident ∧ ident.id = id) ∧
    ∀ m, cfg.state.get id = some m → m.status = .terminated

/-- A closed id stays closed: no insertion uses its id again. -/
theorem closed_step (fresh : FreshCalls calls) {cfg : ManagerConfig ι}
    (hidentity : IdentityHolds calls cfg) {turn : ι × ManagerChoice}
    (hturn : RevivesNothing cfg turn) {id : String} (hclosed : Closed cfg id) :
    Closed (cfg.step memory turn) id := by
  have hstays := (staysTerminated_step_iff cfg turn).mpr hturn
  obtain ⟨⟨ident, hborn, rfl⟩, hrecord⟩ := hclosed
  refine ⟨⟨ident, hborn.run [turn], rfl⟩, ?_⟩
  intro m hm
  cases hget : cfg.state.get ident.id with
  | some r => exact hstays _ r hget (hrecord r hget) m hm
  | none =>
    rw [unused_step fresh hidentity hborn hget turn] at hm
    cases hm

/-- Every write over a terminated record knows of the termination. -/
def WritesKnowingly (cfg : ManagerConfig ι) (turn : ι × ManagerChoice) : Prop :=
  ∀ m rest, cfg.program turn.1 = .call (.storeUpdate m) rest →
    ∀ r, cfg.state.get m.tenant.id = some r → r.status = .terminated →
      KnowsTerminated turn.1 cfg.history

theorem writesKnowingly_iff {cfg : ManagerConfig ι}
    (hfollows : ∀ i, (cfg.program i).Follows finalityDiscipline i cfg.history)
    (turn : ι × ManagerChoice) : WritesKnowingly cfg turn ↔ RevivesNothing cfg turn := by
  have hstatus {m rest} (hp : cfg.program turn.1 = .call (.storeUpdate m) rest) :
      m.status = .terminated ↔ KnowsTerminated turn.1 cfg.history := by
    have hfollow := hfollows turn.1
    rw [hp] at hfollow
    exact hfollow.1
  constructor
  · intro hknows m rest hp hm r hr hterminated
    exact hm ((hstatus hp).mpr (hknows m rest hp r hr hterminated))
  · intro hrevives m rest hp r hr hterminated
    by_contra hnot
    exact hrevives m rest hp (fun hm => hnot ((hstatus hp).mp hm)) r hr hterminated

theorem managerSystem_finality (schedule : List (ι × ManagerChoice)) (i : ι) :
    (((managerSystem calls).run memory schedule).program i).Follows finalityDiscipline i
      ((managerSystem calls).run memory schedule).history := by
  refine Config.run_follows_blindly ?_ ?_ schedule i
  · intro h i e answer
    trivial
  · intro i
    have hread : HasOnlyRead i (managerSystem calls).history none := ⟨rfl, rfl⟩
    exact hread.program_follows (calls i)

/-- In every interleaving of manager calls with fresh ids, a record once
terminated is terminated or gone in all later states, exactly if every write over
a terminated record comes from a call that read it terminated or deprovisioned it. -/
theorem terminated_final_iff (fresh : FreshCalls calls) (schedule : List (ι × ManagerChoice)) :
    (∀ before later, before <+: later → later <+: schedule →
        StaysTerminated ((managerSystem calls).run memory before).state
          ((managerSystem calls).run memory later).state) ↔
      ∀ before turn, before ++ [turn] <+: schedule →
        WritesKnowingly ((managerSystem calls).run memory before) turn := by
  constructor
  · intro hall before turn hbefore
    rw [writesKnowingly_iff (managerSystem_finality before), ← staysTerminated_step_iff,
      ← Config.run_concat]
    exact hall before (before ++ [turn]) (List.prefix_append _ _) hbefore
  · intro hcond before later hlater hschedule id m hm hterminated
    have hidentity := managerSystem_identity fresh
    have hclosed : Closed ((managerSystem calls).run memory before) id := by
      refine ⟨⟨m.identity, (hidentity before).1.stored id m hm, id_of_get hm⟩, fun m' hm' => ?_⟩
      rw [hm] at hm'
      cases hm'
      exact hterminated
    obtain ⟨middle, rfl⟩ := hlater
    suffices hend : Closed ((managerSystem calls).run memory (before ++ middle)) id from hend.2
    induction middle using List.reverseRecOn with
    | nil =>
      rw [List.append_nil]
      exact hclosed
    | append_singleton middle turn ih =>
      rw [← List.append_assoc] at hschedule ⊢
      rw [Config.run_concat]
      have hmiddle := ih (List.IsPrefix.trans (List.prefix_append _ _) hschedule)
      have hturn := (writesKnowingly_iff (managerSystem_finality _) turn).mp
        (hcond _ turn hschedule)
      exact closed_step fresh (hidentity _) hturn hmiddle

end Interleaved

def suspendWhileTerminating : Fin 3 → ManagerOp :=
  ![.create "t-1" (fun _ => 0) (.new "acme"), .suspend "t-1" "unpaid" (fun _ => 1),
    .terminate "t-1" "closing" (fun _ => 2)]

theorem suspendWhileTerminating_fresh : FreshCalls suspendWhileTerminating := by
  intro i j id hi hj
  match i, j with
  | 0, 0 => rfl
  | 0, 1 => cases hj
  | 0, 2 => cases hj
  | 1, _ => cases hi
  | 2, _ => cases hi

theorem terminated_final_iff_serial :
    let serial : List (Fin 3 × ManagerChoice) := [(0, default), (0, default), (0, default),
      (0, default), (1, default), (1, default), (1, default), (2, default), (2, default),
      (2, default), (2, default)]
    ∀ before later, before <+: later → later <+: serial →
      StaysTerminated ((managerSystem suspendWhileTerminating).run memory before).state
        ((managerSystem suspendWhileTerminating).run memory later).state := by
  intro serial
  refine (terminated_final_iff suspendWhileTerminating_fresh serial).mpr ?_
  simp only [serial, forall_turns_cons]
  refine ⟨?_, ?_, ?_, ?_, ?_, ?_, ?_, ?_, ?_, ?_, ?_, forall_turns_nil⟩ <;>
    intro m rest hp <;> cases hp <;> intro r hr hterminated <;> cases hr <;> cases hterminated

/-- The suspension reads the record before the termination and writes it back after it. -/
theorem stale_suspension_revives :
    let before : List (Fin 3 × ManagerChoice) := [(0, default), (0, default), (0, default),
      (0, default), (1, default), (2, default), (2, default), (2, default), (2, default)]
    let after : List (Fin 3 × ManagerChoice) := before ++ [(1, default), (1, default)]
    (((managerSystem suspendWhileTerminating).run memory before).state.get "t-1").map
        ManagedTenant.status = some .terminated ∧
      (((managerSystem suspendWhileTerminating).run memory after).state.get "t-1").map
        ManagedTenant.status = some .suspended :=
  ⟨rfl, rfl⟩

end ArmatureTenancy

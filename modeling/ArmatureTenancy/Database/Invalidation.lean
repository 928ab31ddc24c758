import ArmatureTenancy.Database.Guards
import Mathlib.Data.Fin.VecNotation

/-!
# No stale connection after an invalidation

A call that has dropped the entry of a name did so under the write guard, so no
other call was between a miss and an insertion at that moment. Whatever is cached
or opened for the name from then on comes from a provider call that began later
than that guard was taken.
-/

namespace ArmatureTenancy

open Foundations

variable {ι : Type*} {K : Type}

/-- The provider call of `j` for the name began after `k` took the write guard, and
is still going on. -/
def OpeningAfter (k : ι) (name : String) (j : ι) (h : DatabaseHistory ι K) : Prop :=
  ∃ older, OthersMoved j ((j, ⟨.beginOpen name, ()⟩) :: older) h ∧
    (k, ⟨.acquireWrite, ()⟩) ∈ older

/-- The provider call that opened the connection for the name began after `k` took
the write guard. -/
def OpenedAfter (k : ι) (name : String) (conn : Connection K) (h : DatabaseHistory ι K) : Prop :=
  ∃ j newer older, h = newer ++ (j, ⟨.finishOpen name, .ok conn⟩) :: older ∧
    OpeningAfter k name j older

theorem OpeningAfter.finish {k i : ι} {name : String} {conn : Connection K}
    {h : DatabaseHistory ι K} (ho : OpeningAfter k name i h) :
    OpenedAfter k name conn ((i, ⟨.finishOpen name, .ok conn⟩) :: h) :=
  ⟨i, [], h, rfl, ho⟩

theorem OpenedAfter.cons {k : ι} {name : String} {conn : Connection K} {h : DatabaseHistory ι K}
    (ho : OpenedAfter k name conn h) (x : ι × DatabaseExchange K) :
    OpenedAfter k name conn (x :: h) := by
  obtain ⟨j, newer, older, rfl, hopening⟩ := ho
  exact ⟨j, x :: newer, older, rfl, hopening⟩

variable [DecidableEq ι]

/-- Whatever is cached or about to be cached under the name was opened by a
provider call that began after `k` took the write guard. -/
structure Renewed (k : ι) (name : String)
    (now : Moment ι (DatabaseState K) (DatabaseCall K) DatabaseCall.Answer) : Prop where
  opening : ∀ j, guardPhase j now.history = .opening name → OpeningAfter k name j now.history
  opened : ∀ j conn, guardPhase j now.history = .opened name conn →
    OpenedAfter k name conn now.history
  cached : ∀ conn, now.state.connectionCache.lookup name = some conn →
    OpenedAfter k name conn now.history

section Step

variable {now : Moment ι (DatabaseState K) (DatabaseCall K) DatabaseCall.Answer} {i k : ι}
  {name : String} {calls : ι → DatabaseOp} {e : DatabaseCall K} {answer : e.Answer}
  {s' : DatabaseState K}

theorem renewed_of_drop (hinv : PoolInvariant now) (hphase : guardPhase k now.history = .entered)
    (hleaving : phaseAfter (⟨e, answer⟩ : DatabaseExchange K) = .leaving)
    (hlookup : s'.connectionCache.lookup name = none) :
    Renewed k name ⟨s', (k, ⟨e, answer⟩) :: now.history⟩ := by
  have hnone {j : ι} {p : GuardPhase K}
      (hj : guardPhase j ((k, ⟨e, answer⟩) :: now.history) = p) (hp : p.Holds)
      (hne : p ≠ .leaving) : False := by
    by_cases hjk : k = j
    · subst hjk
      rw [guardPhase, phase_cons_self, hleaving] at hj
      exact hne hj.symm
    · rw [guardPhase, phase_cons_other hjk] at hj
      exact hjk (hinv.exclusive.unique k j (holds_of_phase hphase trivial) (holds_of_phase hj hp))
  constructor
  · intro j hj
    exact (hnone hj trivial (by simp)).elim
  · intro j conn hj
    exact (hnone hj trivial (by simp)).elim
  · intro conn hconn
    rw [hlookup] at hconn
    cases hconn

/-- Every later step keeps what is cached or about to be cached renewed. -/
theorem Renewed.step (h : Renewed k name now)
    (htaken : (k, ⟨.acquireWrite, ()⟩) ∈ now.history)
    (hallowed : (guardDiscipline calls).allowed now.history i e)
    (hstep : PoolStep now.state e answer s') :
    Renewed k name ⟨s', (i, ⟨e, answer⟩) :: now.history⟩ := by
  constructor
  · intro j hj
    by_cases hji : i = j
    · subst hji
      rw [guardPhase, phase_cons_self] at hj
      obtain ⟨rfl, hanswer⟩ := Sigma.mk.inj (phaseAfter_opening hj)
      exact ⟨now.history, .refl _ _, htaken⟩
    · rw [guardPhase, phase_cons_other hji] at hj
      obtain ⟨older, moved, hmem⟩ := h.opening j hj
      exact ⟨older, moved.trans (.cons _ hji), hmem⟩
  · intro j conn hj
    by_cases hji : i = j
    · subst hji
      rw [guardPhase, phase_cons_self] at hj
      obtain ⟨rfl, hanswer⟩ := Sigma.mk.inj (phaseAfter_opened hj)
      cases hanswer
      exact (h.opening i hallowed).finish
    · rw [guardPhase, phase_cons_other hji] at hj
      exact (h.opened j conn hj).cons _
  · intro conn hconn
    rcases hstep.lookup_cases name with hsame | ⟨conn', rfl, hwritten⟩ | ⟨-, hnone⟩
    · exact (h.cached conn (hsame.symm.trans hconn)).cons _
    · obtain rfl := Option.some.inj (hwritten.symm.trans hconn)
      exact (h.opened i conn' hallowed).cons _
    · cases hnone.symm.trans hconn

theorem Renewed.of_supplied (h : Renewed k name now)
    (hallowed : (guardDiscipline calls).allowed now.history i e)
    (hstep : PoolStep now.state e answer s') {conn : Connection K}
    (hsupplied : supplied (⟨e, answer⟩ : DatabaseExchange K) = some (name, conn)) :
    OpenedAfter k name conn ((i, ⟨e, answer⟩) :: now.history) := by
  have hfound (name' : String)
      (hlookup : (now.state.connectionCache.lookup name').map (fun conn => (name', conn)) =
        some (name, conn)) (x : ι × DatabaseExchange K) :
      OpenedAfter k name conn (x :: now.history) := by
    obtain ⟨conn', hconn', heq⟩ := Option.map_eq_some_iff.mp hlookup
    cases heq
    exact (h.cached _ hconn').cons x
  cases hstep with
  | @readLookup name' free =>
    apply hfound name'
    rw [← hsupplied]
    cases now.state.connectionCache.lookup name' <;> rfl
  | @lookup name' =>
    apply hfound name'
    rw [← hsupplied]
    cases now.state.connectionCache.lookup name' <;> rfl
  | @opened name' value =>
    cases hsupplied
    exact (h.opening i hallowed).finish
  | _ => cases hsupplied

end Step

section Interleaved

variable {calls : ι → DatabaseOp} {k : ι} {name : String}

/-- Once `k` has dropped the entry of the name, the name is renewed. -/
def DropsRenew (cfg : DatabaseConfig ι K) : Prop :=
  ∀ k name, Dropped cfg.history k name →
    (k, ⟨.acquireWrite, ()⟩) ∈ cfg.history ∧ Renewed k name cfg.toMoment

theorem taken_of_entered {h : DatabaseHistory ι K} (hphase : guardPhase k h = .entered) :
    (k, ⟨.acquireWrite, ()⟩) ∈ h := by
  have hne : guardPhase k h ≠ .outside := by
    rw [hphase]
    simp
  obtain ⟨x, older, moved, hx⟩ := exists_of_phase hne
  obtain rfl := phaseAfter_entered (hx.trans hphase)
  exact moved.subset List.mem_cons_self

theorem DropsRenew.step {cfg : DatabaseConfig ι K} (holds : PoolHolds calls cfg)
    (hrenew : DropsRenew cfg) (turn : DatabaseTurn ι K) :
    DropsRenew (cfg.step connectionPool turn) := by
  rcases holds.step_cases turn with h | ⟨e, answer, s, p, hallowed, hstep, h⟩
  · rw [h]
    exact hrenew
  · rw [h]
    have hearlier {k : ι} {name : String} (hdropped : Dropped cfg.history k name) :
        (k, ⟨.acquireWrite, ()⟩) ∈ (cfg.advance turn.1 e answer s p).history ∧
          Renewed k name (cfg.advance turn.1 e answer s p).toMoment := by
      obtain ⟨htaken, hrenewed⟩ := hrenew k name hdropped
      exact ⟨List.mem_cons_of_mem _ htaken, hrenewed.step htaken hallowed hstep⟩
    have hnow {name : String} (hphase : guardPhase turn.1 cfg.history = .entered)
        (hleaving : phaseAfter (⟨e, answer⟩ : DatabaseExchange K) = .leaving)
        (hlookup : s.connectionCache.lookup name = none) :
        (turn.1, ⟨.acquireWrite, ()⟩) ∈ (cfg.advance turn.1 e answer s p).history ∧
          Renewed turn.1 name (cfg.advance turn.1 e answer s p).toMoment :=
      ⟨List.mem_cons_of_mem _ (taken_of_entered hphase),
        renewed_of_drop holds.1 hphase hleaving hlookup⟩
    intro k name hdropped
    rcases hdropped with hdropped | ⟨found, hdropped⟩
    · rcases List.mem_cons.mp hdropped with heq | hmem
      · cases heq
        cases hstep
        exact hnow hallowed rfl rfl
      · exact hearlier (.inl hmem)
    · rcases List.mem_cons.mp hdropped with heq | hmem
      · cases heq
        cases hstep
        exact hnow hallowed rfl (AList.lookup_erase name _)
      · exact hearlier (.inr ⟨found, hmem⟩)

theorem DropsRenew.run {cfg : DatabaseConfig ι K} (holds : PoolHolds calls cfg)
    (hrenew : DropsRenew cfg) (schedule : List (DatabaseTurn ι K)) :
    DropsRenew (cfg.run connectionPool schedule) := by
  induction schedule generalizing cfg with
  | nil => exact hrenew
  | cons turn schedule ih => exact ih (holds.run [turn]) (hrenew.step holds turn)

/-- Since the history `start`, calls were handed renewed connections for the name only. -/
def HandsRenewed (k : ι) (name : String) (start : DatabaseHistory ι K)
    (cfg : DatabaseConfig ι K) : Prop :=
  ∃ fresh, cfg.history = fresh ++ start ∧
    ∀ i conn, (name, conn) ∈ handed i fresh → OpenedAfter k name conn cfg.history

theorem HandsRenewed.step {start : DatabaseHistory ι K} {cfg : DatabaseConfig ι K}
    (holds : PoolHolds calls cfg) (hrenewed : Renewed k name cfg.toMoment)
    (hhands : HandsRenewed k name start cfg) (turn : DatabaseTurn ι K) :
    HandsRenewed k name start (cfg.step connectionPool turn) := by
  rcases holds.step_cases turn with h | ⟨e, answer, s, p, hallowed, hstep, h⟩
  · rw [h]
    exact hhands
  · rw [h]
    obtain ⟨fresh, hhistory, hfresh⟩ := hhands
    refine ⟨(turn.1, ⟨e, answer⟩) :: fresh, by simp [Config.advance, hhistory], ?_⟩
    intro i conn hconn
    obtain ⟨x, hx, hsupplied⟩ := mem_allOwn.mp hconn
    rcases List.mem_cons.mp hx with heq | hx
    · cases heq
      exact hrenewed.of_supplied hallowed hstep hsupplied
    · exact (hfresh i conn (mem_allOwn.mpr ⟨x, hx, hsupplied⟩)).cons _

theorem HandsRenewed.run {start : DatabaseHistory ι K} {cfg : DatabaseConfig ι K}
    (holds : PoolHolds calls cfg) (hrenew : DropsRenew cfg) (hdropped : Dropped cfg.history k name)
    (hhands : HandsRenewed k name start cfg) (schedule : List (DatabaseTurn ι K)) :
    HandsRenewed k name start (cfg.run connectionPool schedule) := by
  induction schedule generalizing cfg with
  | nil => exact hhands
  | cons turn schedule ih =>
    have hafter := hdropped.mono (cfg.history_suffix connectionPool [turn]).subset
    exact ih (holds.run [turn]) (hrenew.step holds turn) hafter
      (hhands.step holds (hrenew k name hdropped).2 turn)

/-- An `invalidate_tenant` makes no step but to take the guard, drop the entry of
its own tenant's database and drop the guard. -/
def DropsOwn (op : DatabaseOp) (e : DatabaseCall K)
    (_rest : e.Answer → DatabaseProgram K (DatabaseResult K)) : Prop :=
  ∀ tenant, op = .invalidateTenant tenant →
    e = .acquireWrite ∨ e = .releaseWrite ∨ ∃ name, tenant.database = some name ∧ e = .remove name

theorem DatabaseOp.program_dropsOwn (op : DatabaseOp) :
    (op.program (K := K)).Nodes (DropsOwn op) := by
  cases op with
  | getConnection tenant => exact Program.nodes_of_forall (by simp [DropsOwn]) _
  | clearCache => exact Program.nodes_of_forall (by simp [DropsOwn]) _
  | invalidateTenant tenant =>
    cases hname : tenant.database with
    | none =>
      rw [program_invalidateTenant_none hname]
      trivial
    | some name =>
      rw [program_invalidateTenant hname]
      refine ⟨fun t ht => .inl rfl, fun _ => ⟨fun t ht => ?_, fun _ => ⟨fun t ht => ?_, ?_⟩⟩⟩
      · cases ht
        exact .inr (.inr ⟨name, hname, rfl⟩)
      · exact .inr (.inl rfl)
      · intro _
        trivial

end Interleaved

/-- In every interleaving: a `get_connection` that starts when an invalidation of its
database has completed returns a connection whose provider call began after the
invalidation had taken the write guard; and no step of an `invalidate_tenant`
changes the entry of another name. -/
theorem no_stale_connection (calls : ι → DatabaseOp) (before middle : List (DatabaseTurn ι K)) :
    let completed := (databaseSystem calls).run connectionPool before
    let now := (databaseSystem calls).run connectionPool (before ++ middle)
    (∀ k i name tenant result conn, (calls k).Invalidates name →
      completed.program k = .pure result → calls i = .getConnection tenant →
      tenant.database = some name → (∀ x, (i, x) ∉ completed.history) →
      now.program i = .pure (.ok (some conn)) → OpenedAfter k name conn now.history) ∧
    ∀ turn tenant other, calls turn.1 = .invalidateTenant tenant → tenant.database ≠ some other →
      (now.step connectionPool turn).state.connectionCache.lookup other =
        now.state.connectionCache.lookup other := by
  have hbefore := databaseSystem_holds (K := K) calls before
  have hnow := databaseSystem_holds (K := K) calls (before ++ middle)
  constructor
  · intro k i name tenant result conn hinvalidates hdone hop hname hstart hresult
    have hdropped : Dropped ((databaseSystem calls).run connectionPool before).history k name := by
      have hpost := hbefore.2 k
      rw [hdone] at hpost
      exact hpost.2 name hinvalidates
    have hrenew : DropsRenew ((databaseSystem calls).run connectionPool before) := by
      apply DropsRenew.run (databaseSystem_holds calls [])
      rintro k name (hmem | ⟨found, hmem⟩) <;> cases hmem
    have hhands : HandsRenewed k name ((databaseSystem calls).run connectionPool before).history
        ((databaseSystem calls).run connectionPool before) := by
      refine ⟨[], rfl, ?_⟩
      intro i conn hconn
      cases hconn
    obtain ⟨fresh, hhistory, hfresh⟩ := hhands.run hbefore hrenew hdropped middle
    rw [← Config.run_append] at hhistory hfresh
    apply hfresh i conn
    have hpost := hnow.2 i
    rw [hresult] at hpost
    obtain ⟨database, hdatabase, hgiven⟩ := hpost.1 tenant conn hop rfl
    obtain rfl : name = database := Option.some.inj (hname.symm.trans hdatabase)
    have hmem : (name, conn) ∈ handed i
        ((databaseSystem calls).run connectionPool (before ++ middle)).history := by
      rw [hgiven]
      exact List.mem_singleton_self _
    obtain ⟨x, hx, hsupplied⟩ := mem_allOwn.mp hmem
    rw [hhistory] at hx
    rcases List.mem_append.mp hx with hx | hx
    · exact mem_allOwn.mpr ⟨x, hx, hsupplied⟩
    · exact absurd hx (hstart x)
  · intro turn tenant other hop hother
    have hnodes := Config.run_nodes connectionPool (databaseSystem calls)
      (P := fun i => DropsOwn (K := K) (calls i)) (fun i => (calls i).program_dropsOwn)
      (before ++ middle) turn.1
    rcases Config.step_cases connectionPool _ turn with h | ⟨e, rest, r, s, hp, hr, h⟩
    · rw [h]
    · rw [h]
      rw [hp] at hnodes
      rcases hnodes.1 tenant hop with rfl | rfl | ⟨name, hname, rfl⟩
      · cases pool_step hr
        rfl
      · cases pool_step hr
        rfl
      · cases pool_step hr
        have hne : other ≠ name := fun heq => hother (heq ▸ hname)
        exact AList.lookup_erase_ne hne

def invalidatedBetween : Fin 3 → DatabaseOp :=
  let tenant := (Tenant.new "t-1" "acme").withDatabase "acme_db"
  ![.getConnection tenant, .invalidateTenant tenant, .getConnection tenant]

def invalidation : List (DatabaseTurn (Fin 3) ℕ) :=
  [(0, .ok 7), (0, .ok 7), (0, .ok 7), (1, .ok 0), (0, .ok 7), (0, .ok 7), (0, .ok 7), (0, .ok 7),
    (1, .ok 0), (1, .ok 0), (1, .ok 0)]

def secondRequest : List (DatabaseTurn (Fin 3) ℕ) := List.replicate 7 (2, .ok 8)

theorem no_stale_connection_second :
    let now :=
      (databaseSystem invalidatedBetween).run connectionPool (invalidation ++ secondRequest)
    now.program 0 = .pure (.ok (some ⟨0, 7⟩)) ∧ now.program 2 = .pure (.ok (some ⟨1, 8⟩)) ∧
      OpenedAfter 1 "acme_db" ⟨1, 8⟩ now.history := by
  refine ⟨rfl, rfl, ?_⟩
  apply (no_stale_connection invalidatedBetween invalidation secondRequest).1 1 2 "acme_db"
    ((Tenant.new "t-1" "acme").withDatabase "acme_db") (.ok none) ⟨1, 8⟩ rfl rfl rfl rfl
  · intro x hx
    have hmoved : (2 : Fin 3) ∈ List.map Prod.fst
        ((databaseSystem invalidatedBetween).run connectionPool invalidation).history :=
      List.mem_map_of_mem hx
    exact absurd hmoved (by decide)
  · rfl

end ArmatureTenancy

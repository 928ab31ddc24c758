import ArmatureTenancy.Database.Guards
import ArmatureTenancy.Foundations.Progress

/-!
# Calls of the database manager finish

A taken write lock is always held by a call that can move on: to the provider, to the
map or out of the guard. So the calls of the manager never keep each other waiting for
good, and under any fair schedule every call returns.
-/

namespace ArmatureTenancy

open Foundations

variable {ι : Type*} {K : Type} [DecidableEq ι]

/-- Each step is taken in its own phase, and a call that returns holds no guard. -/
def scopeDiscipline (calls : ι → DatabaseOp) :
    Discipline ι (DatabaseCall K) DatabaseCall.Answer (DatabaseResult K) where
  allowed := (guardDiscipline calls).allowed
  answers _ _ _ _ := True
  post h i _ := guardPhase i h = .outside
  allowed_stable := (guardDiscipline calls).allowed_stable
  post_stable moved hpost := moved.phase_eq.trans hpost

section Programs

open DatabaseProgram

variable {calls : ι → DatabaseOp} {i : ι} {h : DatabaseHistory ι K}

theorem scope_finish {result : DatabaseResult K} (hphase : guardPhase i h = .leaving) :
    (finish result).Follows (scopeDiscipline calls) i h :=
  ⟨hphase, fun _ _ _ _ => phase_cons_self _ _ _ _ _⟩

theorem scope_recheck {name : String} (hphase : guardPhase i h = .entered) :
    (recheck name).Follows (scopeDiscipline (K := K) calls) i h := by
  refine ⟨hphase, fun h₁ found _ _ => ?_⟩
  cases found with
  | some conn => exact scope_finish (phase_cons_self _ _ _ _ _)
  | none =>
    refine ⟨phase_cons_self _ _ _ _ _, fun h₂ _ _ _ => ?_⟩
    refine ⟨phase_cons_self _ _ _ _ _, fun h₃ answer _ _ => ?_⟩
    cases answer with
    | error e => exact scope_finish (phase_cons_self _ _ _ _ _)
    | ok conn =>
      refine ⟨phase_cons_self _ _ _ _ _, fun h₄ _ _ _ => ?_⟩
      exact scope_finish (phase_cons_self _ _ _ _ _)

theorem DatabaseOp.program_scope (op : DatabaseOp) (hphase : guardPhase i h = .outside) :
    op.program.Follows (scopeDiscipline (K := K) calls) i h := by
  cases op with
  | getConnection tenant =>
    cases hname : tenant.database with
    | none =>
      rw [program_getConnection_none hname]
      exact hphase
    | some name =>
      rw [program_getConnection hname]
      refine ⟨hphase, fun h₁ found _ _ => ?_⟩
      cases found with
      | some conn => exact phase_cons_self _ _ _ _ _
      | none =>
        refine ⟨phase_cons_self _ _ _ _ _, fun h₂ _ _ _ => ?_⟩
        exact scope_recheck (phase_cons_self _ _ _ _ _)
  | clearCache =>
    rw [program_clearCache]
    refine ⟨hphase, fun h₁ _ _ _ => ⟨phase_cons_self _ _ _ _ _, fun h₂ _ _ _ => ?_⟩⟩
    exact scope_finish (phase_cons_self _ _ _ _ _)
  | invalidateTenant tenant =>
    cases hname : tenant.database with
    | none =>
      rw [program_invalidateTenant_none hname]
      exact hphase
    | some name =>
      rw [program_invalidateTenant hname]
      refine ⟨hphase, fun h₁ _ _ _ => ⟨phase_cons_self _ _ _ _ _, fun h₂ _ _ _ => ?_⟩⟩
      exact scope_finish (phase_cons_self _ _ _ _ _)

omit [DecidableEq ι] in
/-- The longest way through a call: a miss, a miss again under the guard, and a new
connection. -/
theorem DatabaseOp.program_atMost (op : DatabaseOp) : (op.program (K := K)).AtMost 7 := by
  have hfinish (n : ℕ) (result : DatabaseResult K) : (finish result).AtMost (n + 1) :=
    fun _ => Program.atMost_pure n _
  cases op with
  | getConnection tenant =>
    cases hname : tenant.database with
    | none =>
      rw [program_getConnection_none hname]
      trivial
    | some name =>
      rw [program_getConnection hname]
      intro found
      cases found with
      | some conn => trivial
      | none =>
        intro _ found
        cases found with
        | some conn => exact hfinish 3 _
        | none =>
          intro _ answer
          cases answer with
          | error e => exact hfinish 1 _
          | ok conn =>
            intro _
            exact hfinish 0 _
  | clearCache =>
    rw [program_clearCache]
    exact fun _ _ => hfinish 4 _
  | invalidateTenant tenant =>
    cases hname : tenant.database with
    | none =>
      rw [program_invalidateTenant_none hname]
      trivial
    | some name =>
      rw [program_invalidateTenant hname]
      exact fun _ _ => hfinish 4 _

end Programs

/-- While the lock is taken, some call is under the guard. -/
def LockHeld (now : Moment ι (DatabaseState K) (DatabaseCall K) DatabaseCall.Answer) : Prop :=
  now.state.writing = true → ∃ i, (guardPhase i now.history).Holds

section Interleaved

variable {calls : ι → DatabaseOp}

theorem LockHeld.keeps {now : Moment ι (DatabaseState K) (DatabaseCall K) DatabaseCall.Answer}
    {i : ι} {e : DatabaseCall K} {answer : e.Answer} {s' : DatabaseState K}
    (hstep : PoolStep now.state e answer s') : LockHeld ⟨s', (i, ⟨e, answer⟩) :: now.history⟩ := by
  have mine (hphase : (phaseAfter (⟨e, answer⟩ : DatabaseExchange K)).Holds) :
      LockHeld ⟨s', (i, ⟨e, answer⟩) :: now.history⟩ := by
    refine fun _ => ⟨i, ?_⟩
    rw [guardPhase, phase_cons_self]
    exact hphase
  cases hstep with
  | readLookup free =>
    intro hwriting
    rw [free] at hwriting
    cases hwriting
  | releaseWrite =>
    intro hwriting
    cases hwriting
  | lookup =>
    apply mine
    cases now.state.connectionCache.lookup _ <;> trivial
  | _ => exact mine trivial

def LockScoped (calls : ι → DatabaseOp) (cfg : DatabaseConfig ι K) : Prop :=
  LockHeld cfg.toMoment ∧ ∀ i, (cfg.program i).Follows (scopeDiscipline calls) i cfg.history

theorem LockScoped.run {cfg : DatabaseConfig ι K} (held : LockScoped calls cfg)
    (schedule : List (DatabaseTurn ι K)) : LockScoped calls (cfg.run connectionPool schedule) := by
  refine Config.run_follows ?_ held.1 held.2 schedule
  intro outcome now i e answer s' _ _ hanswer
  exact ⟨trivial, LockHeld.keeps (pool_step hanswer)⟩

theorem LockScoped.start (calls : ι → DatabaseOp) :
    LockScoped calls (databaseSystem calls : DatabaseConfig ι K) := by
  constructor
  · intro hwriting
    cases hwriting
  · exact fun i => (calls i).program_scope rfl

/-- Either the lock is free and every call can move, or its holder can. -/
theorem LockScoped.live {cfg : DatabaseConfig ι K} (held : LockScoped calls cfg)
    (unfinished : ∃ i, ¬ (cfg.program i).Finished) : ∃ i, cfg.CanMove connectionPool i := by
  cases hwriting : cfg.state.writing with
  | false =>
    obtain ⟨i, hi⟩ := unfinished
    cases hp : cfg.program i with
    | pure result =>
      rw [hp] at hi
      exact absurd trivial hi
    | call e rest =>
      refine ⟨i, e, rest, hp, fun outcome => ?_⟩
      cases e <;> simp [connectionPool, hwriting]
  | true =>
    obtain ⟨i, hholds⟩ := held.1 hwriting
    have hfollows := held.2 i
    cases hp : cfg.program i with
    | pure result =>
      rw [hp] at hfollows
      rw [show guardPhase i cfg.history = .outside from hfollows] at hholds
      exact hholds.elim
    | call e rest =>
      rw [hp] at hfollows
      refine ⟨i, e, rest, hp, fun outcome => ?_⟩
      cases e with
      | readLookup name =>
        rw [show guardPhase i cfg.history = .outside from hfollows.1] at hholds
        exact hholds.elim
      | acquireWrite =>
        rw [show guardPhase i cfg.history = .outside from hfollows.1] at hholds
        exact hholds.elim
      | _ => simp [connectionPool]

/-- Calls of the manager never block each other for good: whatever has happened, some
unfinished call can move, and rounds in which every call gets a turn, seven for each call,
finish them all, whatever the provider answers. -/
theorem calls_always_complete [Fintype ι] (calls : ι → DatabaseOp)
    (before : List (DatabaseTurn ι K)) :
    let now := (databaseSystem calls).run connectionPool before
    ((∃ i, ¬ (now.program i).Finished) → ∃ i, now.CanMove connectionPool i) ∧
    ∀ rounds : List (List (DatabaseTurn ι K)),
      (∀ round ∈ rounds, ∀ i, i ∈ round.map Prod.fst) → 7 * Fintype.card ι ≤ rounds.length →
        ∀ i, ((now.run connectionPool rounds.flatten).program i).Finished := by
  intro now
  have hnow : LockScoped calls now := (LockScoped.start calls).run before
  refine ⟨hnow.live, fun rounds fair enough => ?_⟩
  have hstart : (databaseSystem calls : DatabaseConfig ι K).Bounded (7 * Fintype.card ι) := by
    refine ⟨fun _ => 7, fun i => (calls i).program_atMost, ?_⟩
    simp [Finset.card_univ, mul_comm]
  exact Config.fair_finishes (fun cfg turn held => held.run [turn])
    (fun _ held => held.live) fair hnow (hstart.after before) enough

def requestAndClearing : Bool → DatabaseOp
  | false => .getConnection { Tenant.new "t-1" "acme" with database := some "acme_db" }
  | true => .clearCache

def turnOfEach : List (DatabaseTurn Bool Unit) := [(false, .ok ()), (true, .ok ())]

theorem calls_always_complete_two :
    ∀ i, ((((databaseSystem requestAndClearing).run connectionPool [(false, .ok ())]).run
      connectionPool (List.replicate 14 turnOfEach).flatten).program i).Finished := by
  have hfair : ∀ round ∈ List.replicate 14 turnOfEach, ∀ i, i ∈ round.map Prod.fst := by
    intro round hround
    rw [List.eq_of_mem_replicate hround]
    decide
  refine (calls_always_complete requestAndClearing [(false, .ok ())]).2 _ hfair ?_
  simp

end Interleaved
end ArmatureTenancy

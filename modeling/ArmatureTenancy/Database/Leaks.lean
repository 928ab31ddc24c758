import ArmatureTenancy.Database.SingleFlight
import ArmatureTenancy.Database.Isolation
import ArmatureTenancy.Database.Progress

/-!
# No connection is leaked

A connection that was opened can be found in the map, or its call is about to put it
there, or an invalidation has dropped it from the map. In particular no insertion
overwrites the connection of another call.
-/

namespace ArmatureTenancy

open Foundations

variable {ι : Type*} {K : Type}

/-- The connection was put into the map, and then its entry was dropped. -/
def Discarded (h : DatabaseHistory ι K) (name : String) (conn : Connection K) : Prop :=
  ∃ newer dropping older, h = newer ++ dropping :: older ∧
    (dropping.2.1 = .clear ∨ dropping.2.1 = .remove name) ∧
    ∃ i, (i, ⟨.insert name conn, ()⟩) ∈ older

theorem Discarded.cons {h : DatabaseHistory ι K} {name : String} {conn : Connection K}
    (hdiscarded : Discarded h name conn) (x : ι × DatabaseExchange K) :
    Discarded (x :: h) name conn := by
  obtain ⟨newer, dropping, older, rfl, hdropping, hinserted⟩ := hdiscarded
  exact ⟨x :: newer, dropping, older, rfl, hdropping, hinserted⟩

variable [DecidableEq ι]

/-- What is in the map was inserted, and what was opened is the connection of its name
or was discarded. -/
structure Accounted (now : Moment ι (DatabaseState K) (DatabaseCall K) DatabaseCall.Answer) :
    Prop where
  inserted : ∀ name conn, now.state.connectionCache.lookup name = some conn →
    ∃ i, (i, ⟨.insert name conn, ()⟩) ∈ now.history
  opened : ∀ name conn, Opened now.history name conn →
    Current now name conn ∨ Discarded now.history name conn

section Step

variable {now : Moment ι (DatabaseState K) (DatabaseCall K) DatabaseCall.Answer} {i : ι}
  {calls : ι → DatabaseOp} {e : DatabaseCall K} {answer : e.Answer} {s' : DatabaseState K}

/-- Whoever drops the entry of a name holds the guard, so no other call is about to
insert a connection. -/
theorem Accounted.dropped (h : Accounted now) (hinv : PoolInvariant now) {name : String}
    {conn : Connection K} (hcurrent : Current now name conn)
    (hdrops : e = .clear ∨ e = .remove name)
    (hallowed : (guardDiscipline calls).allowed now.history i e) :
    Discarded ((i, ⟨e, answer⟩) :: now.history) name conn := by
  have hphase : guardPhase i now.history = .entered := by
    rcases hdrops with rfl | rfl <;> exact hallowed
  rcases hcurrent with hlookup | ⟨j, hj⟩
  · exact ⟨[], _, now.history, rfl, hdrops, h.inserted name conn hlookup⟩
  · have hij := hinv.exclusive.unique i j (holds_of_phase hphase trivial)
      (holds_of_phase hj trivial)
    subst hij
    cases hphase.symm.trans hj

theorem Accounted.step (h : Accounted now) (hinv : PoolInvariant now)
    (hallowed : (guardDiscipline calls).allowed now.history i e)
    (hstep : PoolStep now.state e answer s') :
    Accounted ⟨s', (i, ⟨e, answer⟩) :: now.history⟩ := by
  constructor
  · intro name conn hlookup
    rcases hstep.lookup_cases name with hsame | ⟨conn', rfl, hinserted⟩ | ⟨-, hnone⟩
    · obtain ⟨j, hj⟩ := h.inserted name conn (hsame.symm.trans hlookup)
      exact ⟨j, List.mem_cons_of_mem _ hj⟩
    · cases hinserted.symm.trans hlookup
      exact ⟨i, List.mem_cons_self⟩
    · cases hnone.symm.trans hlookup
  · intro name conn hopened
    rcases opened_cons_iff.mp hopened with heq | hopened
    · cases heq
      exact .inl (.inr ⟨i, phase_cons_self _ _ _ _ _⟩)
    · rcases h.opened name conn hopened with hcurrent | hdiscarded
      · rcases hstep.lookup_cases name with hsame | ⟨conn', -, hinserted⟩ | ⟨hdrops, -⟩
        · exact .inl (hcurrent.step hinv hallowed hstep fun hkept => by rwa [hsame])
        · exact .inl (hcurrent.step hinv hallowed hstep fun _ => by simp [hinserted])
        · exact .inr (h.dropped hinv hcurrent hdrops hallowed)
      · exact .inr (hdiscarded.cons _)

end Step

section Interleaved

variable (calls : ι → DatabaseOp)

theorem databaseSystem_accounted (schedule : List (DatabaseTurn ι K)) :
    Accounted ((databaseSystem calls).run connectionPool schedule).toMoment := by
  refine Config.run_invariant connectionPool (databaseSystem calls)
    (P := fun cfg => Accounted cfg.toMoment) (databaseSystem_holds calls) ?_ ?_ schedule
  · constructor
    · intro name conn hlookup
      cases hlookup
    · rintro name conn ⟨i, hmem⟩
      cases hmem
  · intro cfg turn hholds haccounted
    rcases hholds.step_cases turn with h | ⟨e, answer, s, p, hallowed, hstep, h⟩
    · rw [h]
      exact haccounted
    · rw [h]
      exact haccounted.step hholds.1 hallowed hstep

variable {calls} in
theorem inserts_of_phase {cfg : DatabaseConfig ι K} (holds : PoolHolds calls cfg)
    (held : LockScoped calls cfg) {i : ι} {name : String} {conn : Connection K}
    (hphase : guardPhase i cfg.history = .opened name conn) :
    ∃ rest, cfg.program i = .call (.insert name conn) rest := by
  have hfollows := holds.2 i
  cases hp : cfg.program i with
  | pure result =>
    have houtside := held.2 i
    rw [hp] at houtside
    cases hphase.symm.trans houtside
  | call e rest =>
    rw [hp] at hfollows
    obtain rfl := allowed_of_opened hfollows.1 hphase
    exact ⟨rest, rfl⟩

/-- In every interleaving, with any provider answers: each connection the provider has
opened is in the map under its name, or the next step of its call puts it there, or it
was put there and then dropped by a `clear_cache` or an `invalidate_tenant` of its name;
and a connection is only ever inserted where the map has none. -/
theorem no_connection_leaked (schedule : List (DatabaseTurn ι K)) :
    let now := (databaseSystem calls).run connectionPool schedule
    (∀ name conn, Opened now.history name conn →
      now.state.connectionCache.lookup name = some conn ∨
      (∃ i rest, now.program i = .call (.insert name conn) rest) ∨
      Discarded now.history name conn) ∧
    ∀ i name conn rest, now.program i = .call (.insert name conn) rest →
      now.state.connectionCache.lookup name = none := by
  intro now
  have hholds : PoolHolds calls now := databaseSystem_holds calls schedule
  have hheld : LockScoped calls now := (LockScoped.start calls).run schedule
  have haccounted : Accounted now.toMoment := databaseSystem_accounted calls schedule
  constructor
  · intro name conn hopened
    rcases haccounted.opened name conn hopened with (hlookup | ⟨i, hphase⟩) | hdiscarded
    · exact .inl hlookup
    · exact .inr (.inl ⟨i, inserts_of_phase hholds hheld hphase⟩)
    · exact .inr (.inr hdiscarded)
  · intro i name conn rest hp
    have hfollows := hholds.2 i
    rw [hp] at hfollows
    exact hholds.1.absent i name (by rw [hfollows.1]; rfl)

theorem no_connection_leaked_cleared :
    let now := (databaseSystem requestAndClearing).run connectionPool
      (List.replicate 7 (false, .ok ()) ++ List.replicate 4 (true, .ok ()))
    Discarded now.history "acme_db" ⟨0, ()⟩ := by
  intro now
  have hopened : Opened now.history "acme_db" ⟨0, ()⟩ := ⟨false, List.mem_of_getElem? (i := 5) rfl⟩
  rcases (no_connection_leaked requestAndClearing _).1 "acme_db" ⟨0, ()⟩ hopened with
    hlookup | ⟨i, rest, hp⟩ | hdiscarded
  · cases hlookup
  · cases i <;> cases hp
  · exact hdiscarded

end Interleaved
end ArmatureTenancy

import ArmatureTenancy.Database.Guards

/-!
# Single-flight opening of connections

As long as the entry of a database stays in the map, one connection at most is
opened for it, and every call is handed that one: it is in the map, or with the
only call that has opened a connection and not inserted it yet. A provider that
fails changes nothing, and the next miss asks it again.
-/

namespace ArmatureTenancy

open Foundations

variable {ι : Type*} {K : Type}

def openedFor (name : String) : ι × DatabaseExchange K → Option (Connection K)
  | (_, ⟨.finishOpen name', .ok conn⟩) => if name' = name then some conn else none
  | _ => none

def openings (name : String) (h : DatabaseHistory ι K) : List (Connection K) :=
  h.filterMap (openedFor name)

theorem call_of_openedFor {name : String} {i : ι} {e : DatabaseCall K} {answer : e.Answer}
    {conn : Connection K} (h : openedFor name (i, ⟨e, answer⟩) = some conn) :
    e = .finishOpen name := by
  unfold openedFor at h
  split at h
  · next heq =>
    cases heq
    split at h
    · next hname => rw [hname]
    · cases h
  · cases h

variable [DecidableEq ι]

theorem mem_openings {name : String} {h : DatabaseHistory ι K} {conn : Connection K}
    (hconn : conn ∈ openings name h) : ∃ i, (name, conn) ∈ handed i h := by
  obtain ⟨⟨i, x⟩, hx, hopened⟩ := List.mem_filterMap.mp hconn
  refine ⟨i, mem_allOwn.mpr ⟨x, hx, ?_⟩⟩
  unfold openedFor at hopened
  split at hopened
  · next heq =>
    obtain ⟨rfl, rfl⟩ := Prod.mk.inj heq
    split at hopened
    · next hname =>
      cases hopened
      rw [hname]
      rfl
    · cases hopened
  · cases hopened

/-- The connection of the name: in the map, or opened and about to be inserted. -/
def Current (now : Moment ι (DatabaseState K) (DatabaseCall K) DatabaseCall.Answer)
    (name : String) (conn : Connection K) : Prop :=
  now.state.connectionCache.lookup name = some conn ∨
    ∃ i, guardPhase i now.history = .opened name conn

section Step

variable {now : Moment ι (DatabaseState K) (DatabaseCall K) DatabaseCall.Answer} {i : ι}
  {name : String} {conn conn' : Connection K}

theorem Current.unique (hinv : PoolInvariant now) (h : Current now name conn)
    (h' : Current now name conn') : conn = conn' := by
  have clash {j : ι} {c c' : Connection K} (hj : guardPhase j now.history = .opened name c)
      (hc' : now.state.connectionCache.lookup name = some c') : False := by
    have hnone := hinv.absent j name (by rw [hj]; rfl)
    rw [hnone] at hc'
    cases hc'
  rcases h with h | ⟨j, hj⟩ <;> rcases h' with h' | ⟨k, hk⟩
  · exact Option.some.inj (h.symm.trans h')
  · exact (clash hk h).elim
  · exact (clash hj h').elim
  · have hjk := hinv.exclusive.unique j k (holds_of_phase hj trivial) (holds_of_phase hk trivial)
    subst hjk
    rw [hj] at hk
    cases hk
    rfl

variable {calls : ι → DatabaseOp} {e : DatabaseCall K} {answer : e.Answer} {s' : DatabaseState K}

/-- As long as no entry of the name is dropped, its connection stays. -/
theorem Current.step (hinv : PoolInvariant now)
    (hallowed : (guardDiscipline calls).allowed now.history i e)
    (hstep : PoolStep now.state e answer s')
    (kept : now.state.connectionCache.lookup name ≠ none → s'.connectionCache.lookup name ≠ none)
    (h : Current now name conn) : Current ⟨s', (i, ⟨e, answer⟩) :: now.history⟩ name conn := by
  rcases h with hlookup | ⟨j, hj⟩
  · rcases hstep.lookup_cases name with hsame | ⟨conn', rfl, -⟩ | ⟨-, hnone⟩
    · exact .inl (hsame.trans hlookup)
    · have habsent := hinv.absent i name (by rw [hallowed]; rfl)
      rw [habsent] at hlookup
      cases hlookup
    · exact absurd hnone (kept (by simp [hlookup]))
  · by_cases hji : i = j
    · subst hji
      obtain rfl := allowed_of_opened hallowed hj
      cases hstep
      exact .inl (AList.lookup_insert _)
    · exact .inr ⟨j, (phase_cons_other hji).trans hj⟩

theorem current_of_found {name' : String} {h : DatabaseHistory ι K}
    (hfound : (now.state.connectionCache.lookup name').map (fun conn => (name', conn)) =
      some (name, conn)) : Current ⟨now.state, h⟩ name conn := by
  obtain ⟨conn', hlookup, heq⟩ := Option.map_eq_some_iff.mp hfound
  cases heq
  exact .inl hlookup

theorem current_of_supplied (hstep : PoolStep now.state e answer s')
    (hsupplied : supplied (⟨e, answer⟩ : DatabaseExchange K) = some (name, conn)) :
    Current ⟨s', (i, ⟨e, answer⟩) :: now.history⟩ name conn := by
  cases hstep with
  | readLookup free =>
    rw [supplied_readLookup] at hsupplied
    exact current_of_found hsupplied
  | lookup =>
    rw [supplied_lookup] at hsupplied
    exact current_of_found hsupplied
  | @opened name' value =>
    cases hsupplied
    exact .inr ⟨i, phase_cons_self _ _ _ _ _⟩
  | _ => cases hsupplied

theorem not_current_of_opened (hinv : PoolInvariant now)
    (hallowed : (guardDiscipline calls).allowed now.history i (.finishOpen name)) :
    ¬ Current now name conn := by
  rintro (hlookup | ⟨j, hj⟩)
  · have habsent := hinv.absent i name (by rw [hallowed]; rfl)
    rw [habsent] at hlookup
    cases hlookup
  · have hij := hinv.exclusive.unique i j (holds_of_phase hallowed trivial)
      (holds_of_phase hj trivial)
    subst hij
    rw [hallowed] at hj
    cases hj

end Step

section Window

variable {calls : ι → DatabaseOp} {name : String} {start : DatabaseHistory ι K}

/-- Since the history `start`, what calls were handed for the name is its
connection, of which at most one was opened. -/
def OneConnection (name : String) (start : DatabaseHistory ι K) (cfg : DatabaseConfig ι K) : Prop :=
  ∃ fresh, cfg.history = fresh ++ start ∧ (openings name fresh).length ≤ 1 ∧
    ∀ i conn, (name, conn) ∈ handed i fresh → Current cfg.toMoment name conn

theorem OneConnection.step {cfg : DatabaseConfig ι K} (holds : PoolHolds calls cfg)
    (hone : OneConnection name start cfg) (turn : DatabaseTurn ι K)
    (kept : cfg.state.connectionCache.lookup name ≠ none →
      (cfg.step connectionPool turn).state.connectionCache.lookup name ≠ none) :
    OneConnection name start (cfg.step connectionPool turn) := by
  rcases holds.step_cases turn with h | ⟨e, answer, s, p, hallowed, hstep, h⟩
  · rw [h]
    exact hone
  · rw [h] at kept ⊢
    obtain ⟨fresh, hhistory, hcount, hcurrent⟩ := hone
    refine ⟨(turn.1, ⟨e, answer⟩) :: fresh, by simp [Config.advance, hhistory], ?_, ?_⟩
    · unfold openings at hcount ⊢
      cases hopened : openedFor name (turn.1, (⟨e, answer⟩ : DatabaseExchange K)) with
      | none =>
        rw [List.filterMap_cons_none hopened]
        exact hcount
      | some conn =>
        rw [List.filterMap_cons_some hopened]
        have hnone : openings name fresh = [] := by
          apply List.eq_nil_iff_forall_not_mem.mpr
          intro conn' hconn'
          obtain ⟨i, hsupplied⟩ := mem_openings hconn'
          obtain rfl := call_of_openedFor hopened
          exact not_current_of_opened holds.1 hallowed (hcurrent i conn' hsupplied)
        unfold openings at hnone
        rw [hnone]
        exact le_refl 1
    · intro i conn hconn
      obtain ⟨x, hx, hconn⟩ := mem_allOwn.mp hconn
      rcases List.mem_cons.mp hx with heq | hx
      · cases heq
        exact current_of_supplied hstep hconn
      · have hbefore := hcurrent i conn (mem_allOwn.mpr ⟨x, hx, hconn⟩)
        exact hbefore.step holds.1 hallowed hstep kept

def EntryKept (name : String) (cfg : DatabaseConfig ι K) : List (DatabaseTurn ι K) → Prop
  | [] => True
  | turn :: schedule =>
    (cfg.state.connectionCache.lookup name ≠ none →
      (cfg.step connectionPool turn).state.connectionCache.lookup name ≠ none) ∧
    EntryKept name (cfg.step connectionPool turn) schedule

instance decidableEntryKept [DecidableEq K] (name : String) :
    (cfg : DatabaseConfig ι K) → (schedule : List (DatabaseTurn ι K)) →
      Decidable (EntryKept name cfg schedule)
  | _, [] => .isTrue trivial
  | cfg, turn :: schedule =>
    have := decidableEntryKept name (cfg.step connectionPool turn) schedule
    inferInstanceAs (Decidable (_ ∧ _))

theorem OneConnection.run {cfg : DatabaseConfig ι K} (holds : PoolHolds calls cfg)
    (hone : OneConnection name start cfg) {schedule : List (DatabaseTurn ι K)}
    (kept : EntryKept name cfg schedule) :
    OneConnection name start (cfg.run connectionPool schedule) := by
  induction schedule generalizing cfg with
  | nil => exact hone
  | cons turn schedule ih => exact ih (holds.run [turn]) (hone.step holds turn kept.1) kept.2

end Window

section Nodes

open DatabaseProgram

/-- After a miss the call looks again under the guard, and asks the provider if it
misses again; when the provider fails, the call gives up the guard and returns
the error. -/
def AsksProvider : (e : DatabaseCall K) →
    (e.Answer → DatabaseProgram K (DatabaseResult K)) → Prop
  | .readLookup name, rest => rest none = .call .acquireWrite fun _ => recheck name
  | .lookup name, rest => ∃ next, rest none = .call (.beginOpen name) next
  | .finishOpen _, rest => ∀ e, rest (.error e) = finish (.error e)
  | _, _ => True

omit [DecidableEq ι] in
theorem DatabaseOp.program_nodes (op : DatabaseOp) :
    (op.program (K := K)).Nodes AsksProvider := by
  have hfinish (result : DatabaseResult K) : (finish result).Nodes AsksProvider :=
    ⟨trivial, fun _ => trivial⟩
  have hrecheck (name : String) : (recheck (K := K) name).Nodes AsksProvider := by
    refine ⟨⟨_, rfl⟩, fun found => ?_⟩
    cases found with
    | some conn => exact hfinish _
    | none =>
      refine ⟨trivial, fun _ => ⟨fun e => rfl, fun answer => ?_⟩⟩
      cases answer with
      | error e => exact hfinish _
      | ok conn => exact ⟨trivial, fun _ => hfinish _⟩
  cases op with
  | getConnection tenant =>
    cases hname : tenant.database with
    | none =>
      rw [program_getConnection_none hname]
      trivial
    | some name =>
      rw [program_getConnection hname]
      refine ⟨rfl, fun found => ?_⟩
      cases found with
      | some conn => trivial
      | none => exact ⟨trivial, fun _ => hrecheck name⟩
  | clearCache => exact ⟨trivial, fun _ => ⟨trivial, fun _ => hfinish _⟩⟩
  | invalidateTenant tenant =>
    cases hname : tenant.database with
    | none =>
      rw [program_invalidateTenant_none hname]
      trivial
    | some name =>
      rw [program_invalidateTenant hname]
      exact ⟨trivial, fun _ => ⟨trivial, fun _ => hfinish _⟩⟩

end Nodes

/-- In every interleaving, after any moment `before` and as long as the entry of a
name is not dropped, at most one connection is opened for the name and all calls
are handed the same one. A call that returns a connection was handed it for its
own tenant's database, for which the provider had opened it. A provider that fails
leaves the map as it was, without an entry of the name, and the next call to miss
asks it again. -/
theorem single_flight (calls : ι → DatabaseOp) {before middle : List (DatabaseTurn ι K)}
    {name : String}
    (kept : EntryKept name ((databaseSystem calls).run connectionPool before) middle) :
    let now := (databaseSystem calls).run connectionPool (before ++ middle)
    (∃ fresh, now.history = fresh ++ ((databaseSystem calls).run connectionPool before).history ∧
      (openings name fresh).length ≤ 1 ∧
      ∀ i j conn conn', (name, conn) ∈ handed i fresh → (name, conn') ∈ handed j fresh →
        conn = conn') ∧
    (∀ i tenant conn, calls i = .getConnection tenant → now.program i = .pure (.ok (some conn)) →
      ∃ database, tenant.database = some database ∧ handed i now.history = [(database, conn)] ∧
        Opened now.history database conn) ∧
    (∀ i database rest e, now.program i = .call (.finishOpen database) rest →
      let failed := now.step connectionPool (i, .error e)
      failed.state.connectionCache = now.state.connectionCache ∧
        failed.state.connectionCache.lookup database = none ∧
        failed.program i = DatabaseProgram.finish (.error e)) ∧
    ∀ i e rest, now.program i = .call e rest → AsksProvider e rest := by
  have hbefore := databaseSystem_holds (K := K) calls before
  have hnow := databaseSystem_holds (K := K) calls (before ++ middle)
  have hnodes : ∀ i, (((databaseSystem calls).run connectionPool
      (before ++ middle)).program i).Nodes (AsksProvider (K := K)) :=
    Config.run_nodes connectionPool (databaseSystem calls)
      (fun i => (calls i).program_nodes) (before ++ middle)
  refine ⟨?_, ?_, ?_, ?_⟩
  · have hone : OneConnection name ((databaseSystem calls).run connectionPool before).history
        ((databaseSystem calls).run connectionPool before) := by
      refine ⟨[], rfl, Nat.zero_le 1, ?_⟩
      intro i conn hconn
      cases hconn
    obtain ⟨fresh, hhistory, hcount, hcurrent⟩ := hone.run hbefore kept
    rw [← Config.run_append] at hhistory hcurrent
    refine ⟨fresh, hhistory, hcount, ?_⟩
    intro i j conn conn' hi hj
    exact (hcurrent i conn hi).unique hnow.1 (hcurrent j conn' hj)
  · intro i tenant conn hop hresult
    have hpost := hnow.2 i
    rw [hresult] at hpost
    obtain ⟨database, hdatabase, hgiven⟩ := hpost.1 tenant conn hop rfl
    exact ⟨database, hdatabase, hgiven, hnow.1.origin i database conn (by rw [hgiven]; simp)⟩
  · intro i database rest e hp
    have hfollow := hnow.2 i
    have hfails := hnodes i
    rw [hp] at hfollow hfails
    have hanswered : connectionPool (.error e)
        ((databaseSystem calls).run connectionPool (before ++ middle)).state
          (.finishOpen database) = some (.error e, _) := rfl
    rw [Config.step_call connectionPool _ hp hanswered]
    refine ⟨rfl, ?_, ?_⟩
    · exact hnow.1.absent i database (by rw [hfollow.1]; rfl)
    · simpa [Config.advance] using hfails.1 e
  · intro i e rest hp
    have hnode := hnodes i
    rw [hp] at hnode
    exact hnode.1

def acmeRequests : Fin 2 → DatabaseOp := fun _ =>
  .getConnection ((Tenant.new "t-1" "acme").withDatabase "acme_db")

/-- Both requests miss before either takes the guard; the second one waits for it
while the first one opens the connection. -/
def stampede : List (DatabaseTurn (Fin 2) ℕ) :=
  [(0, .ok 7), (1, .ok 8), (0, .ok 7), (1, .ok 8), (0, .ok 7), (0, .ok 7), (0, .ok 7), (0, .ok 7),
    (0, .ok 7), (1, .ok 8), (1, .ok 8), (1, .ok 8)]

theorem single_flight_stampede :
    let now := (databaseSystem acmeRequests).run connectionPool stampede
    ∃ conn, now.program 0 = .pure (.ok (some conn)) ∧ now.program 1 = .pure (.ok (some conn)) ∧
      (openings "acme_db" now.history).length ≤ 1 := by
  refine ⟨⟨0, 7⟩, rfl, rfl, ?_⟩
  have hkept : EntryKept "acme_db" ((databaseSystem acmeRequests).run connectionPool [])
      stampede := by
    decide
  obtain ⟨fresh, hhistory, hcount, -⟩ :=
    (single_flight acmeRequests hkept).1
  rw [List.nil_append] at hhistory
  rw [hhistory]
  simpa [databaseSystem] using hcount

end ArmatureTenancy

import ArmatureTenancy.Database.TenantDatabaseManager
import ArmatureTenancy.Foundations.Maps
import ArmatureTenancy.Foundations.Phases

/-!
# Calls under the write guard

Where a call of the database manager is can be read off its last step. The write
guard excludes other writers, so from a miss under the guard to the insertion the
map has no entry of the name: whoever asks the provider for a connection is the
only one who does, and what a call returns was cached or opened for its database.
-/

namespace ArmatureTenancy

open Foundations

variable {ι : Type*} {K : Type}

abbrev DatabaseExchange (K : Type) := Exchange (DatabaseCall K) DatabaseCall.Answer

abbrev DatabaseHistory (ι : Type*) (K : Type) := History ι (DatabaseCall K) DatabaseCall.Answer

/-- Where a call is, from taking the write guard to dropping it. -/
inductive GuardPhase (K : Type) where
  | outside
  | entered
  | missed (databaseName : String)
  | opening (databaseName : String)
  | opened (databaseName : String) (conn : Connection K)
  | leaving

namespace GuardPhase

def Holds : GuardPhase K → Prop
  | .outside => False
  | _ => True

/-- The call has found no entry of the name and has not inserted one. -/
def Awaits (databaseName : String) : GuardPhase K → Prop
  | .missed name => name = databaseName
  | .opening name => name = databaseName
  | .opened name _ => name = databaseName
  | _ => False

theorem Awaits.holds {databaseName : String} {p : GuardPhase K} (h : p.Awaits databaseName) :
    p.Holds := by
  cases p with
  | outside => exact h
  | _ => trivial

end GuardPhase

def phaseAfter : DatabaseExchange K → GuardPhase K
  | ⟨.readLookup _, _⟩ => .outside
  | ⟨.acquireWrite, _⟩ => .entered
  | ⟨.lookup name, none⟩ => .missed name
  | ⟨.lookup _, some _⟩ => .leaving
  | ⟨.beginOpen name, _⟩ => .opening name
  | ⟨.finishOpen name, .ok conn⟩ => .opened name conn
  | ⟨.finishOpen _, .error _⟩ => .leaving
  | ⟨.insert _ _, _⟩ => .leaving
  | ⟨.clear, _⟩ => .leaving
  | ⟨.remove _, _⟩ => .leaving
  | ⟨.releaseWrite, _⟩ => .outside

abbrev guardPhase [DecidableEq ι] (i : ι) (h : DatabaseHistory ι K) : GuardPhase K :=
  phase .outside phaseAfter i h

/-- The connection a step hands to its call, and the name it was asked for. -/
def supplied : DatabaseExchange K → Option (String × Connection K)
  | ⟨.readLookup name, some conn⟩ => some (name, conn)
  | ⟨.lookup name, some conn⟩ => some (name, conn)
  | ⟨.finishOpen name, .ok conn⟩ => some (name, conn)
  | _ => none

theorem supplied_readLookup (name : String) (found : Option (Connection K)) :
    supplied (⟨.readLookup name, found⟩ : DatabaseExchange K) =
      found.map fun conn => (name, conn) := by
  cases found <;> rfl

theorem supplied_lookup (name : String) (found : Option (Connection K)) :
    supplied (⟨.lookup name, found⟩ : DatabaseExchange K) =
      found.map fun conn => (name, conn) := by
  cases found <;> rfl

def Opened (h : DatabaseHistory ι K) (name : String) (conn : Connection K) : Prop :=
  ∃ i, (i, ⟨.finishOpen name, .ok conn⟩) ∈ h

theorem Opened.mono {h h' : DatabaseHistory ι K} {name : String} {conn : Connection K}
    (ho : Opened h name conn) (hsub : h ⊆ h') : Opened h' name conn := by
  obtain ⟨i, hi⟩ := ho
  exact ⟨i, hsub hi⟩

theorem phaseAfter_opened {x : DatabaseExchange K} {name : String} {conn : Connection K}
    (h : phaseAfter x = .opened name conn) : x = ⟨.finishOpen name, .ok conn⟩ := by
  obtain ⟨e, r⟩ := x
  cases e with
  | lookup n => cases r <;> cases h
  | finishOpen n => cases r <;> cases h; rfl
  | _ => cases h

theorem phaseAfter_opening {x : DatabaseExchange K} {name : String}
    (h : phaseAfter x = .opening name) : x = ⟨.beginOpen name, ()⟩ := by
  obtain ⟨e, r⟩ := x
  cases e with
  | lookup n => cases r <;> cases h
  | finishOpen n => cases r <;> cases h
  | beginOpen n => cases h; rfl
  | _ => cases h

theorem phaseAfter_entered {x : DatabaseExchange K} (h : phaseAfter x = .entered) :
    x = ⟨.acquireWrite, ()⟩ := by
  obtain ⟨e, r⟩ := x
  cases e with
  | lookup n => cases r <;> cases h
  | finishOpen n => cases r <;> cases h
  | acquireWrite => rfl
  | _ => cases h

/-- The operation drops the cached connection of the name, if there is one. -/
def DatabaseOp.Invalidates (op : DatabaseOp) (name : String) : Prop :=
  match op with
  | .clearCache => True
  | .invalidateTenant tenant => tenant.database = some name
  | .getConnection _ => False

def Dropped (h : DatabaseHistory ι K) (i : ι) (name : String) : Prop :=
  (i, ⟨.clear, ()⟩) ∈ h ∨ ∃ found, (i, ⟨.remove name, found⟩) ∈ h

theorem Dropped.mono {h h' : DatabaseHistory ι K} {i : ι} {name : String}
    (hd : Dropped h i name) (hsub : h ⊆ h') : Dropped h' i name := by
  rcases hd with hd | ⟨found, hd⟩
  · exact .inl (hsub hd)
  · exact .inr ⟨found, hsub hd⟩

variable [DecidableEq ι]

/-- The connections a call was handed and the names it asked for, the most recent
one first. -/
abbrev handed (i : ι) (h : DatabaseHistory ι K) : List (String × Connection K) :=
  allOwn i supplied h

theorem handed_first {i : ι} {h : DatabaseHistory ι K} {x : DatabaseExchange K}
    {given : String × Connection K} (hnone : handed i h = []) (hx : supplied x = some given) :
    handed i ((i, x) :: h) = [given] := by
  rw [handed, allOwn_cons_some hx]
  exact congrArg (given :: ·) hnone

/-- Each step is taken in its own phase; a call returns the one connection it was
handed, for its tenant's database; an invalidation has dropped the entry. -/
def guardDiscipline (calls : ι → DatabaseOp) :
    Discipline ι (DatabaseCall K) DatabaseCall.Answer (DatabaseResult K) where
  allowed h i
    | .readLookup _ => guardPhase i h = .outside
    | .acquireWrite => guardPhase i h = .outside
    | .lookup _ => guardPhase i h = .entered
    | .beginOpen name => guardPhase i h = .missed name
    | .finishOpen name => guardPhase i h = .opening name
    | .insert name conn => guardPhase i h = .opened name conn
    | .clear => guardPhase i h = .entered
    | .remove _ => guardPhase i h = .entered
    | .releaseWrite => guardPhase i h = .leaving
  answers _ _ _ _ := True
  post h i result :=
    (∀ tenant conn, calls i = .getConnection tenant → result = .ok (some conn) →
      ∃ name, tenant.database = some name ∧ handed i h = [(name, conn)]) ∧
    ∀ name, (calls i).Invalidates name → Dropped h i name
  allowed_stable := by
    intro h h' i e moved hallowed
    have hphase : guardPhase i h' = guardPhase i h := moved.phase_eq
    cases e <;> exact hphase.trans hallowed
  post_stable := by
    intro h h' i result moved hpost
    constructor
    · intro tenant conn hop hresult
      obtain ⟨name, hname, hs⟩ := hpost.1 tenant conn hop hresult
      exact ⟨name, hname, moved.allOwn_eq.trans hs⟩
    · intro name hop
      exact (hpost.2 name hop).mono moved.subset

theorem holds_of_phase {i : ι} {h : DatabaseHistory ι K} {p : GuardPhase K}
    (hphase : guardPhase i h = p) (hp : p.Holds) : (guardPhase i h).Holds := hphase ▸ hp

theorem allowed_of_opened {calls : ι → DatabaseOp} {h : DatabaseHistory ι K} {i : ι}
    {e : DatabaseCall K} {name : String} {conn : Connection K}
    (hallowed : (guardDiscipline calls).allowed h i e)
    (hphase : guardPhase i h = .opened name conn) : e = .insert name conn := by
  cases e with
  | insert name' conn' =>
    have heq := hallowed.symm.trans hphase
    cases heq
    rfl
  | _ =>
    have heq := hallowed.symm.trans hphase
    cases heq

section Programs

open DatabaseProgram

variable {calls : ι → DatabaseOp} {i : ι} {h : DatabaseHistory ι K}

theorem follows_finish {result : DatabaseResult K} (hphase : guardPhase i h = .leaving)
    (hpost : (guardDiscipline calls).post h i result) :
    (finish result).Follows (guardDiscipline calls) i h := by
  refine ⟨hphase, fun h' r moved _ => ?_⟩
  have hpost' := (guardDiscipline calls).post_stable moved hpost
  constructor
  · intro tenant conn hop hresult
    obtain ⟨name, hname, hs⟩ := hpost'.1 tenant conn hop hresult
    exact ⟨name, hname, (allOwn_cons_none rfl).trans hs⟩
  · intro name hop
    exact (hpost'.2 name hop).mono (List.subset_cons_self _ _)

theorem post_supplied {tenant : Tenant} {name : String} {conn : Connection K}
    (hop : calls i = .getConnection tenant) (hname : tenant.database = some name)
    (hs : handed i h = [(name, conn)]) : (guardDiscipline calls).post h i (.ok (some conn)) := by
  constructor
  · intro tenant' conn' hop' hconn
    rw [hop] at hop'
    cases hop'
    cases hconn
    exact ⟨name, hname, hs⟩
  · intro name' hinvalidates
    rw [hop] at hinvalidates
    exact hinvalidates.elim

theorem post_error {tenant : Tenant} {e : TenantError} (hop : calls i = .getConnection tenant) :
    (guardDiscipline (K := K) calls).post h i (.error e) := by
  constructor
  · intro tenant' conn _ hconn
    cases hconn
  · intro name hinvalidates
    rw [hop] at hinvalidates
    exact hinvalidates.elim

theorem follows_recheck {tenant : Tenant} {name : String} (hop : calls i = .getConnection tenant)
    (hname : tenant.database = some name) (hphase : guardPhase i h = .entered)
    (hnone : handed i h = []) :
    (recheck name).Follows (guardDiscipline (K := K) calls) i h := by
  refine ⟨hphase, fun h₁ found moved₁ _ => ?_⟩
  have hnone₁ := moved₁.allOwn_eq.trans hnone
  cases found with
  | some conn =>
    apply follows_finish (phase_cons_self _ _ _ _ _)
    exact post_supplied hop hname (handed_first hnone₁ rfl)
  | none =>
    refine ⟨phase_cons_self _ _ _ _ _, fun h₂ _ moved₂ _ => ?_⟩
    have hnone₂ := moved₂.allOwn_eq.trans ((allOwn_cons_none rfl).trans hnone₁)
    refine ⟨phase_cons_self _ _ _ _ _, fun h₃ answer moved₃ _ => ?_⟩
    have hnone₃ := moved₃.allOwn_eq.trans ((allOwn_cons_none rfl).trans hnone₂)
    cases answer with
    | error e => exact follows_finish (phase_cons_self _ _ _ _ _) (post_error hop)
    | ok conn =>
      refine ⟨phase_cons_self _ _ _ _ _, fun h₄ _ moved₄ _ => ?_⟩
      apply follows_finish (phase_cons_self _ _ _ _ _)
      have hs : handed i ((i, ⟨.finishOpen name, .ok conn⟩) :: h₃) = [(name, conn)] :=
        handed_first hnone₃ rfl
      exact post_supplied hop hname ((allOwn_cons_none rfl).trans (moved₄.allOwn_eq.trans hs))

theorem post_dropped {op : DatabaseOp} (hop : calls i = op)
    (hnot : ∀ tenant, op ≠ .getConnection tenant)
    (hdropped : ∀ name, op.Invalidates name → Dropped h i name) :
    (guardDiscipline (K := K) calls).post h i (.ok none) := by
  subst hop
  constructor
  · intro tenant conn hget
    exact absurd hget (hnot tenant)
  · exact hdropped

theorem DatabaseOp.program_follows (op : DatabaseOp) (hop : calls i = op)
    (hphase : guardPhase i h = .outside) (hnone : handed i h = []) :
    op.program.Follows (guardDiscipline (K := K) calls) i h := by
  cases op with
  | getConnection tenant =>
    cases hname : tenant.database with
    | none =>
      rw [program_getConnection_none hname]
      exact post_error hop
    | some name =>
      rw [program_getConnection hname]
      refine ⟨hphase, fun h₁ found moved₁ _ => ?_⟩
      have hnone₁ := moved₁.allOwn_eq.trans hnone
      cases found with
      | some conn => exact post_supplied hop hname (handed_first hnone₁ rfl)
      | none =>
        refine ⟨phase_cons_self _ _ _ _ _, fun h₂ _ moved₂ _ => ?_⟩
        have hnone₂ := moved₂.allOwn_eq.trans ((allOwn_cons_none rfl).trans hnone₁)
        exact follows_recheck hop hname (phase_cons_self _ _ _ _ _)
          ((allOwn_cons_none rfl).trans hnone₂)
  | clearCache =>
    rw [program_clearCache]
    refine ⟨hphase, fun h₁ _ _ _ => ⟨phase_cons_self _ _ _ _ _, fun h₂ _ _ _ => ?_⟩⟩
    apply follows_finish (phase_cons_self _ _ _ _ _)
    exact post_dropped hop (by simp) fun name _ => .inl List.mem_cons_self
  | invalidateTenant tenant =>
    cases hname : tenant.database with
    | none =>
      rw [program_invalidateTenant_none hname]
      apply post_dropped hop (by simp)
      intro name hinvalidates
      rw [Invalidates, hname] at hinvalidates
      cases hinvalidates
    | some name =>
      rw [program_invalidateTenant hname]
      refine ⟨hphase, fun h₁ _ _ _ => ⟨phase_cons_self _ _ _ _ _, fun h₂ found _ _ => ?_⟩⟩
      apply follows_finish (phase_cons_self _ _ _ _ _)
      apply post_dropped hop (by simp)
      intro name' hinvalidates
      rw [Invalidates, hname] at hinvalidates
      cases hinvalidates
      exact .inr ⟨found, List.mem_cons_self⟩

end Programs

/-- One writer at a time; nothing is cached under a name someone is about to open;
whatever is cached or was handed out had been opened for its name. -/
structure PoolInvariant
    (now : Moment ι (DatabaseState K) (DatabaseCall K) DatabaseCall.Answer) : Prop where
  exclusive : Exclusive .outside phaseAfter GuardPhase.Holds now.state.writing now.history
  absent : ∀ i name, (guardPhase i now.history).Awaits name →
    now.state.connectionCache.lookup name = none
  cached : ∀ name conn, now.state.connectionCache.lookup name = some conn →
    Opened now.history name conn
  origin : ∀ i name conn, (name, conn) ∈ handed i now.history → Opened now.history name conn

theorem opened_of_phase {i : ι} {h : DatabaseHistory ι K} {name : String} {conn : Connection K}
    (hphase : guardPhase i h = .opened name conn) : Opened h name conn := by
  have hne : guardPhase i h ≠ .outside := by
    rw [hphase]
    simp
  obtain ⟨x, older, moved, hx⟩ := exists_of_phase hne
  obtain rfl := phaseAfter_opened (hx.trans hphase)
  exact ⟨i, moved.subset List.mem_cons_self⟩

namespace PoolInvariant

variable {now : Moment ι (DatabaseState K) (DatabaseCall K) DatabaseCall.Answer} {i : ι}
  {x : DatabaseExchange K} {s' : DatabaseState K}

theorem keeps_unchanged (hinv : PoolInvariant now)
    (hex : Exclusive .outside phaseAfter GuardPhase.Holds s'.writing ((i, x) :: now.history))
    (hcache : s'.connectionCache = now.state.connectionCache)
    (hawaits : ∀ name, (phaseAfter x).Awaits name →
      now.state.connectionCache.lookup name = none)
    (hsupplied : ∀ name conn, supplied x = some (name, conn) →
      Opened ((i, x) :: now.history) name conn) :
    PoolInvariant ⟨s', (i, x) :: now.history⟩ := by
  refine ⟨hex, ?_, ?_, ?_⟩
  · intro j name hj
    rw [hcache]
    by_cases hji : i = j
    · subst hji
      rw [guardPhase, phase_cons_self] at hj
      exact hawaits name hj
    · rw [guardPhase, phase_cons_other hji] at hj
      exact hinv.absent j name hj
  · intro name conn hlookup
    rw [hcache] at hlookup
    exact (hinv.cached name conn hlookup).mono (List.subset_cons_self _ _)
  · intro j name conn hconn
    obtain ⟨y, hy, hconn⟩ := mem_allOwn.mp hconn
    rcases List.mem_cons.mp hy with heq | hy
    · cases heq
      exact hsupplied name conn hconn
    · have horigin := hinv.origin j name conn (mem_allOwn.mpr ⟨y, hy, hconn⟩)
      exact horigin.mono (List.subset_cons_self _ _)

theorem keeps_written (hinv : PoolInvariant now) (hholds : (guardPhase i now.history).Holds)
    (hwriting : s'.writing = now.state.writing) (hleaving : phaseAfter x = .leaving)
    (hcached : ∀ name conn, s'.connectionCache.lookup name = some conn →
      Opened now.history name conn)
    (hsupplied : supplied x = none) : PoolInvariant ⟨s', (i, x) :: now.history⟩ := by
  refine ⟨?_, ?_, ?_, ?_⟩
  · rw [hwriting]
    exact hinv.exclusive.move hholds fun _ => hinv.exclusive.taken i hholds
  · intro j name hj
    exfalso
    by_cases hji : i = j
    · subst hji
      rw [guardPhase, phase_cons_self, hleaving] at hj
      exact hj
    · rw [guardPhase, phase_cons_other hji] at hj
      exact hji (hinv.exclusive.unique i j hholds hj.holds)
  · intro name conn hlookup
    exact (hcached name conn hlookup).mono (List.subset_cons_self _ _)
  · intro j name conn hconn
    obtain ⟨y, hy, hconn⟩ := mem_allOwn.mp hconn
    rcases List.mem_cons.mp hy with heq | hy
    · cases heq
      rw [hsupplied] at hconn
      cases hconn
    · have horigin := hinv.origin j name conn (mem_allOwn.mpr ⟨y, hy, hconn⟩)
      exact horigin.mono (List.subset_cons_self _ _)

theorem opened_of_found (hinv : PoolInvariant now) {looked name : String} {conn : Connection K}
    (hconn : (now.state.connectionCache.lookup looked).map (fun conn => (looked, conn)) =
      some (name, conn)) : Opened ((i, x) :: now.history) name conn := by
  obtain ⟨conn', hlookup, heq⟩ := Option.map_eq_some_iff.mp hconn
  cases heq
  exact (hinv.cached looked conn hlookup).mono (List.subset_cons_self _ _)

theorem keeps {calls : ι → DatabaseOp} (hinv : PoolInvariant now) {e : DatabaseCall K}
    {answer : e.Answer} (hallowed : (guardDiscipline calls).allowed now.history i e)
    (hstep : PoolStep now.state e answer s') :
    PoolInvariant ⟨s', (i, ⟨e, answer⟩) :: now.history⟩ := by
  have hex := hinv.exclusive
  cases hstep with
  | readLookup free =>
    refine hinv.keeps_unchanged (hex.pass id) rfl (fun _ h => False.elim h) ?_
    intro name' conn hconn
    rw [supplied_readLookup] at hconn
    exact hinv.opened_of_found hconn
  | acquireWrite free =>
    rw [free] at hex
    exact hinv.keeps_unchanged (hex.enter i _) rfl (fun _ h => False.elim h) (by simp [supplied])
  | @lookup name =>
    have hin := holds_of_phase hallowed trivial
    refine hinv.keeps_unchanged (hex.move hin fun _ => hex.taken i hin) rfl ?_ ?_
    · intro name' hawaits
      cases hlookup : now.state.connectionCache.lookup name with
      | some conn =>
        rw [hlookup] at hawaits
        exact hawaits.elim
      | none =>
        rw [hlookup] at hawaits
        exact hawaits ▸ hlookup
    · intro name' conn hconn
      rw [supplied_lookup] at hconn
      exact hinv.opened_of_found hconn
  | @beginOpen name =>
    have hin := holds_of_phase hallowed trivial
    refine hinv.keeps_unchanged (hex.move hin fun _ => hex.taken i hin) rfl ?_ (by simp [supplied])
    intro name' hawaits
    exact hinv.absent i name' (by rw [hallowed]; exact hawaits)
  | @opened name value =>
    have hin := holds_of_phase hallowed trivial
    refine hinv.keeps_unchanged (hex.move hin fun _ => hex.taken i hin) rfl ?_ ?_
    · intro name' hawaits
      exact hinv.absent i name' (by rw [hallowed]; exact hawaits)
    · intro name' conn hconn
      cases hconn
      exact ⟨i, List.mem_cons_self⟩
  | openFailed =>
    have hin := holds_of_phase hallowed trivial
    exact hinv.keeps_unchanged (hex.move hin fun _ => hex.taken i hin) rfl (fun _ h => False.elim h)
      (by simp [supplied])
  | @insert name conn =>
    refine hinv.keeps_written (holds_of_phase hallowed trivial) rfl rfl ?_ rfl
    intro name' conn' hlookup
    change (now.state.connectionCache.insert name conn).lookup name' = some conn' at hlookup
    rw [lookup_insert_eq] at hlookup
    split at hlookup
    · next hname =>
      cases hlookup
      exact hname ▸ opened_of_phase hallowed
    · exact hinv.cached name' conn' hlookup
  | clear =>
    refine hinv.keeps_written (holds_of_phase hallowed trivial) rfl rfl ?_ rfl
    intro name' conn' hlookup
    cases hlookup
  | @remove name =>
    refine hinv.keeps_written (holds_of_phase hallowed trivial) rfl rfl ?_ rfl
    intro name' conn' hlookup
    change (now.state.connectionCache.erase name).lookup name' = some conn' at hlookup
    rw [lookup_erase_eq] at hlookup
    split at hlookup
    · cases hlookup
    · exact hinv.cached name' conn' hlookup
  | releaseWrite =>
    have hin := holds_of_phase hallowed trivial
    exact hinv.keeps_unchanged (hex.move hin fun h => False.elim h) rfl (fun _ h => False.elim h)
      (by simp [supplied])

end PoolInvariant

section Interleaved

abbrev DatabaseConfig (ι : Type*) (K : Type) :=
  Config ι (DatabaseState K) (DatabaseCall K) DatabaseCall.Answer (DatabaseResult K)

abbrev DatabaseTurn (ι : Type*) (K : Type) := ι × Except TenantError K

def databaseSystem (calls : ι → DatabaseOp) : DatabaseConfig ι K where
  state := .new
  history := []
  program := fun i => (calls i).program

/-- The invariant, and all calls still to be made in their phases. -/
def PoolHolds (calls : ι → DatabaseOp) (cfg : DatabaseConfig ι K) : Prop :=
  PoolInvariant cfg.toMoment ∧ ∀ i, (cfg.program i).Follows (guardDiscipline calls) i cfg.history

variable {calls : ι → DatabaseOp}

theorem PoolHolds.run {cfg : DatabaseConfig ι K} (holds : PoolHolds calls cfg)
    (schedule : List (DatabaseTurn ι K)) : PoolHolds calls (cfg.run connectionPool schedule) := by
  refine Config.run_follows ?_ holds.1 holds.2 schedule
  intro outcome now i e answer s' hinv hallowed hstep
  exact ⟨trivial, hinv.keeps hallowed (pool_step hstep)⟩

variable (calls) in
theorem databaseSystem_holds (schedule : List (DatabaseTurn ι K)) :
    PoolHolds calls ((databaseSystem calls).run connectionPool schedule) := by
  apply PoolHolds.run
  constructor
  · refine ⟨⟨fun i h => h.elim, fun i j h => h.elim⟩, fun i name h => h.elim, ?_, ?_⟩
    · intro name conn hlookup
      cases hlookup
    · intro i name conn hconn
      cases hconn
  · intro i
    exact (calls i).program_follows rfl rfl rfl

/-- What one turn does: nothing, or one step its call is allowed to take. -/
theorem PoolHolds.step_cases {cfg : DatabaseConfig ι K} (holds : PoolHolds calls cfg)
    (turn : DatabaseTurn ι K) :
    cfg.step connectionPool turn = cfg ∨
      ∃ e answer s p, (guardDiscipline calls).allowed cfg.history turn.1 e ∧
        PoolStep cfg.state e answer s ∧
        cfg.step connectionPool turn = cfg.advance turn.1 e answer s p := by
  rcases cfg.step_cases connectionPool turn with h | ⟨e, rest, r, s, hp, hr, h⟩
  · exact .inl h
  · have hfollow := holds.2 turn.1
    rw [hp] at hfollow
    exact .inr ⟨e, r, s, rest r, hfollow.1, pool_step hr, h⟩

end Interleaved
end ArmatureTenancy

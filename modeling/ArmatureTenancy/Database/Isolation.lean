import ArmatureTenancy.Database.Guards
import ArmatureTenancy.Database.NamePatterns

/-!
# Databases of their own

Every opening of a connection is for one database name, and the map hands a connection
out under that name only. With generated names, whose tenants can be told from them, no
two tenants ever share a connection.
-/

namespace ArmatureTenancy

open Foundations

variable {ι : Type*} {K : Type}

theorem opened_cons_iff {h : DatabaseHistory ι K} {i : ι} {x : DatabaseExchange K} {name : String}
    {conn : Connection K} :
    Opened ((i, x) :: h) name conn ↔ x = ⟨.finishOpen name, .ok conn⟩ ∨ Opened h name conn := by
  constructor
  · rintro ⟨j, hmem⟩
    rcases List.mem_cons.mp hmem with heq | hmem
    · exact .inl (Prod.mk.inj heq).2.symm
    · exact .inr ⟨j, hmem⟩
  · rintro (rfl | hopened)
    · exact ⟨i, List.mem_cons_self⟩
    · exact hopened.mono (List.subset_cons_self _ _)

/-- The openings are counted, and each of them was for one name. -/
structure Numbered (now : Moment ι (DatabaseState K) (DatabaseCall K) DatabaseCall.Answer) :
    Prop where
  below : ∀ name conn, Opened now.history name conn → conn.opening < now.state.opened
  single : ∀ name name' conn conn', Opened now.history name conn →
    Opened now.history name' conn' → conn.opening = conn'.opening → name = name' ∧ conn = conn'

namespace Numbered

variable {now : Moment ι (DatabaseState K) (DatabaseCall K) DatabaseCall.Answer} {i : ι}

theorem quiet (hinv : Numbered now) {x : DatabaseExchange K} {s' : DatabaseState K}
    (hopened : s'.opened = now.state.opened)
    (hx : ∀ name conn, x ≠ ⟨.finishOpen name, .ok conn⟩) :
    Numbered ⟨s', (i, x) :: now.history⟩ := by
  have before {name : String} {conn : Connection K} (h : Opened ((i, x) :: now.history) name conn) :
      Opened now.history name conn :=
    (opened_cons_iff.mp h).resolve_left (hx name conn)
  constructor
  · intro name conn h
    rw [hopened]
    exact hinv.below name conn (before h)
  · intro name name' conn conn' h h'
    exact hinv.single name name' conn conn' (before h) (before h')

theorem step (hinv : Numbered now) {e : DatabaseCall K} {answer : e.Answer}
    {s' : DatabaseState K} (hstep : PoolStep now.state e answer s') :
    Numbered ⟨s', (i, ⟨e, answer⟩) :: now.history⟩ := by
  cases hstep with
  | @opened name value =>
    have fresh {name' : String} {conn : Connection K} (h : Opened now.history name' conn) :
        conn.opening ≠ now.state.opened := Nat.ne_of_lt (hinv.below name' conn h)
    constructor
    · intro name' conn h
      rcases opened_cons_iff.mp h with heq | h
      · cases heq
        exact Nat.lt_succ_self _
      · exact (hinv.below name' conn h).trans (Nat.lt_succ_self _)
    · intro name₁ name₂ conn₁ conn₂ h₁ h₂ hsame
      rcases opened_cons_iff.mp h₁ with heq₁ | h₁ <;> rcases opened_cons_iff.mp h₂ with heq₂ | h₂
      · cases heq₁
        cases heq₂
        exact ⟨rfl, rfl⟩
      · cases heq₁
        exact absurd hsame.symm (fresh h₂)
      · cases heq₂
        exact absurd hsame (fresh h₁)
      · exact hinv.single name₁ name₂ conn₁ conn₂ h₁ h₂ hsame
  | openFailed => exact hinv.quiet rfl (by simp)
  | _ => exact hinv.quiet rfl (by simp)

variable [DecidableEq ι]

theorem run (calls : ι → DatabaseOp) (schedule : List (DatabaseTurn ι K)) :
    Numbered ((databaseSystem calls).run connectionPool schedule).toMoment := by
  refine Config.run_induction connectionPool (databaseSystem calls)
    (P := fun cfg => Numbered cfg.toMoment) ?_ ?_ schedule
  · constructor
    · rintro name conn ⟨i, hmem⟩
      cases hmem
    · rintro name name' conn conn' ⟨i, hmem⟩
      cases hmem
  · intro cfg turn hinv
    rcases cfg.step_cases connectionPool turn with heq | ⟨e, rest, answer, s, -, hanswer, heq⟩
    · rw [heq]
      exact hinv
    · rw [heq]
      exact hinv.step (pool_step hanswer)

end Numbered

variable [DecidableEq ι]

/-- The tenant's database is the one the configuration generates for it. -/
structure TenantDatabaseConfig.Names (config : TenantDatabaseConfig) (tenant : Tenant) : Prop where
  generated : tenant.database = some (config.databaseName tenant)
  notRescanned : NotRescanned config.namePattern tenant

theorem TenantDatabaseConfig.Names.substituted {config : TenantDatabaseConfig} {tenant : Tenant}
    (names : config.Names tenant) :
    tenant.database = some (substituted config.namePattern tenant) := by
  rw [names.generated, databaseName, (generatedName_eq_iff _ _).mpr names.notRescanned]

theorem opened_of_returned (calls : ι → DatabaseOp) (schedule : List (DatabaseTurn ι K))
    {i : ι} {tenant : Tenant} {conn : Connection K} (hop : calls i = .getConnection tenant)
    (hresult : ((databaseSystem calls).run connectionPool schedule).program i =
      .pure (.ok (some conn))) :
    ∃ name, tenant.database = some name ∧
      Opened ((databaseSystem calls).run connectionPool schedule).history name conn := by
  obtain ⟨hinv, hfollows⟩ := databaseSystem_holds calls schedule
  have hpost := hfollows i
  rw [hresult] at hpost
  obtain ⟨name, hname, hgiven⟩ := hpost.1 tenant conn hop rfl
  exact ⟨name, hname, hinv.origin i name conn (by rw [hgiven]; simp)⟩

/-- In every interleaving of calls of the manager over databases with generated names,
under a pattern with `{id}` and without `{name}`: a call only returns connections that
were opened for the tenant's own name, and two calls return the same connection only if
their tenants have the same id. -/
theorem tenant_connections_isolated (config : TenantDatabaseConfig)
    (hid : .id ∈ patternParts config.namePattern.toList)
    (hname : .name ∉ patternParts config.namePattern.toList) (calls : ι → DatabaseOp)
    (names : ∀ i tenant, calls i = .getConnection tenant → config.Names tenant)
    (schedule : List (DatabaseTurn ι K)) :
    let now := (databaseSystem calls).run connectionPool schedule
    ∀ i tenant conn, calls i = .getConnection tenant →
      now.program i = .pure (.ok (some conn)) →
        Opened now.history (substituted config.namePattern tenant) conn ∧
        ∀ j tenant' conn', calls j = .getConnection tenant' →
          now.program j = .pure (.ok (some conn')) →
            conn.opening = conn'.opening → tenant.id = tenant'.id := by
  intro now i tenant conn hi hconn
  have opened {i : ι} {tenant : Tenant} {conn : Connection K} (hi : calls i = .getConnection tenant)
      (hconn : now.program i = .pure (.ok (some conn))) :
      Opened now.history (substituted config.namePattern tenant) conn := by
    obtain ⟨name, hdatabase, hopened⟩ := opened_of_returned calls schedule hi hconn
    rw [(names i tenant hi).substituted] at hdatabase
    cases hdatabase
    exact hopened
  refine ⟨opened hi hconn, fun j tenant' conn' hj hconn' hsame => ?_⟩
  have hnumbered := Numbered.run calls schedule
  have hnames := (hnumbered.single _ _ _ _ (opened hi hconn) (opened hj hconn') hsame).1
  exact substituted_injective hid hname hnames

def ownDatabases : Bool → DatabaseOp
  | false => .getConnection ((Tenant.new "t-1" "acme").withDatabase "tenant_t-1")
  | true => .getConnection ((Tenant.new "t-2" "globex").withDatabase "tenant_t-2")

theorem tenant_connections_isolated_two :
    let now := (databaseSystem ownDatabases).run connectionPool
      (List.replicate 7 (false, .ok ()) ++ List.replicate 7 (true, .ok ()))
    now.program false = .pure (.ok (some ⟨0, ()⟩)) ∧
      Opened now.history "tenant_t-1" ⟨0, ()⟩ ∧
      ∀ conn, now.program true = .pure (.ok (some conn)) → conn.opening ≠ 0 := by
  intro now
  have hnames : ∀ i tenant, ownDatabases i = .getConnection tenant →
      TenantDatabaseConfig.default.Names tenant := by
    intro i tenant hi
    cases i <;> cases hi
    · exact ⟨by decide, .inr (by decide)⟩
    · exact ⟨by decide, .inr (by decide)⟩
  have hisolated := tenant_connections_isolated TenantDatabaseConfig.default (by decide)
    (by decide) ownDatabases hnames
    (List.replicate 7 (false, .ok ()) ++ List.replicate 7 (true, .ok ())) false _ ⟨0, ()⟩ rfl rfl
  refine ⟨rfl, hisolated.1, fun conn hconn hzero => ?_⟩
  exact absurd (hisolated.2 true _ conn rfl hconn hzero.symm) (by decide)

end ArmatureTenancy

import ArmatureTenancy.Management.Paging
import ArmatureTenancy.Management.Identity

/-!
# Paging while the registry is in use

Between two pages that a client asks for, other calls go on. New records push the older
ones back, so a record can be seen twice; but one that matches all along is never passed
over: only a record that leaves the filter moves others towards the front.
-/

namespace ArmatureTenancy

open Foundations InMemoryManagedTenantStore

variable {ι : Type*} [DecidableEq ι] {calls : ι → ManagerOp} {filter : TenantFilter}

/-- No two of the matching records have one creation time. -/
def DistinctTimes (filter : TenantFilter) (s : InMemoryManagedTenantStore) : Prop :=
  ∀ id id' m m', s.get id = some m → s.get id' = some m' → matchesFilter filter m = true →
    matchesFilter filter m' = true → m.createdAt = m'.createdAt → id = id'

def newerIds (s : InMemoryManagedTenantStore) (order : StoreOrder) (filter : TenantFilter)
    (time : DateTime) : List String :=
  ((newestFirst (s.filtered order filter)).filter fun m => time < m.createdAt).map
    fun m => m.tenant.id

def newerCount (s : InMemoryManagedTenantStore) (order : StoreOrder) (filter : TenantFilter)
    (time : DateTime) : ℕ :=
  (newestFirst (s.filtered order filter)).countP fun m => time < m.createdAt

section Places

variable {s s' : InMemoryManagedTenantStore} {order order' : StoreOrder}

theorem newestFirst_strict (distinct : DistinctTimes filter s) :
    (newestFirst (s.filtered order filter)).Pairwise fun a b => b.createdAt < a.createdAt := by
  have hboth :=
    (newestFirst_sorted (s.filtered order filter)).and (s.nodup_newestFirst order filter)
  refine hboth.imp_of_mem ?_
  intro a b ha hb hab
  obtain ⟨hget, hmatch⟩ := (s.mem_newestFirst order filter).mp ha
  obtain ⟨hget', hmatch'⟩ := (s.mem_newestFirst order filter).mp hb
  refine lt_of_le_of_ne hab.1 fun hsame => hab.2 ?_
  have hid := distinct _ _ a b hget hget' hmatch hmatch' hsame.symm
  rw [hid] at hget
  exact Option.some.inj (hget.symm.trans hget')

theorem getElem?_newerCount (distinct : DistinctTimes filter s) {id : String} {m : ManagedTenant}
    (hm : s.get id = some m) (hmatch : matchesFilter filter m = true) :
    (newestFirst (s.filtered order filter))[newerCount s order filter m.createdAt]? = some m := by
  apply getElem?_countP (newestFirst_strict distinct)
  rw [mem_newestFirst, id_of_get hm]
  exact ⟨hm, hmatch⟩

/-- The record of every matching id still matches, and has its creation time. -/
def StillMatches (filter : TenantFilter) (s s' : InMemoryManagedTenantStore) : Prop :=
  ∀ id m, s.get id = some m → matchesFilter filter m = true →
    ∃ m', s'.get id = some m' ∧ matchesFilter filter m' = true ∧ m'.createdAt = m.createdAt

variable (s order) in
theorem mem_newerIds {time : DateTime} {id : String} :
    id ∈ newerIds s order filter time ↔
      ∃ m, s.get id = some m ∧ matchesFilter filter m = true ∧ time < m.createdAt := by
  simp only [newerIds, List.mem_map, List.mem_filter, mem_newestFirst, decide_eq_true_eq]
  constructor
  · rintro ⟨m, ⟨⟨hget, hmatch⟩, hnewer⟩, rfl⟩
    exact ⟨m, hget, hmatch, hnewer⟩
  · rintro ⟨m, hget, hmatch, hnewer⟩
    have hid := id_of_get hget
    exact ⟨m, ⟨⟨hid ▸ hget, hmatch⟩, hnewer⟩, hid⟩

theorem nodup_newerIds (time : DateTime) : (newerIds s order filter time).Nodup := by
  apply List.Nodup.map_on
  · intro a ha b hb hid
    have hget := ((s.mem_newestFirst order filter).mp (List.mem_of_mem_filter ha)).1
    have hget' := ((s.mem_newestFirst order filter).mp (List.mem_of_mem_filter hb)).1
    rw [hid] at hget
    exact Option.some.inj (hget.symm.trans hget')
  · exact (s.nodup_newestFirst order filter).filter _

variable (order order') in
/-- While matching records stay, no place comes nearer to the front. -/
theorem newerCount_le (still : StillMatches filter s s') (time : DateTime) :
    newerCount s order filter time ≤ newerCount s' order' filter time := by
  have hlength (s : InMemoryManagedTenantStore) (order : StoreOrder) :
      newerCount s order filter time = (newerIds s order filter time).length := by
    rw [newerCount, List.countP_eq_length_filter, newerIds, List.length_map]
  rw [hlength, hlength]
  apply (nodup_newerIds time).length_le_of_subset
  intro id hid
  obtain ⟨m, hget, hmatch, hnewer⟩ := (mem_newerIds s order).mp hid
  obtain ⟨m', hget', hmatch', htime⟩ := still id m hget hmatch
  exact (mem_newerIds s' order').mpr ⟨m', hget', hmatch', htime ▸ hnewer⟩

end Places

/-- The turn takes no record out of the filter. -/
def KeepsMatches (filter : TenantFilter) (cfg : ManagerConfig ι) (turn : ι × ManagerChoice) :
    Prop :=
  ∀ id m, cfg.state.get id = some m → matchesFilter filter m = true →
    ∃ m', (cfg.step memory turn).state.get id = some m' ∧ matchesFilter filter m' = true

theorem still_matches (fresh : FreshCalls calls) {cfg : ManagerConfig ι}
    (holds : IdentityHolds calls cfg) {schedule : List (ι × ManagerChoice)}
    (keeps : ∀ before turn, before ++ [turn] <+: schedule →
      KeepsMatches filter (cfg.run memory before) turn) :
    StillMatches filter cfg.state (cfg.run memory schedule).state := by
  intro id m hm hmatch
  obtain ⟨m', hm', hmatch'⟩ : ∃ m', (cfg.run memory schedule).state.get id = some m' ∧
      matchesFilter filter m' = true := by
    induction schedule using List.reverseRecOn with
    | nil => exact ⟨m, hm, hmatch⟩
    | append_singleton schedule turn ih =>
      obtain ⟨r, hr, hmatched⟩ := ih fun before turn' hbefore =>
        keeps before turn' (hbefore.trans (List.prefix_append _ _))
      rw [Config.run_concat]
      exact keeps schedule turn (List.prefix_refl _) id r hr hmatched
  have hsame := identity_run fresh holds hm schedule hm'
  exact ⟨m', hm', hmatch', congrArg Identity.createdAt hsame⟩

theorem KeepsMatches.of_writes {cfg : ManagerConfig ι} {turn : ι × ManagerChoice}
    (hupdate : ∀ m rest r, cfg.program turn.1 = .call (.storeUpdate m) rest →
      cfg.state.get m.tenant.id = some r → matchesFilter filter r = true →
        matchesFilter filter m = true)
    (hdelete : ∀ id rest r, cfg.program turn.1 = .call (.storeDelete id) rest →
      cfg.state.get id = some r → matchesFilter filter r ≠ true) :
    KeepsMatches filter cfg turn := by
  intro id m hm hmatch
  rcases cfg.step_cases memory turn with heq | ⟨e, rest, answer, s, hp, hanswer, heq⟩
  · rw [heq]
    exact ⟨m, hm, hmatch⟩
  · rw [heq]
    rcases (memory_step hanswer).get_cases id with hsame | ⟨m', -, -, hnone, -⟩ |
      ⟨m', r, rfl, rfl, hr, hm'⟩ | ⟨rfl, -⟩ | ⟨usage, r, time, -, hr, hm'⟩
    · exact ⟨m, hsame.trans hm, hmatch⟩
    · cases hnone.symm.trans hm
    · cases hr.symm.trans hm
      exact ⟨m', hm', hupdate m' rest m hp hm hmatch⟩
    · exact absurd hmatch (hdelete id rest m hp hm)
    · cases hr.symm.trans hm
      exact ⟨_, hm', hmatch⟩

/-- A client pages through a filter while manager calls go on: page `k` is asked for after
the turns of `schedule k`. If no turn takes a record out of the filter and matching records
differ in their creation times, every record that matched at the first page is on one of
the pages, as it is when that page is read. -/
theorem pages_never_skip (fresh : FreshCalls calls) (filter : TenantFilter) (checked : Bool)
    (size : UInt64) (hsize : 0 < size) (schedule : ℕ → List (ι × ManagerChoice))
    (order : ℕ → StoreOrder) (later : ∀ k, schedule k <+: schedule (k + 1)) :
    let now := fun k => (managerSystem calls).run memory (schedule k)
    let fetch := fun k => (now k).state.listPage checked (order k) filter size k
    (∀ k before turn, before ++ [turn] <+: schedule k → schedule 0 <+: before →
      KeepsMatches filter ((managerSystem calls).run memory before) turn) →
    (∀ k, DistinctTimes filter (now k).state) →
    (∀ k, Requested fetch k → k * size.toNat + size.toNat < 2 ^ 64) →
      ∀ pages : List (List ManagedTenant), Fetched fetch 0 pages →
        ∀ id m, (now 0).state.get id = some m → matchesFilter filter m = true →
          ∃ (k : ℕ) (page : List ManagedTenant) (m' : ManagedTenant),
            pages[k]? = some page ∧ m' ∈ page ∧ (now k).state.get id = some m' := by
  intro now fetch keeps distinct fits pages hfetched id m hm hmatch
  have hpositive : 0 < size.toNat := UInt64.lt_iff_toNat_lt.mp hsize
  have hsince (k : ℕ) : schedule 0 <+: schedule k := by
    induction k with
    | zero => exact List.prefix_refl _
    | succ k ih => exact ih.trans (later k)
  have hstill (j k : ℕ) (hjk : schedule j <+: schedule k) :
      StillMatches filter (now j).state (now k).state := by
    obtain ⟨more, hmore⟩ := hjk
    have hrun : now k = (now j).run memory more := by
      rw [← Config.run_append, hmore]
    rw [hrun]
    apply still_matches fresh (managerSystem_identity fresh _)
    intro before turn hbefore
    rw [← Config.run_append]
    apply keeps k _ turn
    · rw [List.append_assoc, ← hmore]
      exact (List.prefix_append_right_inj _).mpr hbefore
    · exact (hsince j).trans (List.prefix_append _ _)
  choose record hrecord hmatches htime using fun k => hstill 0 k (hsince k) id m hm hmatch
  obtain ⟨k, page, hpage, hmem⟩ := hfetched.exists_page hpositive
    (fun k hk => (now k).state.listPage_eq checked (order k) filter size (fits k hk))
    (fun k => newerCount_le (order k) (order (k + 1)) (hstill k (k + 1) (later k)) m.createdAt)
    (fun k => htime k ▸ getElem?_newerCount (distinct k) (hrecord k) (hmatches k))
  exact ⟨k, page, record k, hpage, hmem, hrecord k⟩

theorem DistinctTimes.of_nodup {s : InMemoryManagedTenantStore} (order : StoreOrder)
    (nodup : ((s.values order).map fun m => m.createdAt).Nodup) : DistinctTimes filter s := by
  intro id id' m m' hm hm' _ _ htime
  have hmem {id : String} {m : ManagedTenant} (hm : s.get id = some m) : m ∈ s.values order := by
    rw [mem_values, id_of_get hm]
    exact hm
  have hsame := List.inj_on_of_nodup_map nodup (hmem hm) (hmem hm') htime
  rw [← id_of_get hm, ← id_of_get hm', hsame]

def threeCreations : Fin 3 → ManagerOp :=
  ![.create "t-1" (fun _ => 0) (.new "acme"), .create "t-2" (fun _ => 1) (.new "globex"),
    .create "t-3" (fun _ => 2) (.new "initech")]

def twoCreations : List (Fin 3 × ManagerChoice) :=
  (List.finRange 2).flatMap fun i => List.replicate 4 (i.castSucc, default)

def creationsBetweenPages : ℕ → List (Fin 3 × ManagerChoice)
  | 0 => twoCreations
  | _ + 1 => twoCreations ++ [(Fin.last 2, default), (Fin.last 2, default)]

theorem pages_never_skip_three :
    let now := fun k => (managerSystem threeCreations).run memory (creationsBetweenPages k)
    let fetch := fun k => (now k).state.listPage true default .new 1 k
    ∃ pages : List (List ManagedTenant), Fetched fetch 0 pages ∧
      ∃ (k : ℕ) (page : List ManagedTenant) (m : ManagedTenant),
        pages[k]? = some page ∧ m ∈ page ∧ (now k).state.get "t-1" = some m := by
  intro now fetch
  have hfresh : FreshCalls threeCreations := by
    have hinjective : ∀ i j, (threeCreations i).newId? = (threeCreations j).newId? → i = j := by
      decide
    exact fun i j id hi hj => hinjective i j (hi.trans hj.symm)
  have hempty : fetch 3 = some [] := rfl
  have hfetched : Fetched fetch 0 _ :=
    .next rfl (List.cons_ne_nil _ _) (.next rfl (List.cons_ne_nil _ _)
      (.next rfl (List.cons_ne_nil _ _) (.done hempty)))
  refine ⟨_, hfetched, ?_⟩
  refine pages_never_skip hfresh .new true 1 (by decide) creationsBetweenPages (fun _ => default)
    ?_ ?_ ?_ ?_ _ hfetched "t-1" _ rfl rfl
  · intro k
    cases k with
    | zero => exact List.prefix_append _ _
    | succ k => exact List.prefix_refl _
  · intro k before turn hbefore hafter
    obtain ⟨middle, rfl⟩ := hafter
    have hmore : middle ++ [turn] <+: [(Fin.last 2, default), (Fin.last 2, default)] := by
      cases k with
      | zero => exact absurd hbefore.length_le (by simp [creationsBetweenPages])
      | succ k =>
        rw [List.append_assoc] at hbefore
        exact (List.prefix_append_right_inj _).mp hbefore
    rcases middle with _ | ⟨first, _ | ⟨second, middle⟩⟩
    · obtain rfl : turn = (Fin.last 2, default) := by simpa using hmore
      refine .of_writes (fun _ _ _ _ _ _ => rfl) ?_
      intro id rest r hp
      cases hp
    · obtain ⟨rfl, rfl⟩ : first = (Fin.last 2, default) ∧ turn = (Fin.last 2, default) := by
        simpa using hmore
      refine .of_writes (fun _ _ _ _ _ _ => rfl) ?_
      intro id rest r hp
      cases hp
    · exact absurd hmore.length_le (by simp)
  · have hfirst : DistinctTimes .new (now 0).state := .of_nodup default (by decide)
    have hothers : DistinctTimes .new (now 1).state := .of_nodup default (by decide)
    intro k
    cases k with
    | zero => exact hfirst
    | succ k => exact hothers
  · intro k hk
    have hfew : k ≤ 3 := by
      by_contra hmore
      obtain ⟨page, hpage, hne⟩ := hk 3 (Nat.lt_of_not_le hmore)
      cases hempty.symm.trans hpage
      exact hne rfl
    rw [show (1 : UInt64).toNat = 1 from rfl]
    omega

end ArmatureTenancy

import ArmatureTenancy.Cache.Isolation
import ArmatureTenancy.Foundations.Disciplines

/-!
# Clearing a tenant while others write

`clear_tenant` scans for the tenant's keys and then deletes them one by one, so
calls of the same tenant can come in between. The history of the provider says what
every key holds: the last successful write under it. From that it follows what a
completed clear guarantees, whatever ran beside it.
-/

namespace ArmatureTenancy

open Foundations

abbrev CacheHistory (ι : Type*) := History ι CacheCall CacheCall.Answer

/-- What an exchange leaves under a key, if it writes the key. -/
def writtenUnder (key : String) : Exchange CacheCall CacheCall.Answer → Option (Option Bytes)
  | ⟨.set k value _, .ok _⟩ => if k = key then some (some value) else none
  | ⟨.delete k, .ok _⟩ => if k = key then some none else none
  | _ => none

section Registers

variable {ι : Type*} (store : CacheStore)

/-- What the history leaves under a key: the last successful write, or what was there. -/
def current (h : CacheHistory ι) (key : String) : Option Bytes :=
  (h.findSome? fun x => writtenUnder key x.2).getD (store.lookup key)

/-- The answer is right about what the keys hold, or an error. -/
def CacheCall.TrueOf (contents : String → Option Bytes) : (e : CacheCall) → e.Answer → Prop
  | .get key, .ok value => value = contents key
  | .existsKey key, .ok found => found = (contents key).isSome
  | .keysWithPrefix p, .ok keys =>
    ∀ key, key ∈ keys ↔ key.startsWith p = true ∧ contents key ≠ none
  | _, _ => True

def Truthful : CacheHistory ι → Prop
  | [] => True
  | (_, ⟨e, answer⟩) :: older => e.TrueOf (current store older) answer ∧ Truthful older

variable {store}

theorem current_cons_some {i : ι} {x : Exchange CacheCall CacheCall.Answer} {h : CacheHistory ι}
    {key : String} {value : Option Bytes} (hx : writtenUnder key x = some value) :
    current store ((i, x) :: h) key = value := by
  simp [current, hx]

theorem current_cons_none {i : ι} {x : Exchange CacheCall CacheCall.Answer} {h : CacheHistory ι}
    {key : String} (hx : writtenUnder key x = none) :
    current store ((i, x) :: h) key = current store h key := by
  simp [current, hx]

theorem Truthful.of_append {newer older : CacheHistory ι} (h : Truthful store (newer ++ older)) :
    Truthful store older := by
  induction newer with
  | nil => exact h
  | cons x newer ih => exact ih h.2

variable (store) in
theorem current_append_cases (newer older : CacheHistory ι) (key : String) :
    (∃ x ∈ newer, writtenUnder key x.2 = some (current store (newer ++ older) key)) ∨
      ((∀ x ∈ newer, writtenUnder key x.2 = none) ∧
        current store (newer ++ older) key = current store older key) := by
  induction newer with
  | nil => exact .inr ⟨by simp, rfl⟩
  | cons x newer ih =>
    obtain ⟨i, x⟩ := x
    rw [List.cons_append]
    cases hx : writtenUnder key x with
    | some value =>
      rw [current_cons_some hx]
      exact .inl ⟨(i, x), List.mem_cons_self, hx⟩
    | none =>
      rw [current_cons_none hx]
      rcases ih with ⟨y, hy, hvalue⟩ | ⟨hnone, hsame⟩
      · exact .inl ⟨y, List.mem_cons_of_mem _ hy, hvalue⟩
      · exact .inr ⟨List.forall_mem_cons.mpr ⟨hx, hnone⟩, hsame⟩

theorem eq_set_of_writtenUnder {x : Exchange CacheCall CacheCall.Answer} {key : String}
    {value : Bytes} (h : writtenUnder key x = some (some value)) :
    ∃ ttl, x = ⟨.set key value ttl, .ok ()⟩ := by
  unfold writtenUnder at h
  split at h
  · next k v ttl _ =>
    split at h
    · next hk =>
      cases h
      exact ⟨ttl, by rw [hk]⟩
    · cases h
  · split at h <;> cases h
  · cases h

theorem mapProvider_register {i : ι} {h : CacheHistory ι} {s s' : CacheStore} {c : CacheChoice}
    {e : CacheCall} {answer : e.Answer} (hs : ∀ key, s.lookup key = current store h key)
    (hanswer : mapProvider c s e = some (answer, s')) :
    e.TrueOf (current store h) answer ∧
      ∀ key, s'.lookup key = current store ((i, ⟨e, answer⟩) :: h) key := by
  cases hfault : c.fault with
  | some err =>
    cases e <;> simp only [mapProvider, hfault, Option.some.injEq, Prod.mk.injEq] at hanswer <;>
      obtain ⟨rfl, rfl⟩ := hanswer <;>
      exact ⟨trivial, fun key => (hs key).trans (current_cons_none rfl).symm⟩
  | none =>
    cases e with
    | get key =>
      simp only [mapProvider, hfault, Option.some.injEq, Prod.mk.injEq] at hanswer
      obtain ⟨rfl, rfl⟩ := hanswer
      exact ⟨hs key, fun k => (hs k).trans (current_cons_none rfl).symm⟩
    | existsKey key =>
      simp only [mapProvider, hfault, Option.some.injEq, Prod.mk.injEq] at hanswer
      obtain ⟨rfl, rfl⟩ := hanswer
      exact ⟨congrArg _ (hs key), fun k => (hs k).trans (current_cons_none rfl).symm⟩
    | keysWithPrefix p =>
      simp only [mapProvider, hfault, Option.some.injEq, Prod.mk.injEq] at hanswer
      obtain ⟨rfl, rfl⟩ := hanswer
      refine ⟨fun key => ?_, fun k => (hs k).trans (current_cons_none rfl).symm⟩
      rw [IterationOrder.mem_arrange, keysStartingWith, List.mem_filter, ← hs, and_comm,
        ne_eq, AList.lookup_eq_none, not_not]
      rfl
    | set key value ttl =>
      simp only [mapProvider, hfault, Option.some.injEq, Prod.mk.injEq] at hanswer
      obtain ⟨rfl, rfl⟩ := hanswer
      refine ⟨trivial, fun k => ?_⟩
      rw [lookup_insert_eq]
      split
      · next hk =>
        rw [current_cons_some]
        exact if_pos hk.symm
      · next hk =>
        rw [hs, current_cons_none]
        exact if_neg (Ne.symm hk)
    | delete key =>
      simp only [mapProvider, hfault, Option.some.injEq, Prod.mk.injEq] at hanswer
      obtain ⟨rfl, rfl⟩ := hanswer
      refine ⟨trivial, fun k => ?_⟩
      rw [lookup_erase_eq]
      split
      · next hk =>
        rw [current_cons_some]
        exact if_pos hk.symm
      · next hk =>
        rw [hs, current_cons_none]
        exact if_neg (Ne.symm hk)

/-- The store holds what the history says, and the history answers for itself. -/
def HistoryTells (store : CacheStore) (now : Moment ι CacheStore CacheCall CacheCall.Answer) :
    Prop :=
  (∀ key, now.state.lookup key = current store now.history key) ∧ Truthful store now.history

end Registers

section Progress

variable {ι : Type*} {i : ι} {h h' : CacheHistory ι} {id key : String} {rest : List String}

/-- Call `i` has scanned for the keys of the id, and has since deleted all it found
except those of `rest`. -/
def ClearedExcept (id : String) (rest : List String) (i : ι) (h : CacheHistory ι) : Prop :=
  ∃ keys newer older,
    h = newer ++ (i, ⟨.keysWithPrefix (Tenant.cachePrefix id), .ok keys⟩) :: older ∧
      ∀ key ∈ keys, key ∈ rest ∨ (i, ⟨.delete key, .ok ()⟩) ∈ newer

namespace ClearedExcept

theorem stable (hcleared : ClearedExcept id rest i h) (moved : OthersMoved i h h') :
    ClearedExcept id rest i h' := by
  obtain ⟨keys, newer, older, rfl, hkeys⟩ := hcleared
  obtain ⟨more, rfl, -⟩ := moved
  refine ⟨keys, more ++ newer, older, (List.append_assoc _ _ _).symm, fun key hkey => ?_⟩
  exact (hkeys key hkey).imp_right (List.mem_append_right more)

theorem scanned (keys : List String) :
    ClearedExcept id keys i ((i, ⟨.keysWithPrefix (Tenant.cachePrefix id), .ok keys⟩) :: h) :=
  ⟨keys, [], h, rfl, fun _ => .inl⟩

theorem deleted (hcleared : ClearedExcept id (key :: rest) i h) :
    ClearedExcept id rest i ((i, ⟨.delete key, .ok ()⟩) :: h) := by
  obtain ⟨keys, newer, older, rfl, hkeys⟩ := hcleared
  refine ⟨keys, _ :: newer, older, rfl, fun k hk => ?_⟩
  rcases hkeys k hk with hrest | hdone
  · rcases List.mem_cons.mp hrest with rfl | hrest
    · exact .inr List.mem_cons_self
    · exact .inl hrest
  · exact .inr (List.mem_cons_of_mem _ hdone)

end ClearedExcept

/-- A clear that returns has deleted all it found; the other calls promise nothing. -/
def clearingDiscipline (calls : ι → TenantCall) :
    Discipline ι CacheCall CacheCall.Answer (Except CacheError CacheReply) where
  allowed _ _ _ := True
  answers _ _ _ _ := True
  post h i a := (calls i).op = .clearTenant → ∀ reply, a = .ok reply →
    ClearedExcept (calls i).tenant.id [] i h
  allowed_stable _ _ := trivial
  post_stable moved hpost op reply ha := (hpost op reply ha).stable moved

def clearing (keys : List String) : CacheProgram :=
  ((fun _ => CacheReply.done) <$> show CacheM Unit from do
    CacheProvider.deleteMany keys
    pure ()).run

theorem clearing_cons (key : String) (keys : List String) :
    clearing (key :: keys) = .call (.delete key) fun answer => match answer with
      | .error e => .pure (.error e)
      | .ok () => clearing keys := by
  apply Program.call_congr
  intro answer
  cases answer <;> rfl

theorem program_clearTenant (t : Tenant) :
    (⟨t, .clearTenant⟩ : TenantCall).program =
      .call (.keysWithPrefix (t.cacheKey "")) fun answer => match answer with
        | .error e => .pure (.error e)
        | .ok keys => clearing keys := by
  apply Program.call_congr
  intro answer
  cases answer <;> rfl

variable {calls : ι → TenantCall}

theorem follows_clearing {keys : List String}
    (hcleared : ClearedExcept (calls i).tenant.id keys i h) :
    (clearing keys).Follows (clearingDiscipline calls) i h := by
  induction keys generalizing h with
  | nil => exact fun _ _ _ => hcleared
  | cons key keys ih =>
    rw [clearing_cons]
    refine ⟨trivial, fun h' answer moved _ => ?_⟩
    cases answer with
    | error e =>
      intro _ reply hreply
      cases hreply
    | ok value => exact ih (hcleared.stable moved).deleted

theorem TenantCall.program_follows (calls : ι → TenantCall) (i : ι) :
    (calls i).program.Follows (clearingDiscipline calls) i [] := by
  by_cases hop : (calls i).op = .clearTenant
  · have hcall : calls i = ⟨(calls i).tenant, .clearTenant⟩ := by rw [← hop]
    rw [hcall, program_clearTenant, Tenant.cacheKey_empty]
    refine ⟨trivial, fun h' answer _ _ => ?_⟩
    cases answer with
    | error e =>
      intro _ reply hreply
      cases hreply
    | ok keys => exact follows_clearing (.scanned keys)
  · apply Program.follows_of_post
    · exact fun _ _ => trivial
    · exact fun _ _ hclear => absurd hclear hop

end Progress

section Interleaved

variable {ι : Type*} [DecidableEq ι] (calls : ι → TenantCall) (store : CacheStore)
  (schedule : List (ι × CacheChoice))

variable {store} in
/-- Whatever programs run: the store holds what the history says. -/
theorem HistoryTells.run {α : Type*} {cfg : Config ι CacheStore CacheCall CacheCall.Answer α}
    (h : HistoryTells store cfg.toMoment) :
    HistoryTells store (cfg.run mapProvider schedule).toMoment := by
  refine Config.run_induction mapProvider cfg (P := fun cfg => HistoryTells store cfg.toMoment) h
    ?_ schedule
  intro cfg turn hcfg
  rcases cfg.step_cases mapProvider turn with heq | ⟨e, rest, answer, s, -, hanswer, heq⟩
  · rw [heq]
    exact hcfg
  · rw [heq]
    obtain ⟨htrue, hstate⟩ := mapProvider_register hcfg.1 hanswer
    exact ⟨hstate, htrue, hcfg.2⟩

theorem cacheSystem_follows (i : ι) :
    (((cacheSystem calls store).run mapProvider schedule).program i).Follows
      (clearingDiscipline calls) i
      ((cacheSystem calls store).run mapProvider schedule).history := by
  have hstart (i : ι) : ((cacheSystem calls store).program i).Follows (clearingDiscipline calls) i
      (cacheSystem calls store).history := TenantCall.program_follows calls i
  exact Config.run_follows_blindly (fun _ _ _ _ => trivial) hstart schedule i

theorem cacheSystem_owned (x : ι × Exchange CacheCall CacheCall.Answer)
    (hx : x ∈ ((cacheSystem calls store).run mapProvider schedule).history) :
    x.2.1.Owned (calls x.1).tenant.id := by
  have hstart (i : ι) : ((cacheSystem calls store).program i).Within CacheCall.Admissible
      (CacheCall.Owned (calls i).tenant.id) fun _ => True := (calls i).program_within
  exact Config.history_within mapProvider_admissible hstart (by simp [cacheSystem]) schedule x hx

/-- Whatever runs beside it: once `clear_tenant` has returned without an error, all that the
tenant finds under its keys was set by calls for its own id after the scan of the clear. -/
theorem cleared_keys_were_set_since {i : ι} {reply : CacheReply}
    (clear : (calls i).op = .clearTenant)
    (returned : ((cacheSystem calls store).run mapProvider schedule).program i =
      .pure (.ok reply)) :
    let last := (cacheSystem calls store).run mapProvider schedule
    ∃ keys newer older, last.history =
        newer ++ (i, ⟨.keysWithPrefix ((calls i).tenant.cacheKey ""), .ok keys⟩) :: older ∧
      ∀ key value, visible (calls i).tenant last.state key = some value →
        ∃ j ttl, (calls j).tenant.id = (calls i).tenant.id ∧
          (j, ⟨.set ((calls i).tenant.cacheKey key) value ttl, .ok ()⟩) ∈ newer := by
  intro last
  have hstart : HistoryTells store (cacheSystem calls store).toMoment := ⟨fun _ => rfl, trivial⟩
  obtain ⟨hstate, htruthful⟩ := hstart.run schedule
  have hpost := cacheSystem_follows calls store schedule i
  rw [returned] at hpost
  obtain ⟨keys, newer, older, hhistory, hdeleted⟩ := hpost clear reply rfl
  rw [hhistory] at hstate htruthful
  refine ⟨keys, newer, older, ?_, fun key value hvisible => ?_⟩
  · rw [Tenant.cacheKey_empty]
    exact hhistory
  · have hown := (ownKey_cacheKey_iff (calls i).tenant.id (calls i).tenant key).mpr rfl
    rw [visible, hstate] at hvisible
    rcases current_append_cases _ newer _ ((calls i).tenant.cacheKey key) with
      ⟨⟨j, x⟩, hx, hvalue⟩ | ⟨hnone, hsame⟩
    · rw [hvisible] at hvalue
      obtain ⟨ttl, rfl⟩ := eq_set_of_writtenUnder hvalue
      refine ⟨j, ttl, ?_, hx⟩
      have hmem : (j, ⟨.set ((calls i).tenant.cacheKey key) value ttl, .ok ()⟩) ∈ last.history := by
        rw [hhistory]
        exact List.mem_append_left _ hx
      exact (ownKey_cacheKey_iff _ _ _).mp (cacheSystem_owned calls store schedule _ hmem)
    · rw [hsame, current_cons_none rfl] at hvisible
      have hlisted : (calls i).tenant.cacheKey key ∈ keys := by
        refine (htruthful.of_append.1 _).mpr ⟨hown, ?_⟩
        rw [hvisible]
        exact Option.some_ne_none value
      have hgone := (hdeleted _ hlisted).resolve_left List.not_mem_nil
      have hwritten := hnone _ hgone
      simp [writtenUnder] at hwritten

def setWhileClearing : Fin 3 → TenantCall :=
  ![⟨Tenant.new "t-1" "acme", .set "a" [1] none⟩, ⟨Tenant.new "t-1" "acme", .clearTenant⟩,
    ⟨Tenant.new "t-1" "acme", .set "b" [2] none⟩]

theorem cleared_keys_were_set_since_racing :
    let t := Tenant.new "t-1" "acme"
    let last := (cacheSystem setWhileClearing ∅).run mapProvider [(0, ⟨none, default⟩),
      (1, ⟨none, default⟩), (2, ⟨none, default⟩), (1, ⟨none, default⟩)]
    ∃ keys newer older, last.history =
        newer ++ (1, ⟨.keysWithPrefix (t.cacheKey ""), .ok keys⟩) :: older ∧
      ∀ key value, visible t last.state key = some value →
        ∃ j ttl, (setWhileClearing j).tenant.id = t.id ∧
          (j, ⟨.set (t.cacheKey key) value ttl, .ok ()⟩) ∈ newer := by
  intro t last
  let store := (∅ : CacheStore).insert (t.cacheKey "a") [1]
  let first := (cacheSystem setWhileClearing ∅).step mapProvider (0, ⟨none, default⟩)
  have hlisted : keysStartingWith store (t.cacheKey "") = [t.cacheKey "a"] := by decide +kernel
  have hscan : first.step mapProvider (1, ⟨none, default⟩) =
      first.advance 1 (.keysWithPrefix (t.cacheKey "")) (.ok [t.cacheKey "a"]) store
        (clearing [t.cacheKey "a"]) := by
    rw [← hlisted]
    rfl
  have hreturned : last.program 1 = .pure (.ok .done) := by
    unfold last
    rw [Config.run_cons, Config.run_cons, hscan]
    rfl
  exact cleared_keys_were_set_since setWhileClearing ∅ _ rfl hreturned

end Interleaved
end ArmatureTenancy

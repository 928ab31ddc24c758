import Mathlib.Data.List.AList

/-!
# Association maps and their restrictions

A hash map is an association list without duplicate keys. Iterating it visits
the entries in an order of the environment's choosing, which is a permutation
given with each iteration. The restriction of a map to a set of keys is the list
of its entries there; writes outside the set leave it alone, and writes inside
act on it as they act on the whole map.
-/

namespace ArmatureTenancy.Foundations

/-- An order in which a hash map may yield a list of its entries. -/
structure IterationOrder (α : Type*) where
  arrange : List α → List α
  perm : ∀ l, (arrange l).Perm l

instance {α : Type*} : Inhabited (IterationOrder α) := ⟨⟨id, fun _ => .refl _⟩⟩

theorem IterationOrder.mem_arrange {α : Type*} (order : IterationOrder α) (l : List α) (a : α) :
    a ∈ order.arrange l ↔ a ∈ l :=
  (order.perm l).mem_iff

section Lookups

variable {κ ν : Type*} [DecidableEq κ] (m : AList fun _ : κ => ν)

theorem lookup_insert_eq (key : κ) (value : ν) (k : κ) :
    (m.insert key value).lookup k = if k = key then some value else m.lookup k := by
  split
  · next hk => rw [hk]; exact AList.lookup_insert m
  · next hk => exact AList.lookup_insert_ne hk

theorem lookup_erase_eq (key k : κ) :
    (m.erase key).lookup k = if k = key then none else m.lookup k := by
  split
  · next hk => rw [hk]; exact AList.lookup_erase key m
  · next hk => exact AList.lookup_erase_ne hk

theorem lookup_foldl_insert {entries : List (Sigma fun _ : κ => ν)} (nodup : entries.NodupKeys)
    (key : κ) :
    (entries.foldl (fun map entry => map.insert entry.1 entry.2) m).lookup key =
      (entries.dlookup key).or (m.lookup key) := by
  induction entries generalizing m with
  | nil => rfl
  | cons entry entries ih =>
    obtain ⟨k, v⟩ := entry
    obtain ⟨hk, hentries⟩ := List.nodupKeys_cons.mp nodup
    rw [List.foldl_cons, ih _ hentries]
    by_cases hkey : key = k
    · subst hkey
      rw [List.dlookup_eq_none.mpr hk, List.dlookup_cons_eq, AList.lookup_insert]
      rfl
    · rw [List.dlookup_cons_ne _ _ hkey, AList.lookup_insert_ne hkey]

def SameContents (m m' : AList fun _ : κ => ν) : Prop := ∀ key, m.lookup key = m'.lookup key

@[refl] theorem SameContents.refl : SameContents m m := fun _ => rfl

end Lookups

variable {κ : Type*} {ν : κ → Type*} [DecidableEq κ] (p : κ → Bool)

def restrict (m : AList ν) : List (Sigma ν) := m.entries.filter fun entry => p entry.1

theorem filter_kerase (k : κ) (l : List (Sigma ν)) :
    (l.kerase k).filter (fun entry => p entry.1) =
      (l.filter fun entry => p entry.1).kerase k := by
  induction l with
  | nil => rfl
  | cons entry l ih =>
    by_cases hk : k = entry.1
    · rw [List.kerase_cons_eq hk]
      cases hp : p entry.1
      · have hnot : k ∉ (l.filter fun entry => p entry.1).keys := by
          intro hmem
          obtain ⟨e, he, rfl⟩ := List.mem_map.mp hmem
          have := (List.mem_filter.mp he).2
          simp [hk, hp] at this
        simp [hp, List.kerase_of_notMem_keys hnot]
      · simp [hp, List.kerase_cons_eq hk]
    · rw [List.kerase_cons_ne hk]
      cases hp : p entry.1
      · simp [hp, ih]
      · simp [hp, ih, List.kerase_cons_ne hk]

omit [DecidableEq κ] in
theorem notMem_keys_restrict {k : κ} (hk : p k = false) (m : AList ν) :
    k ∉ (restrict p m).keys := by
  intro hmem
  obtain ⟨entry, he, rfl⟩ := List.mem_map.mp hmem
  have := (List.mem_filter.mp he).2
  simp [hk] at this

theorem restrict_erase (m : AList ν) (k : κ) :
    restrict p (m.erase k) = (restrict p m).kerase k :=
  filter_kerase p k m.entries

theorem restrict_erase_outside {k : κ} (hk : p k = false) (m : AList ν) :
    restrict p (m.erase k) = restrict p m := by
  rw [restrict_erase, List.kerase_of_notMem_keys (notMem_keys_restrict p hk m)]

theorem restrict_insert {k : κ} (hk : p k = true) (m : AList ν) (v : ν k) :
    restrict p (m.insert k v) = ⟨k, v⟩ :: (restrict p m).kerase k := by
  rw [restrict, AList.entries_insert]
  simp [hk, filter_kerase, restrict]

theorem restrict_insert_outside {k : κ} (hk : p k = false) (m : AList ν) (v : ν k) :
    restrict p (m.insert k v) = restrict p m := by
  rw [restrict, AList.entries_insert]
  simp only [List.filter_cons, hk, Bool.false_eq_true, if_false, filter_kerase]
  exact List.kerase_of_notMem_keys (notMem_keys_restrict p hk m)

theorem lookup_eq_dlookup_restrict {k : κ} (hk : p k = true) (m : AList ν) :
    m.lookup k = (restrict p m).dlookup k := by
  unfold AList.lookup restrict
  induction m.entries with
  | nil => rfl
  | cons entry l ih =>
    by_cases he : k = entry.1
    · obtain ⟨k', v⟩ := entry
      subst he
      simp [hk]
    · cases hp : p entry.1
      · simp [hp, List.dlookup_cons_ne _ _ he, ih]
      · simp [hp, List.dlookup_cons_ne _ _ he, ih]

end ArmatureTenancy.Foundations

import ArmatureTenancy.Management.Records
import ArmatureTenancy.Foundations.Maps

/-!
# The in-memory store of managed tenants

The store maps ids to records. Its map is private, and every method that writes
a record writes it under the record's own id, so the store type carries the fact
that each key is the id of its record. Methods that scan the map visit its
entries in an order of the environment's choosing.
-/

namespace ArmatureTenancy

open Foundations

structure InMemoryManagedTenantStore where
  tenants : HashMap String ManagedTenant
  keyed : ∀ id m, tenants.lookup id = some m → m.tenant.id = id

abbrev StoreOrder := IterationOrder (Sigma fun _ : String => ManagedTenant)

namespace InMemoryManagedTenantStore

def new : InMemoryManagedTenantStore := ⟨∅, by simp⟩

def get (s : InMemoryManagedTenantStore) (id : String) : Option ManagedTenant :=
  s.tenants.lookup id

theorem id_of_get {s : InMemoryManagedTenantStore} {id : String} {m : ManagedTenant}
    (h : s.get id = some m) : m.tenant.id = id := s.keyed id m h

def put (s : InMemoryManagedTenantStore) (m : ManagedTenant) : InMemoryManagedTenantStore where
  tenants := s.tenants.insert m.tenant.id m
  keyed := by
    intro id m' h
    by_cases hid : id = m.tenant.id
    · subst hid
      rw [AList.lookup_insert] at h
      cases h
      rfl
    · rw [AList.lookup_insert_ne hid] at h
      exact s.keyed id m' h

def remove (s : InMemoryManagedTenantStore) (id : String) : InMemoryManagedTenantStore where
  tenants := s.tenants.erase id
  keyed := by
    intro k m h
    by_cases hk : k = id
    · subst hk
      simp at h
    · rw [AList.lookup_erase_ne hk] at h
      exact s.keyed k m h

def values (s : InMemoryManagedTenantStore) (order : StoreOrder) : List ManagedTenant :=
  (order.arrange s.tenants.entries).map Sigma.snd

def getBySlug (s : InMemoryManagedTenantStore) (order : StoreOrder) (slug : String) :
    Option ManagedTenant :=
  (s.values order).find? fun m => m.tenant.name == slug

def create (s : InMemoryManagedTenantStore) (m : ManagedTenant) :
    Except TenantError Unit × InMemoryManagedTenantStore :=
  if (s.get m.tenant.id).isSome then
    (.error (.invalid ("Tenant " ++ m.tenant.id ++ " already exists")), s)
  else (.ok (), s.put m)

def update (s : InMemoryManagedTenantStore) (m : ManagedTenant) :
    Except TenantError Unit × InMemoryManagedTenantStore :=
  if !(s.get m.tenant.id).isSome then (.error (.notFound m.tenant.id), s)
  else (.ok (), s.put m)

def delete (s : InMemoryManagedTenantStore) (id : String) :
    Except TenantError Unit × InMemoryManagedTenantStore :=
  (.ok (), s.remove id)

def updateUsage (s : InMemoryManagedTenantStore) (id : String) (usage : TenantUsage)
    (now : DateTime) : Except TenantError Unit × InMemoryManagedTenantStore :=
  match s.get id with
  | some m => (.ok (), s.put (m.recordUsage usage now))
  | none => (.error (.notFound id), s)

variable {s : InMemoryManagedTenantStore} {m : ManagedTenant} {id : String}

@[simp] theorem get_new (id : String) : new.get id = none := rfl

theorem get_put (s : InMemoryManagedTenantStore) (m : ManagedTenant) (k : String) :
    (s.put m).get k = if k = m.tenant.id then some m else s.get k :=
  lookup_insert_eq s.tenants m.tenant.id m k

@[simp] theorem get_put_self (s : InMemoryManagedTenantStore) (m : ManagedTenant) :
    (s.put m).get m.tenant.id = some m := by
  rw [get_put, if_pos rfl]

theorem get_remove (s : InMemoryManagedTenantStore) (id k : String) :
    (s.remove id).get k = if k = id then none else s.get k :=
  lookup_erase_eq s.tenants id k

theorem get_put_put (s : InMemoryManagedTenantStore) {m m' : ManagedTenant}
    (same : m'.identity = m.identity) (k : String) :
    ((s.put m).put m').get k = (s.put m').get k := by
  rw [get_put, get_put, get_put, ManagedTenant.id_eq_of_identity same]
  split <;> rfl

theorem get_put_remove (free : s.get id = none) (hid : m.tenant.id = id) (k : String) :
    ((s.put m).remove id).get k = s.get k := by
  rw [get_remove, get_put, hid]
  split
  · next hk => rw [hk, free]
  · rfl

theorem remove_put (free : s.get id = none) (hid : m.tenant.id = id) :
    (s.put m).remove id = s := by
  subst hid
  obtain ⟨tenants, keyed⟩ := s
  have hnot : m.tenant.id ∉ tenants.keys := AList.lookup_eq_none.mp free
  have hsame : (tenants.insert m.tenant.id m).erase m.tenant.id = tenants := by
    apply AList.ext
    rw [AList.insert_of_notMem hnot]
    exact List.kerase_cons_eq rfl
  simp only [put, remove, hsame]

theorem get_of_identity {r : ManagedTenant} (stored : s.get id = some r)
    (same : m.identity = r.identity) : s.get m.tenant.id = some r := by
  rw [ManagedTenant.id_eq_of_identity same, id_of_get stored]
  exact stored

theorem get_put_of_identity {r : ManagedTenant} (stored : s.get id = some r)
    (same : m.identity = r.identity) : (s.put m).get id = some m := by
  rw [get_put, ManagedTenant.id_eq_of_identity same, id_of_get stored, if_pos rfl]

theorem mem_values (order : StoreOrder) :
    m ∈ s.values order ↔ s.get m.tenant.id = some m := by
  constructor
  · intro h
    obtain ⟨entry, hentry, rfl⟩ := List.mem_map.mp h
    rw [IterationOrder.mem_arrange] at hentry
    have hlookup : s.get entry.1 = some entry.2 := AList.mem_lookup_iff.mpr hentry
    rw [id_of_get hlookup]
    exact hlookup
  · intro h
    refine List.mem_map.mpr ⟨⟨m.tenant.id, m⟩, ?_, rfl⟩
    rw [IterationOrder.mem_arrange]
    exact AList.mem_lookup_iff.mp h

/-- Whatever the order of iteration, a slug is found exactly when a stored record has it. -/
theorem getBySlug_eq_none_iff {order : StoreOrder} {slug : String} :
    s.getBySlug order slug = none ↔ ∀ k m, s.get k = some m → m.tenant.name ≠ slug := by
  simp only [getBySlug, List.find?_eq_none, mem_values, beq_iff_eq]
  constructor
  · intro h k m hm
    exact h m (by rw [id_of_get hm]; exact hm)
  · intro h m hm
    exact h _ m hm

theorem getBySlug_eq_some {order : StoreOrder} {slug : String}
    (h : s.getBySlug order slug = some m) :
    s.get m.tenant.id = some m ∧ m.tenant.name = slug := by
  have hmem := List.mem_of_find?_eq_some h
  rw [mem_values] at hmem
  exact ⟨hmem, by simpa using List.find?_some h⟩

theorem create_fresh (h : s.get m.tenant.id = none) : s.create m = (.ok (), s.put m) := by
  simp [create, h]

theorem create_ok {s' : InMemoryManagedTenantStore} (h : s.create m = (.ok (), s')) :
    s.get m.tenant.id = none ∧ s' = s.put m := by
  unfold create at h
  split at h
  · cases h
  · next hnone =>
    cases h
    exact ⟨by simpa using hnone, rfl⟩

theorem create_error {s' : InMemoryManagedTenantStore} {e : TenantError}
    (h : s.create m = (.error e, s')) : s.get m.tenant.id ≠ none ∧ s' = s := by
  unfold create at h
  split at h
  · next htaken =>
    cases h
    exact ⟨by simpa [Option.isSome_iff_ne_none] using htaken, rfl⟩
  · cases h

theorem update_stored {r : ManagedTenant} (h : s.get m.tenant.id = some r) :
    s.update m = (.ok (), s.put m) := by
  simp [update, h]

theorem update_ok {s' : InMemoryManagedTenantStore} (h : s.update m = (.ok (), s')) :
    (∃ r, s.get m.tenant.id = some r) ∧ s' = s.put m := by
  unfold update at h
  split at h
  · cases h
  · next hsome =>
    cases h
    exact ⟨Option.ne_none_iff_exists'.mp (by simpa using hsome), rfl⟩

theorem update_error {s' : InMemoryManagedTenantStore} {e : TenantError}
    (h : s.update m = (.error e, s')) : s.get m.tenant.id = none ∧ s' = s := by
  unfold update at h
  split at h
  · next hmissing =>
    cases h
    exact ⟨by simpa using hmissing, rfl⟩
  · cases h

theorem updateUsage_stored (h : s.get id = some m) (usage : TenantUsage) (now : DateTime) :
    s.updateUsage id usage now = (.ok (), s.put (m.recordUsage usage now)) := by
  simp [updateUsage, h]

theorem updateUsage_ok {s' : InMemoryManagedTenantStore} {usage : TenantUsage} {now : DateTime}
    (h : s.updateUsage id usage now = (.ok (), s')) :
    ∃ m, s.get id = some m ∧ s' = s.put (m.recordUsage usage now) := by
  unfold updateUsage at h
  split at h
  · next m hm =>
    cases h
    exact ⟨m, hm, rfl⟩
  · cases h

theorem updateUsage_error {s' : InMemoryManagedTenantStore} {usage : TenantUsage}
    {now : DateTime} {e : TenantError} (h : s.updateUsage id usage now = (.error e, s')) :
    s' = s := by
  unfold updateUsage at h
  split at h <;> cases h
  rfl

end InMemoryManagedTenantStore
end ArmatureTenancy

import ArmatureTenancy.Management.Listing

/-!
# Paging through the matching records

A client pages through a filter by asking for the offsets `0`, `L`, `2L` and so on
until a page is empty. Each page is the window at its place in one fixed list of the
matching records, so nothing is lost or doubled where a page ends, also not among
records with equal times.
-/

namespace ArmatureTenancy

open Foundations

namespace InMemoryManagedTenantStore

theorem nodup_values (s : InMemoryManagedTenantStore) (order : StoreOrder) :
    (s.values order).Nodup := by
  have hkeys : (s.tenants.entries.map Sigma.snd).map (fun m => m.tenant.id) = s.tenants.keys := by
    rw [List.map_map]
    apply List.map_congr_left
    intro entry hentry
    exact id_of_get (AList.mem_lookup_iff.mpr hentry)
  have hnodup : (s.tenants.entries.map Sigma.snd).Nodup := by
    apply List.Nodup.of_map (fun m => m.tenant.id)
    rw [hkeys]
    exact s.tenants.keys_nodup
  exact ((order.perm s.tenants.entries).map Sigma.snd).nodup_iff.mpr hnodup

section Matching

variable (s : InMemoryManagedTenantStore) (order : StoreOrder) (filter : TenantFilter)

theorem matchesFilter_withPagination (offset limit : UInt64) :
    matchesFilter (filter.withPagination offset limit) = matchesFilter filter := rfl

theorem mem_newestFirst {m : ManagedTenant} :
    m ∈ newestFirst (s.filtered order filter) ↔
      s.get m.tenant.id = some m ∧ matchesFilter filter m = true := by
  rw [(perm_newestFirst _).mem_iff, filtered, List.mem_filter, mem_values]

theorem nodup_newestFirst : (newestFirst (s.filtered order filter)).Nodup :=
  (perm_newestFirst _).nodup_iff.mpr ((s.nodup_values order).filter _)

theorem newestFirst_sorted (records : List ManagedTenant) :
    (newestFirst records).Pairwise fun a b => b.createdAt ≤ a.createdAt := by
  have htotal : Std.Total fun a b : ManagedTenant => b.createdAt ≤ a.createdAt :=
    ⟨fun a b => le_total b.createdAt a.createdAt⟩
  have htrans : IsTrans ManagedTenant fun a b => b.createdAt ≤ a.createdAt :=
    ⟨fun _ _ _ hab hbc => hbc.trans hab⟩
  exact List.pairwise_insertionSort _ records

theorem filteredCount_eq (order' : StoreOrder) (offset limit : UInt64) :
    s.filteredCount order' (filter.withPagination offset limit) =
      (newestFirst (s.filtered order filter)).length := by
  have hperm : (s.values order').Perm (s.values order) := by
    unfold values
    exact ((order'.perm _).trans (order.perm _).symm).map Sigma.snd
  rw [length_newestFirst, filteredCount, filteredCount, matchesFilter_withPagination,
    hperm.countP_eq]

end Matching

/-- The page with number `k`, if pages have `size` records. -/
def listPage (s : InMemoryManagedTenantStore) (checked : Bool) (order : StoreOrder)
    (filter : TenantFilter) (size : UInt64) (k : ℕ) : Option (List ManagedTenant) :=
  s.list checked order (filter.withPagination (UInt64.ofNat (k * size.toNat)) size)

theorem listPage_eq (s : InMemoryManagedTenantStore) (checked : Bool) (order : StoreOrder)
    (filter : TenantFilter) (size : UInt64) {k : ℕ}
    (hfits : k * size.toNat + size.toNat < 2 ^ 64) :
    s.listPage checked order filter size k =
      some (window (newestFirst (s.filtered order filter)) (k * size.toNat)
        (k * size.toNat + size.toNat)) := by
  have hoffset : (UInt64.ofNat (k * size.toNat)).toNat = k * size.toNat :=
    UInt64.toNat_ofNat_of_lt' ((Nat.le_add_right _ _).trans_lt hfits)
  rw [listPage, list_eq, if_neg, pageOf]
  · simp only [TenantFilter.withPagination, hoffset]
    rfl
  · simp only [TenantFilter.withPagination, hoffset]
    omega

/-- Up to the first empty page the pages of the client are the records that match the
filter, each of them once, newest first also where one page follows another. All but the
last have the size asked for, and together they have as many records as `count` says. -/
theorem pages_partition_matches (s : InMemoryManagedTenantStore) (checked : Bool)
    (order : StoreOrder) (filter : TenantFilter) (size : UInt64) (hsize : 0 < size)
    (hfits : ∀ k, Requested (s.listPage checked order filter size) k →
      k * size.toNat + size.toNat < 2 ^ 64) :
    (∃ pages, Fetched (s.listPage checked order filter size) 0 pages) ∧
    ∀ pages, Fetched (s.listPage checked order filter size) 0 pages →
      pages.flatten.Nodup ∧
      (∀ m, m ∈ pages.flatten ↔ s.get m.tenant.id = some m ∧ matchesFilter filter m = true) ∧
      pages.flatten.Pairwise (fun a b => b.createdAt ≤ a.createdAt) ∧
      (∀ page ∈ pages.dropLast, page.length = size.toNat) ∧
      ∀ order' offset limit,
        (s.count order' (filter.withPagination offset limit)).toNat = pages.flatten.length := by
  have hpositive : 0 < size.toNat := UInt64.lt_iff_toNat_lt.mp hsize
  have hstart : Requested (s.listPage checked order filter size) 0 := by
    intro j hj
    exact absurd hj (Nat.not_lt_zero j)
  obtain ⟨pages, hfetched, hflatten, hfull⟩ := fetched_of_windows hpositive
    (fun k hk => s.listPage_eq checked order filter size (hfits k hk)) hstart
  rw [Nat.zero_mul, List.drop_zero] at hflatten
  refine ⟨⟨pages, hfetched⟩, ?_⟩
  intro pages' hfetched'
  rw [hfetched'.unique hfetched, hflatten]
  refine ⟨s.nodup_newestFirst order filter, fun m => s.mem_newestFirst order filter,
    newestFirst_sorted _, hfull, ?_⟩
  intro order' offset limit
  have hcount : (newestFirst (s.filtered order filter)).length < 2 ^ 64 := by
    obtain ⟨hrequested, hempty⟩ := hfetched.last hstart
    have hlast := hfits _ hrequested
    rw [s.listPage_eq checked order filter size hlast, Option.some_inj] at hempty
    have hlength := length_window (newestFirst (s.filtered order filter))
      ((0 + pages.length) * size.toNat) size.toNat
    rw [hempty, List.length_nil] at hlength
    omega
  rw [count, s.filteredCount_eq order filter order' offset limit]
  exact UInt64.toNat_ofNat_of_lt' hcount

def threeRecords : InMemoryManagedTenantStore :=
  ((new.put (.fromTenant (.new "t-1" "acme") .free 0)).put
    (.fromTenant (.new "t-2" "globex") .free 0)).put (.fromTenant (.new "t-3" "initech") .free 0)

def searchC : TenantFilter := { TenantFilter.new with search := some "c" }

theorem pages_partition_matches_three :
    ∃ pages, Fetched (threeRecords.listPage true default searchC 1) 0 pages ∧
      pages.flatten.length = 2 ∧ ∀ m ∈ pages.flatten,
        "c".toList <:+: m.tenant.name.toList ∨ "c".toList <:+: m.tenant.id.toList := by
  have hempty : threeRecords.listPage true default searchC 1 2 = some [] := rfl
  have hfits : ∀ k, Requested (threeRecords.listPage true default searchC 1) k →
      k * (1 : UInt64).toNat + (1 : UInt64).toNat < 2 ^ 64 := by
    intro k hk
    have hfew : k ≤ 2 := by
      by_contra hmore
      obtain ⟨page, hpage, hne⟩ := hk 2 (Nat.lt_of_not_le hmore)
      rw [hempty, Option.some_inj] at hpage
      exact hne hpage.symm
    rw [show (1 : UInt64).toNat = 1 from rfl]
    omega
  obtain ⟨⟨pages, hfetched⟩, hpages⟩ :=
    pages_partition_matches threeRecords true default searchC 1 (by decide) hfits
  obtain ⟨-, hmem, -, -, hcount⟩ := hpages pages hfetched
  refine ⟨pages, hfetched, ?_, fun m hm => ?_⟩
  · rw [← hcount default 0 0]
    rfl
  · exact (matchesFilter_iff.mp ((hmem m).mp hm).2).2.2.2 "c" rfl

end InMemoryManagedTenantStore
end ArmatureTenancy

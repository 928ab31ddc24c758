import ArmatureTenancy.Management.Store
import ArmatureTenancy.Foundations.Paging
import Mathlib.Algebra.Group.Nat.Defs
import Mathlib.Data.List.Sort

/-!
# Listing and counting managed tenants

`list` filters the records, sorts them newest first and returns one page, whose end it
computes as a 64-bit sum; `count` counts the same records on a path of its own. The
sum is all that stands between the page and the positions it is meant to have. For an
unchanging store that iterates its map in one order, the pages that follow each other
are the matching records, each of them once.
-/

namespace ArmatureTenancy

open Foundations

structure TenantFilter where
  status : Option TenantStatus
  plan : Option TenantPlan
  ownerId : Option String
  search : Option String
  offset : UInt64
  limit : UInt64

namespace TenantFilter

def new : TenantFilter := ⟨none, none, none, none, 0, 50⟩

def withPagination (filter : TenantFilter) (offset limit : UInt64) : TenantFilter :=
  { filter with offset := offset, limit := limit }

end TenantFilter

def strContains (s pattern : String) : Bool := decide (pattern.toList <:+: s.toList)

/-- `+` on `u64`. Where overflow is checked, it panics. -/
def addU64 (checked : Bool) (a b : UInt64) : Option UInt64 :=
  if checked && decide (2 ^ 64 ≤ a.toNat + b.toNat) then none else some (a + b)

/-- `-` on a 64-bit `usize`. Where overflow is checked, it panics. -/
def subUsize (checked : Bool) (a b : UInt64) : Option UInt64 :=
  if checked && decide (a.toNat < b.toNat) then none else some (a - b)

/-- A stable sort by `Reverse(created_at)`. -/
def newestFirst (records : List ManagedTenant) : List ManagedTenant :=
  records.insertionSort fun a b => b.createdAt ≤ a.createdAt

namespace InMemoryManagedTenantStore

/-- The predicate that `filtered` and `filteredCount` share. -/
def matchesFilter (filter : TenantFilter) (t : ManagedTenant) : Bool :=
  if filter.status.any fun status => t.status != status then false
  else if filter.plan.any fun plan => t.plan != plan then false
  else if filter.ownerId.any fun owner => t.ownerId != some owner then false
  else if filter.search.any fun search =>
    !strContains t.tenant.name search && !strContains t.tenant.id search then false
  else true

theorem strContains_iff {s pattern : String} :
    strContains s pattern = true ↔ pattern.toList <:+: s.toList := decide_eq_true_iff

/-- A record is listed if it has the status, the plan and the owner asked for, and its slug or
its id contains the text searched for. -/
theorem matchesFilter_iff {filter : TenantFilter} {t : ManagedTenant} :
    matchesFilter filter t = true ↔
      (∀ status, filter.status = some status → t.status = status) ∧
      (∀ plan, filter.plan = some plan → t.plan = plan) ∧
      (∀ owner, filter.ownerId = some owner → t.ownerId = some owner) ∧
      ∀ search, filter.search = some search →
        search.toList <:+: t.tenant.name.toList ∨ search.toList <:+: t.tenant.id.toList := by
  obtain ⟨status, plan, ownerId, search, offset, limit⟩ := filter
  unfold matchesFilter
  cases status <;> cases plan <;> cases ownerId <;> cases search <;>
    simp [← strContains_iff, or_iff_not_imp_left]

def filtered (s : InMemoryManagedTenantStore) (order : StoreOrder) (filter : TenantFilter) :
    List ManagedTenant :=
  (s.values order).filter (matchesFilter filter)

def filteredCount (s : InMemoryManagedTenantStore) (order : StoreOrder) (filter : TenantFilter) :
    ℕ :=
  (s.values order).countP (matchesFilter filter)

/-- One page of the matching records, newest first; `none` is a panic. -/
def list (s : InMemoryManagedTenantStore) (checked : Bool) (order : StoreOrder)
    (filter : TenantFilter) : Option (List ManagedTenant) := do
  let results := newestFirst (s.filtered order filter)
  let start := filter.offset
  let stop ← addU64 checked filter.offset filter.limit
  let length ← subUsize checked stop start
  some ((results.drop start.toNat).take length.toNat)

def count (s : InMemoryManagedTenantStore) (order : StoreOrder) (filter : TenantFilter) : UInt64 :=
  UInt64.ofNat (s.filteredCount order filter)

end InMemoryManagedTenantStore

/-- The length of the page is the limit, unless the sum for its end overflows where that
is checked. The two results of a wraparound cancel. -/
theorem pageBounds_eq (checked : Bool) (offset limit : UInt64) :
    ((addU64 checked offset limit).bind fun stop => subUsize checked stop offset) =
      if checked = true ∧ 2 ^ 64 ≤ offset.toNat + limit.toNat then none else some limit := by
  unfold addU64
  by_cases hoverflow : checked = true ∧ 2 ^ 64 ≤ offset.toNat + limit.toNat
  · rw [if_pos hoverflow, if_pos (by simpa using hoverflow), Option.bind_none]
  · have hnoPanic : ¬ (checked && decide ((offset + limit).toNat < offset.toNat)) = true := by
      rw [Bool.and_eq_true, decide_eq_true_eq, UInt64.toNat_add]
      rintro ⟨hchecked, hless⟩
      have hfits : offset.toNat + limit.toNat < 2 ^ 64 :=
        Nat.lt_of_not_le fun hle => hoverflow ⟨hchecked, hle⟩
      rw [Nat.mod_eq_of_lt hfits] at hless
      omega
    have hdifference : offset + limit - offset = limit := by
      rw [UInt64.add_comm, UInt64.add_sub_cancel]
    rw [if_neg hoverflow, if_neg (by simpa using hoverflow), Option.bind_some, subUsize,
      if_neg hnoPanic, hdifference]

namespace InMemoryManagedTenantStore

variable (s : InMemoryManagedTenantStore) (order : StoreOrder) (filter : TenantFilter)

/-- The records at the positions from the offset on, as many as the limit allows. -/
def pageOf : List ManagedTenant :=
  window (newestFirst (s.filtered order filter)) filter.offset.toNat
    (filter.offset.toNat + filter.limit.toNat)

theorem list_eq (checked : Bool) :
    s.list checked order filter =
      if checked = true ∧ 2 ^ 64 ≤ filter.offset.toNat + filter.limit.toNat then none
      else some (s.pageOf order filter) := by
  have hlist : s.list checked order filter =
      ((addU64 checked filter.offset filter.limit).bind fun stop =>
        subUsize checked stop filter.offset).map fun length =>
          ((newestFirst (s.filtered order filter)).drop filter.offset.toNat).take length.toNat := by
    unfold list
    cases addU64 checked filter.offset filter.limit with
    | none => rfl
    | some stop => cases hsub : subUsize checked stop filter.offset <;> simp [hsub]
  rw [hlist, pageBounds_eq, pageOf, window_eq]
  split <;> rfl

theorem perm_newestFirst (records : List ManagedTenant) : (newestFirst records).Perm records :=
  List.perm_insertionSort _ records

theorem length_newestFirst : (newestFirst (s.filtered order filter)).length =
    s.filteredCount order filter := by
  rw [(perm_newestFirst _).length_eq, filtered, filteredCount, List.countP_eq_length_filter]

theorem length_pageOf : (s.pageOf order filter).length =
    min filter.limit.toNat (s.filteredCount order filter - filter.offset.toNat) := by
  rw [pageOf, length_window, length_newestFirst]

/-- What is asked of a call of `list`: that it completes, and with the page. -/
def ListsPage (checked : Bool) : Prop :=
  ∃ records, s.list checked order filter = some records ∧ records = s.pageOf order filter ∧
    records.length = min filter.limit.toNat (s.filteredCount order filter - filter.offset.toNat)

theorem listsPage_iff (checked : Bool) :
    s.ListsPage order filter checked ↔
      (checked = true → filter.offset.toNat + filter.limit.toNat < 2 ^ 64) := by
  unfold ListsPage
  rw [list_eq]
  split
  · next hoverflow =>
    apply iff_of_false (by simp)
    intro hfits
    exact absurd (hfits hoverflow.1) (Nat.not_lt.mpr hoverflow.2)
  · next hfits =>
    apply iff_of_true
    · exact ⟨_, rfl, rfl, s.length_pageOf order filter⟩
    · intro hchecked
      exact Nat.lt_of_not_le fun hle => hfits ⟨hchecked, hle⟩

theorem list_unchecked : s.ListsPage order filter false :=
  (s.listsPage_iff order filter false).mpr (by simp)

/-- A listing computes the bounds of its page without overflow, and returns the records at
exactly the positions asked for, if and only if the end of the page fits 64 bits. -/
theorem listing_total_iff :
    s.ListsPage order filter true ↔ filter.offset.toNat + filter.limit.toNat < 2 ^ 64 := by
  rw [listsPage_iff]
  simp

/-- Everything from the second of two records on: the page asked for has one record, and the
end of the page overflows. -/
theorem maximal_limit_overflows :
    let first := ManagedTenant.fromTenant (.new "t-1" "acme") .free 0
    let second := ManagedTenant.fromTenant (.new "t-2" "globex") .free 1
    let store := (new.put first).put second
    let filter := TenantFilter.new.withPagination 1 18446744073709551615
    store.list true default filter = none ∧
      (store.pageOf default filter).map (fun m => m.tenant.id) = ["t-1"] ∧
      min filter.limit.toNat (store.filteredCount default filter - filter.offset.toNat) = 1 := by
  decide

end InMemoryManagedTenantStore
end ArmatureTenancy

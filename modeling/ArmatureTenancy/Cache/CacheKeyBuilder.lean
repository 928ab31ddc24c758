import ArmatureTenancy.Core.Tenant
import ArmatureTenancy.Foundations.Texts

/-!
# Keys built from parts

`CacheKeyBuilder` joins its parts with `:` and does not escape a `:` inside a part,
so a built key keeps the segments between colons and forgets which of them were
added together. Over the tenant prefix, which decodes, a key determines the tenant
id and these segments, and nothing more.
-/

namespace ArmatureTenancy

open Foundations

structure CacheKeyBuilder where
  parts : List String
  deriving DecidableEq

namespace CacheKeyBuilder

def new : CacheKeyBuilder := ⟨[]⟩

def part (b : CacheKeyBuilder) (part : String) : CacheKeyBuilder := ⟨b.parts ++ [part]⟩

/-- The key without tenant prefix. -/
def build (b : CacheKeyBuilder) : String := ":".intercalate b.parts

def buildForTenant (b : CacheKeyBuilder) (tenant : Tenant) : String := tenant.cacheKey b.build

def ofParts (parts : List String) : CacheKeyBuilder := parts.foldl part new

theorem parts_foldl_part (parts : List String) (b : CacheKeyBuilder) :
    (parts.foldl part b).parts = b.parts ++ parts := by
  induction parts generalizing b with
  | nil => simp
  | cons p parts ih => rw [List.foldl_cons, ih, part, List.append_assoc, List.singleton_append]

@[simp] theorem parts_ofParts (parts : List String) : (ofParts parts).parts = parts := by
  rw [ofParts, parts_foldl_part]
  rfl

end CacheKeyBuilder

/-- What is between the colons of the parts joined with colons. -/
def keySegments (parts : List String) : List (List Char) :=
  segments ':' (parts.map String.toList)

theorem toList_build (b : CacheKeyBuilder) :
    b.build.toList = [':'].intercalate (b.parts.map String.toList) := by
  rw [CacheKeyBuilder.build, String.toList_intercalate]
  rfl

theorem build_eq_iff (b b' : CacheKeyBuilder) :
    b.build = b'.build ↔ keySegments b.parts = keySegments b'.parts := by
  rw [← String.toList_inj, toList_build, toList_build]
  exact intercalate_eq_iff

theorem buildForTenant_eq_iff (a b : Tenant) (p q : List String) :
    (CacheKeyBuilder.ofParts p).buildForTenant a = (CacheKeyBuilder.ofParts q).buildForTenant b ↔
      a.id = b.id ∧ keySegments p = keySegments q := by
  unfold CacheKeyBuilder.buildForTenant
  rw [a.cacheKey_eq, b.cacheKey_eq, Tenant.cachePrefix_prefixFree.append_eq_iff, build_eq_iff,
    CacheKeyBuilder.parts_ofParts, CacheKeyBuilder.parts_ofParts]

theorem keySegments_inj {p q : List String} (hp : ∀ part ∈ p, ':' ∉ part.toList)
    (hq : ∀ part ∈ q, ':' ∉ part.toList) (hempty : p = [] ↔ q = [])
    (h : keySegments p = keySegments q) : p = q := by
  unfold keySegments at h
  rw [segments_of_notMem (by simpa using hp), segments_of_notMem (by simpa using hq)] at h
  by_cases hnil : p = []
  · rw [hnil, hempty.mp hnil]
  · have hnil' : q ≠ [] := fun hq => hnil (hempty.mpr hq)
    rw [if_neg (by simpa using hnil), if_neg (by simpa using hnil')] at h
    exact List.map_injective_iff.mpr (fun s t => String.toList_inj.mp) h

/-- Two built keys are equal exactly if they are of one tenant id and their parts have
the same segments between colons. Lists of parts without colons, both empty or both
not, are then the same lists. -/
theorem built_keys_determine_parts (a b : Tenant) (p q : List String) :
    ((CacheKeyBuilder.ofParts p).buildForTenant a =
        (CacheKeyBuilder.ofParts q).buildForTenant b ↔
      a.id = b.id ∧ keySegments p = keySegments q) ∧
    ((∀ part ∈ p, ':' ∉ part.toList) → (∀ part ∈ q, ':' ∉ part.toList) → (p = [] ↔ q = []) →
      ((CacheKeyBuilder.ofParts p).buildForTenant a =
          (CacheKeyBuilder.ofParts q).buildForTenant b ↔
        a.id = b.id ∧ p = q)) := by
  refine ⟨buildForTenant_eq_iff a b p q, ?_⟩
  intro hp hq hempty
  rw [buildForTenant_eq_iff]
  constructor
  · rintro ⟨hid, hsegments⟩
    exact ⟨hid, keySegments_inj hp hq hempty hsegments⟩
  · rintro ⟨hid, rfl⟩
    exact ⟨hid, rfl⟩

/-- One part with a colon and the two parts around the colon build one key. -/
theorem joined_parts_collide :
    let tenant := Tenant.new "tenant-123" "acme"
    (CacheKeyBuilder.ofParts ["users:1"]).buildForTenant tenant =
        (CacheKeyBuilder.ofParts ["users", "1"]).buildForTenant tenant ∧
      ["users:1"] ≠ ["users", "1"] := by
  decide

end ArmatureTenancy

import ArmatureTenancy.Core.Construction
import ArmatureTenancy.Foundations.Codecs

/-!
# Serialized tenants

The derived `Serialize` writes every field as a member of an object, and the derived
`Deserialize` finds the members by name, so it reads them in any order and among
others, but none twice. An optional field is `null` where it is `None`.
-/

namespace ArmatureTenancy

open Foundations

namespace Json

def isNull : Json → Bool
  | .null => true
  | _ => false

/-- The value is an object with these members, each of its name the only one, in any order
and perhaps among others. -/
def Holds (value : Json) (members : List (String × Json)) : Prop :=
  ∃ all, value = .object all ∧ ∀ member ∈ members,
    all.lookup member.1 = some member.2 ∧ (all.map Prod.fst).count member.1 = 1

theorem lookup_of_mem {members : List (String × Json)} (nodup : (members.map Prod.fst).Nodup)
    {member : String × Json} (h : member ∈ members) :
    members.lookup member.1 = some member.2 := by
  obtain ⟨before, after, rfl⟩ := List.append_of_mem h
  refine List.lookup_eq_some_iff.mpr ⟨before, after, rfl, fun other hother => ?_⟩
  rw [List.map_append, List.map_cons, List.nodup_append] at nodup
  have hne : other.1 ≠ member.1 :=
    nodup.2.2 _ (List.mem_map_of_mem hother) _ List.mem_cons_self
  simpa using hne.symm

theorem holds_object {members all : List (String × Json)} (nodup : (all.map Prod.fst).Nodup)
    (h : members ⊆ all) : (Json.object all).Holds members :=
  ⟨all, rfl, fun _ hmember => ⟨lookup_of_mem nodup (h hmember),
    List.count_eq_one_of_mem nodup (List.mem_map_of_mem (h hmember))⟩⟩

theorem Holds.reads {value : Json} {members : List (String × Json)} (h : value.Holds members)
    {fields : List String} (hfields : members.map Prod.fst = fields) :
    value.isStruct fields = true ∧
      ∀ member ∈ members, value.field fields member.1 = some member.2 := by
  obtain ⟨all, rfl, hall⟩ := h
  refine ⟨List.all_eq_true.mpr fun name hname => ?_, fun member hmember => (hall _ hmember).1⟩
  rw [← hfields] at hname
  obtain ⟨member, hmember, rfl⟩ := List.mem_map.mp hname
  simp [(hall _ hmember).2]

end Json

def jsonString : Codec Json String := ⟨.string, decodeString⟩

def jsonBool : Codec Json Bool := ⟨.bool, decodeBool⟩

abbrev jsonOption {α : Type} (codec : Codec Json α) : Codec Json (Option α) :=
  codec.optional .null Json.isNull

def jsonStringMap : Codec Json (HashMap String String) where
  write map := .object (Codec.writeEntries .string map)
  read := decodeStringMap

theorem read_jsonOption_jsonString (value : Option Json) :
    (jsonOption jsonString).read value = decodeOptionString value := by
  match value with
  | none => rfl
  | some value => cases value <;> rfl

theorem read_write_jsonOption {α : Type} {codec : Codec Json α}
    (hwrite : ∀ x, (codec.write x).isNull = false)
    (hread : ∀ x, codec.read (some (codec.write x)) = some x) (a : Option α) :
    (jsonOption codec).read (some ((jsonOption codec).write a)) = some a :=
  Codec.read_write_optional rfl fun x _ => ⟨hwrite x, hread x⟩

theorem read_write_optionString (s : Option String) :
    (jsonOption jsonString).read (some ((jsonOption jsonString).write s)) = some s :=
  read_write_jsonOption (fun _ => rfl) (fun _ => rfl) s

theorem restores_jsonStringMap (map : HashMap String String) :
    jsonStringMap.Restores SameContents map :=
  Codec.readEntries_writeEntries Json.string Json.asStr (fun _ => rfl) map

namespace Tenant

/-- The members that the derived `Serialize` writes, in the order of the fields. -/
def members (t : Tenant) : List (String × Json) :=
  [("id", jsonString.write t.id), ("name", jsonString.write t.name),
    ("display_name", (jsonOption jsonString).write t.displayName),
    ("domain", (jsonOption jsonString).write t.domain),
    ("database", (jsonOption jsonString).write t.database),
    ("schema", (jsonOption jsonString).write t.schema),
    ("active", jsonBool.write t.active), ("metadata", jsonStringMap.write t.metadata)]

def serialize (t : Tenant) : Json := .object t.members

/-- The derived `==`, which compares hash maps by their contents. -/
structure Same (a b : Tenant) : Prop where
  metadata : SameContents a.metadata b.metadata
  others : b = { a with metadata := b.metadata }

theorem deserialize_of_holds {value : Json} {t : Tenant} (h : value.Holds t.members) :
    ∃ t', deserialize value = some t' ∧ t.Same t' := by
  obtain ⟨metadata, hread, hsame⟩ := restores_jsonStringMap t.metadata
  obtain ⟨hstruct, hfields⟩ := h.reads (show _ = fields from rfl)
  simp only [members, List.forall_mem_cons] at hfields
  obtain ⟨hid, hname, hdisplayName, hdomain, hdatabase, hschema, hactive, hmetadata, -⟩ := hfields
  refine ⟨{ t with metadata := metadata }, ?_, hsame, rfl⟩
  change decodeStringMap (some (jsonStringMap.write t.metadata)) = some metadata at hread
  simp only [deserialize, hstruct, hid, hname, hdisplayName, hdomain, hdatabase, hschema, hactive,
    hmetadata, hread, ← read_jsonOption_jsonString, read_write_optionString]
  rfl

end Tenant
end ArmatureTenancy

import ArmatureTenancy.Core.Tenant
import Mathlib.Data.Option.Basic

/-!
# Construction paths of a tenant

A tenant comes from `Tenant::new` or from deserialization, followed by builder calls.
`with_schema` validates the name it stores. Deserialization fills every field with the
decoded value; the format is a parameter, with JSON as an instance.
-/

namespace ArmatureTenancy

/-- A decoded optional string: a missing member and `null` both mean `None`. -/
def decodeOptionString : Option Json → Option (Option String)
  | none => some none
  | some .null => some none
  | some (.string s) => some (some s)
  | some _ => none

def decodeString : Option Json → Option String
  | some (.string s) => some s
  | _ => none

def decodeBool : Option Json → Option Bool
  | some (.bool b) => some b
  | _ => none

/-- A decoded `HashMap<String, String>`: later members replace earlier ones. -/
def decodeStringMap : Option Json → Option (HashMap String String)
  | some (.object members) =>
    members.foldlM (fun map member => member.2.asStr.map (map.insert member.1 ·)) ∅
  | _ => none

/-- The derived `Deserialize` in a format with serialized values in `V`: the decoded value of
each field, if there is one, and the tenant whose fields are filled with them. -/
structure TenantDecoder (V : Type) where
  id : V → Option String
  name : V → Option String
  displayName : V → Option (Option String)
  domain : V → Option (Option String)
  database : V → Option (Option String)
  schema : V → Option (Option String)
  active : V → Option Bool
  metadata : V → Option (HashMap String String)
  deserialize : V → Option Tenant
  fills : ∀ {value t}, deserialize value = some t →
    id value = some t.id ∧ name value = some t.name ∧ displayName value = some t.displayName ∧
      domain value = some t.domain ∧ database value = some t.database ∧
      schema value = some t.schema ∧ active value = some t.active ∧
      metadata value = some t.metadata

namespace Tenant

def fields : List String :=
  ["id", "name", "display_name", "domain", "database", "schema", "active", "metadata"]

def deserialize (value : Json) : Option Tenant := do
  guard (value.isStruct fields)
  let id ← decodeString (value.field fields "id")
  let name ← decodeString (value.field fields "name")
  let displayName ← decodeOptionString (value.field fields "display_name")
  let domain ← decodeOptionString (value.field fields "domain")
  let database ← decodeOptionString (value.field fields "database")
  let schema ← decodeOptionString (value.field fields "schema")
  let active ← decodeBool (value.field fields "active")
  let metadata ← decodeStringMap (value.field fields "metadata")
  some ⟨id, name, displayName, domain, database, schema, active, metadata⟩

/-- `serde_json`. -/
def jsonDecoder : TenantDecoder Json where
  id value := decodeString (value.field fields "id")
  name value := decodeString (value.field fields "name")
  displayName value := decodeOptionString (value.field fields "display_name")
  domain value := decodeOptionString (value.field fields "domain")
  database value := decodeOptionString (value.field fields "database")
  schema value := decodeOptionString (value.field fields "schema")
  active value := decodeBool (value.field fields "active")
  metadata value := decodeStringMap (value.field fields "metadata")
  deserialize := deserialize
  fills {value t} h := by
    simp only [deserialize, Option.bind_eq_bind, Option.bind_eq_some_iff, Option.some.injEq] at h
    obtain ⟨-, -, id, hid, name, hname, displayName, hdisplayName, domain, hdomain, database,
      hdatabase, schema, hschema, active, hactive, metadata, hmetadata, rfl⟩ := h
    exact ⟨hid, hname, hdisplayName, hdomain, hdatabase, hschema, hactive, hmetadata⟩

end Tenant

inductive BuilderCall where
  | withDisplayName : String → BuilderCall
  | withDomain : String → BuilderCall
  | withDatabase : String → BuilderCall
  | withSchema : String → BuilderCall
  | withActive : Bool → BuilderCall
  | withMetadata : String → String → BuilderCall

def BuilderCall.apply (t : Tenant) : BuilderCall → Except TenantError Tenant
  | .withDisplayName s => .ok (t.withDisplayName s)
  | .withDomain s => .ok (t.withDomain s)
  | .withDatabase s => .ok (t.withDatabase s)
  | .withSchema s => t.withSchema s
  | .withActive b => .ok (t.withActive b)
  | .withMetadata key value => .ok (t.withMetadata key value)

/-- Where a tenant value starts from. -/
inductive TenantOrigin (V : Type) where
  | new : (id name : String) → TenantOrigin V
  | deserialized : V → TenantOrigin V

def TenantOrigin.tenant {V : Type} (decoder : TenantDecoder V) : TenantOrigin V → Option Tenant
  | .new id name => some (Tenant.new id name)
  | .deserialized value => decoder.deserialize value

/-- The tenant a construction path ends with, if no step of it fails. -/
def construct {V : Type} (decoder : TenantDecoder V) (origin : TenantOrigin V)
    (calls : List BuilderCall) : Option Tenant := do
  let t ← origin.tenant decoder
  (calls.foldlM BuilderCall.apply t).toOption

/-- Builder calls keep the schema they start with, or leave one that passed validation. -/
theorem builder_schema {calls : List BuilderCall} {t t' : Tenant}
    (h : calls.foldlM BuilderCall.apply t = .ok t') :
    ((∀ s, .withSchema s ∉ calls) ∧ t'.schema = t.schema) ∨
      ∃ s, .withSchema s ∈ calls ∧ t'.schema = some s ∧ isValidSchemaName s = true := by
  induction calls generalizing t with
  | nil =>
    rw [List.foldlM_nil] at h
    cases h
    exact .inl ⟨by simp, rfl⟩
  | cons call calls ih =>
    rw [List.foldlM_cons] at h
    cases happly : call.apply t with
    | error e =>
      rw [happly] at h
      cases h
    | ok t₁ =>
      rw [happly] at h
      rcases ih h with ⟨hnone, hschema⟩ | ⟨s, hs, hschema, hvalid⟩
      · cases call with
        | withSchema s =>
          obtain ⟨hvalid, rfl⟩ := Tenant.withSchema_ok_iff.mp happly
          exact .inr ⟨s, by simp, hschema, hvalid⟩
        | _ =>
          cases happly
          exact .inl ⟨by simpa using hnone, hschema⟩
      · exact .inr ⟨s, by simp [hs], hschema, hvalid⟩

end ArmatureTenancy

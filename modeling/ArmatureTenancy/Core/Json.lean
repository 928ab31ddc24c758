import Mathlib.Data.List.Basic

/-!
# JSON values

The data of `serde_json::Value`. Numbers keep their text, since no code here
reads them; the members of an object are looked up by name.
-/

namespace ArmatureTenancy

inductive Json where
  | null : Json
  | bool : Bool → Json
  | number : String → Json
  | string : String → Json
  | array : List Json → Json
  | object : List (String × Json) → Json
  deriving Inhabited

namespace Json

/-- `Value::get` with a string index: the member of that name of an object. -/
def get (value : Json) (key : String) : Option Json :=
  match value with
  | .object members => members.lookup key
  | _ => none

/-- `Value::as_str`. -/
def asStr : Json → Option String
  | .string s => some s
  | _ => none

/-- The values a derived `Deserialize` reads as a structure with these fields: an object in
which no field occurs twice, or an array with one element for each field. -/
def isStruct (fields : List String) : Json → Bool
  | .object members => fields.all fun field => (members.map Prod.fst).count field ≤ 1
  | .array elements => elements.length == fields.length
  | _ => false

/-- What such a value holds for a field. -/
def field (fields : List String) (value : Json) (name : String) : Option Json :=
  match value with
  | .object members => members.lookup name
  | .array elements => elements[fields.idxOf name]?
  | _ => none

end Json
end ArmatureTenancy

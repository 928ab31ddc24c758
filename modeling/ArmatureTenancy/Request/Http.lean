import ArmatureTenancy.Core.Tenant

/-!
# Requests and the authenticated principal

Requests come from `armature_core` and the authenticated principal from
`armature_auth`. Neither is part of this repository, so header maps and the
request's typed extensions are type classes that hold the operations used here,
and the rest of a request is left abstract. What the code relies on is stated as
laws: an extension is a map keyed by the type of its value.
-/

namespace ArmatureTenancy

/-- The operations used on a header map. -/
class HeaderMap (H : Type) where
  names : H → List String
  get : H → String → Option String
  removeAll : H → String → H

/-- Storage of at most one value of the type `τ`, among values of other types. -/
class TypedStorage (X τ : Type) where
  get : X → Option τ
  insert : X → τ → X
  remove : X → X

class LawfulTypedStorage (X τ : Type) [TypedStorage X τ] : Prop where
  get_insert : ∀ (x : X) (value : τ), TypedStorage.get (TypedStorage.insert x value) = some value
  get_remove : ∀ x : X, TypedStorage.get (TypedStorage.remove τ x) = (none : Option τ)

/-- Writing a value of type `τ` leaves the stored value of type `υ` alone. -/
class SeparateStorage (X τ υ : Type) [TypedStorage X τ] [TypedStorage X υ] : Prop where
  get_insert : ∀ (x : X) (value : τ),
    (TypedStorage.get (TypedStorage.insert x value) : Option υ) = TypedStorage.get x
  get_remove : ∀ x : X, (TypedStorage.get (TypedStorage.remove τ x) : Option υ) =
    TypedStorage.get x

/-- The rest of a request has a target, read without its query string. -/
class RequestTarget (B : Type) where
  pathOnly : B → String

/-- A request: its headers, its extensions, and everything else about it. -/
structure HttpRequest (H X B : Type) where
  headers : H
  extensions : X
  rest : B

/-- The verified principal; `metadata` is its verified claim set. -/
structure UserContext where
  metadata : Json

/-- `armature_core::Error`, with the variants this crate does not build in one. -/
inductive Error (ε : Type) where
  | unauthorized : String → Error ε
  | forbidden : String → Error ε
  | other : ε → Error ε

namespace HttpRequest

variable {H X B : Type}

def extension (τ : Type) [TypedStorage X τ] (request : HttpRequest H X B) : Option τ :=
  TypedStorage.get request.extensions

def withExtension {τ : Type} [TypedStorage X τ] (request : HttpRequest H X B) (value : τ) :
    HttpRequest H X B :=
  { request with extensions := TypedStorage.insert request.extensions value }

def withoutExtension (τ : Type) [TypedStorage X τ] (request : HttpRequest H X B) :
    HttpRequest H X B :=
  { request with extensions := TypedStorage.remove τ request.extensions }

section Laws

variable {τ υ : Type} [TypedStorage X τ] [TypedStorage X υ] (request : HttpRequest H X B)

@[simp] theorem extension_withExtension [LawfulTypedStorage X τ] (value : τ) :
    (request.withExtension value).extension τ = some value :=
  LawfulTypedStorage.get_insert _ _

@[simp] theorem extension_withoutExtension [LawfulTypedStorage X τ] :
    (request.withoutExtension τ).extension τ = none :=
  LawfulTypedStorage.get_remove _

@[simp] theorem extension_withExtension_of_separate [SeparateStorage X τ υ] (value : τ) :
    (request.withExtension value).extension υ = request.extension υ :=
  SeparateStorage.get_insert _ _

@[simp] theorem extension_withoutExtension_of_separate [SeparateStorage X τ υ] :
    (request.withoutExtension τ).extension υ = request.extension υ :=
  SeparateStorage.get_remove _

end Laws
end HttpRequest

/-- A header map as the list of its headers, looked up case-insensitively. -/
abbrev HeaderList := List (String × String)

instance : HeaderMap HeaderList where
  names headers := headers.map Prod.fst
  get headers name := (headers.find? fun header => header.1.toLower == name.toLower).map Prod.snd
  removeAll headers name := headers.filter fun header => header.1.toLower != name.toLower

/-- Extensions with room for the two types this crate stores and reads. -/
structure ContextSlots where
  context : Option TenantContext
  user : Option UserContext

instance : TypedStorage ContextSlots TenantContext where
  get slots := slots.context
  insert slots value := { slots with context := some value }
  remove slots := { slots with context := none }

instance : TypedStorage ContextSlots UserContext where
  get slots := slots.user
  insert slots value := { slots with user := some value }
  remove slots := { slots with user := none }

instance : LawfulTypedStorage ContextSlots TenantContext := ⟨fun _ _ => rfl, fun _ => rfl⟩

instance : SeparateStorage ContextSlots TenantContext UserContext := ⟨fun _ _ => rfl, fun _ => rfl⟩

end ArmatureTenancy

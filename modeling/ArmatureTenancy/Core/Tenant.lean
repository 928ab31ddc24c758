import ArmatureTenancy.Core.Json
import ArmatureTenancy.Foundations.Codes
import Mathlib.Data.List.AList

/-!
# Tenants and the request-scoped tenant context

Hash maps are association lists without duplicate keys. The builder methods of
`Tenant` are its only public construction paths besides deserialization; the
derived `Deserialize` fills each field with the decoded member of an object.
-/

namespace ArmatureTenancy

open Foundations

/-- `std::collections::HashMap`, in one order of its entries. -/
abbrev HashMap (κ ν : Type*) := AList fun _ : κ => ν

inductive TenantError where
  | notFound : String → TenantError
  | invalid : String → TenantError
  | resolutionFailed : String → TenantError
  | inactive : TenantError
  | storage : String → TenantError
  deriving DecidableEq, Inhabited

def TenantError.toString : TenantError → String
  | .notFound what => "Tenant not found: " ++ what
  | .invalid what => "Invalid tenant identifier: " ++ what
  | .resolutionFailed why => "Tenant resolution failed: " ++ why
  | .inactive => "Tenant is inactive"
  | .storage what => "Storage error: " ++ what

/-- Maximum length of a PostgreSQL identifier (`NAMEDATALEN - 1`). -/
def maxIdentifierLen : ℕ := 63

/-- Whether `name` is safe to interpolate into SQL as a bare schema identifier. -/
def isValidSchemaName (name : String) : Bool :=
  if name.isEmpty || decide (maxIdentifierLen < name.utf8ByteSize) then false
  else
    let chars := name.toList
    let firstOk := chars.head?.any fun c => c.isAlpha || c == '_'
    firstOk && chars.tail.all fun c => c.isAlphanum || c == '_'

/-- A character of a string in its `Debug` rendering. Outside ASCII every character is taken to
be printable. -/
def debugChar (c : Char) : List Char :=
  if c = '\x00' then ['\\', '0']
  else if c = '\t' then ['\\', 't']
  else if c = '\r' then ['\\', 'r']
  else if c = '\n' then ['\\', 'n']
  else if c = '"' ∨ c = '\\' then ['\\', c]
  else if c.toNat < 0x20 ∨ c.toNat = 0x7f then
    "\\u\x7b".toList ++ Nat.toDigits 16 c.toNat ++ ['\x7d']
  else [c]

def debugString (s : String) : String :=
  "\"" ++ String.ofList (s.toList.flatMap debugChar) ++ "\""

structure Tenant where
  id : String
  name : String
  displayName : Option String
  domain : Option String
  database : Option String
  schema : Option String
  active : Bool
  metadata : HashMap String String
  deriving DecidableEq

namespace Tenant

def new (id name : String) : Tenant where
  id := id
  name := name
  displayName := none
  domain := none
  database := none
  schema := none
  active := true
  metadata := ∅

def withDisplayName (t : Tenant) (displayName : String) : Tenant :=
  { t with displayName := some displayName }

def withDomain (t : Tenant) (domain : String) : Tenant := { t with domain := some domain }

def withDatabase (t : Tenant) (database : String) : Tenant := { t with database := some database }

def withSchema (t : Tenant) (schema : String) : Except TenantError Tenant :=
  if !isValidSchemaName schema then
    .error (.invalid
      ("Invalid schema name: " ++ debugString schema ++ " (expected an unquoted SQL identifier)"))
  else .ok { t with schema := some schema }

def withActive (t : Tenant) (active : Bool) : Tenant := { t with active := active }

def withMetadata (t : Tenant) (key value : String) : Tenant :=
  { t with metadata := t.metadata.insert key value }

/-- The `id` segment is length-prefixed: `tenant:{id.len()}:{id}:{key}`. -/
def cacheKey (t : Tenant) (key : String) : String :=
  "tenant:" ++ toString t.id.utf8ByteSize ++ ":" ++ t.id ++ ":" ++ key

def cachePrefix (id : String) : String := "tenant:" ++ lengthPrefixed ':' id

theorem cachePrefix_prefixFree : PrefixFree cachePrefix :=
  (lengthPrefixed_prefixFree (by decide)).prepend "tenant:"

theorem cacheKey_eq (t : Tenant) (key : String) : t.cacheKey key = cachePrefix t.id ++ key := by
  simp [cacheKey, cachePrefix, lengthPrefixed, String.append_assoc, Char.toString]

theorem cacheKey_empty (t : Tenant) : t.cacheKey "" = cachePrefix t.id := by
  simp [t.cacheKey_eq]

theorem withSchema_ok_iff {t t' : Tenant} {schema : String} :
    t.withSchema schema = .ok t' ↔
      isValidSchemaName schema = true ∧ t' = { t with schema := some schema } := by
  unfold withSchema
  cases isValidSchemaName schema <;> simp [eq_comm]

end Tenant

structure TenantContext where
  tenant : Option Tenant
  /-- `true` only when the middleware verified that the authenticated principal
  is a member of `tenant`. -/
  principalBound : Bool
  deriving DecidableEq

namespace TenantContext

def new : TenantContext := ⟨none, false⟩

def default : TenantContext := new

def withTenant (tenant : Tenant) : TenantContext := ⟨some tenant, false⟩

/-- Context for a tenant whose membership was verified; private to the crate. -/
def boundToPrincipal (tenant : Tenant) : TenantContext := ⟨some tenant, true⟩

def isPrincipalBound (ctx : TenantContext) : Bool := ctx.principalBound

/-- Replacing the tenant clears the principal binding. -/
def setTenant (_ctx : TenantContext) (tenant : Tenant) : TenantContext := ⟨some tenant, false⟩

def tenantId (ctx : TenantContext) : Option String := ctx.tenant.map Tenant.id

end TenantContext
end ArmatureTenancy

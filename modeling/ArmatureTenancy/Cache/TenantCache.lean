import ArmatureTenancy.Core.Tenant
import ArmatureTenancy.Foundations.Maps
import ArmatureTenancy.Foundations.Interleaving

/-!
# The tenant-aware cache

`TenantCache` wraps a provider and puts the tenant's length-prefixed id in front
of every key. Its methods are programs over the provider's calls, so one
definition serves both sequential execution and every interleaving. The provider
is a parameter of the code; `mapProvider` is the string-keyed map with exact
`starts_with` listing in which any call may fail without effect.
-/

namespace ArmatureTenancy

open Foundations

inductive CacheError where
  | error : String → CacheError
  | serialization : String → CacheError
  | connection : String → CacheError
  deriving DecidableEq

abbrev Bytes := List UInt8

/-- `std::time::Duration`, in nanoseconds. -/
abbrev Duration := ℕ

/-- The required methods of `CacheProvider`, and `keys_with_prefix`. -/
inductive CacheCall where
  | get : (key : String) → CacheCall
  | set : (key : String) → (value : Bytes) → (ttl : Option Duration) → CacheCall
  | delete : (key : String) → CacheCall
  | existsKey : (key : String) → CacheCall
  | keysWithPrefix : (keyPrefix : String) → CacheCall

namespace CacheCall

abbrev Answer : CacheCall → Type
  | .get _ => Except CacheError (Option Bytes)
  | .set .. => Except CacheError Unit
  | .delete _ => Except CacheError Unit
  | .existsKey _ => Except CacheError Bool
  | .keysWithPrefix _ => Except CacheError (List String)

end CacheCall

abbrev CacheM := ExceptT CacheError (Program CacheCall CacheCall.Answer)

namespace CacheProvider

def call (e : CacheCall) : Program CacheCall CacheCall.Answer e.Answer := .perform e

def get (key : String) : CacheM (Option Bytes) := .mk (call (.get key))
def set (key : String) (value : Bytes) (ttl : Option Duration) : CacheM Unit :=
  .mk (call (.set key value ttl))
def delete (key : String) : CacheM Unit := .mk (call (.delete key))
def existsKey (key : String) : CacheM Bool := .mk (call (.existsKey key))
def keysWithPrefix (keyPrefix : String) : CacheM (List String) :=
  .mk (call (.keysWithPrefix keyPrefix))

/-- The default `delete_many`: one `delete` for each key, stopping at an error. -/
def deleteMany : List String → CacheM Unit
  | [] => pure ()
  | key :: keys => do
    delete key
    deleteMany keys

end CacheProvider

namespace TenantCache

def get (tenant : Tenant) (key : String) : CacheM (Option Bytes) := do
  let prefixedKey := tenant.cacheKey key
  CacheProvider.get prefixedKey

def set (tenant : Tenant) (key : String) (value : Bytes) (ttl : Option Duration) :
    CacheM Unit := do
  let prefixedKey := tenant.cacheKey key
  CacheProvider.set prefixedKey value ttl

def delete (tenant : Tenant) (key : String) : CacheM Unit := do
  let prefixedKey := tenant.cacheKey key
  CacheProvider.delete prefixedKey

def existsKey (tenant : Tenant) (key : String) : CacheM Bool := do
  let prefixedKey := tenant.cacheKey key
  CacheProvider.existsKey prefixedKey

/-- A scan for the tenant's keys followed by a delete of each one. -/
def clearTenant (tenant : Tenant) : CacheM Unit := do
  let keyPrefix := tenant.cacheKey ""
  let keys ← CacheProvider.keysWithPrefix keyPrefix
  CacheProvider.deleteMany keys
  pure ()

end TenantCache

inductive CacheOp where
  | get : (key : String) → CacheOp
  | set : (key : String) → (value : Bytes) → (ttl : Option Duration) → CacheOp
  | delete : (key : String) → CacheOp
  | existsKey : (key : String) → CacheOp
  | clearTenant : CacheOp

inductive CacheReply where
  | value : Option Bytes → CacheReply
  | done : CacheReply
  | found : Bool → CacheReply
  deriving DecidableEq

structure TenantCall where
  tenant : Tenant
  op : CacheOp

def TenantCall.code (call : TenantCall) : CacheM CacheReply :=
  match call.op with
  | .get key => .value <$> TenantCache.get call.tenant key
  | .set key value ttl => (fun _ => .done) <$> TenantCache.set call.tenant key value ttl
  | .delete key => (fun _ => .done) <$> TenantCache.delete call.tenant key
  | .existsKey key => .found <$> TenantCache.existsKey call.tenant key
  | .clearTenant => (fun _ => .done) <$> TenantCache.clearTenant call.tenant

abbrev CacheProgram := Program CacheCall CacheCall.Answer (Except CacheError CacheReply)

def TenantCall.program (call : TenantCall) : CacheProgram := call.code.run

abbrev CacheStore := HashMap String Bytes

/-- What the environment decides at one provider call: whether it fails, and
the order in which a scan lists its keys. -/
structure CacheChoice where
  fault : Option CacheError
  order : IterationOrder String

def keysStartingWith (store : CacheStore) (keyPrefix : String) : List String :=
  store.keys.filter fun key => key.startsWith keyPrefix

/-- A string-keyed map in which any call may fail without effect. -/
def mapProvider (choice : CacheChoice) (store : CacheStore) :
    (call : CacheCall) → Option (call.Answer × CacheStore)
  | .get key => some <| match choice.fault with
    | some e => (.error e, store)
    | none => (.ok (store.lookup key), store)
  | .set key value _ => some <| match choice.fault with
    | some e => (.error e, store)
    | none => (.ok (), store.insert key value)
  | .delete key => some <| match choice.fault with
    | some e => (.error e, store)
    | none => (.ok (), store.erase key)
  | .existsKey key => some <| match choice.fault with
    | some e => (.error e, store)
    | none => (.ok (store.lookup key).isSome, store)
  | .keysWithPrefix keyPrefix => some <| match choice.fault with
    | some e => (.error e, store)
    | none => (.ok (choice.order.arrange (keysStartingWith store keyPrefix)), store)

end ArmatureTenancy

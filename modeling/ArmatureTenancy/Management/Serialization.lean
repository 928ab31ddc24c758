import ArmatureTenancy.Core.Serialization
import ArmatureTenancy.Management.Records

/-!
# Serialized records and requests

The JSON forms of the records and requests of the manager. `chrono` writes a time as an
RFC 3339 text, which is a parameter here. Records and creation requests come back as they
were. In an update request the domain is an optional option: `null` asks to clear it when
it is written and to leave it when it is read.
-/

namespace ArmatureTenancy

open Foundations

def decodeNat (bound : ℕ) : Option Json → Option ℕ
  | some (.number text) =>
    let digits := text.toList
    if digits ≠ [] ∧ digits.all Char.isDigit = true ∧ Nat.ofDigitChars 10 digits 0 < bound then
      some (Nat.ofDigitChars 10 digits 0)
    else none
  | _ => none

def jsonU32 : Codec Json UInt32 where
  write n := .number (toString n.toNat)
  read value := (decodeNat UInt32.size value).map UInt32.ofNat

def jsonU64 : Codec Json UInt64 where
  write n := .number (toString n.toNat)
  read value := (decodeNat UInt64.size value).map UInt64.ofNat

/-- `HashMap<String, serde_json::Value>`. -/
def jsonValueMap : Codec Json (HashMap String Json) where
  write map := .object (Codec.writeEntries id map)
  read
    | some (.object members) => Codec.readEntries some members
    | _ => none

/-- The name of a unit variant, bare or as the one member of an object, which is null. -/
def decodeVariant : Option Json → Option String
  | some (.string s) => some s
  | some (.object [(s, .null)]) => some s
  | _ => none

/-- A unit variant, under its name in snake case. -/
def jsonVariant {α : Type} (variantName : α → String) (variants : List α) : Codec Json α where
  write a := .string (variantName a)
  read value := (decodeVariant value).bind fun s => variants.find? fun a => variantName a == s

def TenantStatus.variantName : TenantStatus → String
  | .provisioning => "provisioning"
  | .active => "active"
  | .suspended => "suspended"
  | .terminating => "terminating"
  | .terminated => "terminated"

def TenantPlan.variantName : TenantPlan → String
  | .free => "free"
  | .starter => "starter"
  | .professional => "professional"
  | .enterprise => "enterprise"
  | .custom => "custom"

def jsonStatus : Codec Json TenantStatus :=
  jsonVariant TenantStatus.variantName
    [.provisioning, .active, .suspended, .terminating, .terminated]

def jsonPlan : Codec Json TenantPlan :=
  jsonVariant TenantPlan.variantName [.free, .starter, .professional, .enterprise, .custom]

theorem decodeNat_toString {n bound : ℕ} (h : n < bound) :
    decodeNat bound (some (.number (toString n))) = some n := by
  have hdigits : (toString n).toList = Nat.toDigits 10 n := Nat.toList_repr
  have hall : (Nat.toDigits 10 n).all Char.isDigit = true :=
    List.all_eq_true.mpr fun c hc => Nat.isDigit_of_mem_toDigits (by omega) (by omega) hc
  simp only [decodeNat, hdigits, Nat.ofDigitChars_ten_toDigits]
  exact if_pos ⟨Nat.toDigits_ne_nil, hall, h⟩

theorem read_write_u32 (n : UInt32) : jsonU32.read (some (jsonU32.write n)) = some n := by
  change (decodeNat UInt32.size (some (.number (toString n.toNat)))).map UInt32.ofNat = some n
  rw [decodeNat_toString n.toNat_lt, Option.map_some, UInt32.ofNat_toNat]

theorem read_write_u64 (n : UInt64) : jsonU64.read (some (jsonU64.write n)) = some n := by
  change (decodeNat UInt64.size (some (.number (toString n.toNat)))).map UInt64.ofNat = some n
  rw [decodeNat_toString n.toNat_lt, Option.map_some, UInt64.ofNat_toNat]

theorem read_write_optionU32 (n : Option UInt32) :
    (jsonOption jsonU32).read (some ((jsonOption jsonU32).write n)) = some n :=
  read_write_jsonOption (fun _ => rfl) read_write_u32 n

theorem read_write_optionU64 (n : Option UInt64) :
    (jsonOption jsonU64).read (some ((jsonOption jsonU64).write n)) = some n :=
  read_write_jsonOption (fun _ => rfl) read_write_u64 n

theorem read_write_status (status : TenantStatus) :
    jsonStatus.read (some (jsonStatus.write status)) = some status := by
  cases status <;> decide

theorem read_write_plan (plan : TenantPlan) :
    jsonPlan.read (some (jsonPlan.write plan)) = some plan := by
  cases plan <;> decide

theorem restores_jsonValueMap (map : HashMap String Json) :
    jsonValueMap.Restores SameContents map :=
  Codec.readEntries_writeEntries id some (fun _ => rfl) map

namespace TenantLimits

def fields : List String :=
  ["max_users", "max_storage_bytes", "max_api_requests", "max_connections", "custom"]

def members (limits : TenantLimits) : List (String × Json) :=
  [("max_users", (jsonOption jsonU32).write limits.maxUsers),
    ("max_storage_bytes", (jsonOption jsonU64).write limits.maxStorageBytes),
    ("max_api_requests", (jsonOption jsonU64).write limits.maxApiRequests),
    ("max_connections", (jsonOption jsonU32).write limits.maxConnections),
    ("custom", jsonValueMap.write limits.custom)]

def deserialize (value : Json) : Option TenantLimits := do
  guard (value.isStruct fields)
  let maxUsers ← (jsonOption jsonU32).read (value.field fields "max_users")
  let maxStorageBytes ← (jsonOption jsonU64).read (value.field fields "max_storage_bytes")
  let maxApiRequests ← (jsonOption jsonU64).read (value.field fields "max_api_requests")
  let maxConnections ← (jsonOption jsonU32).read (value.field fields "max_connections")
  let custom ← jsonValueMap.read (value.field fields "custom")
  some ⟨maxUsers, maxStorageBytes, maxApiRequests, maxConnections, custom⟩

structure Same (a b : TenantLimits) : Prop where
  custom : SameContents a.custom b.custom
  others : b = { a with custom := b.custom }

theorem deserialize_of_holds {value : Json} {limits : TenantLimits}
    (h : value.Holds limits.members) :
    ∃ limits', deserialize value = some limits' ∧ limits.Same limits' := by
  obtain ⟨custom, hread, hsame⟩ := restores_jsonValueMap limits.custom
  obtain ⟨hstruct, hfields⟩ := h.reads (show _ = fields from rfl)
  simp only [members, List.forall_mem_cons] at hfields
  obtain ⟨hmaxUsers, hmaxStorageBytes, hmaxApiRequests, hmaxConnections, hcustom, -⟩ := hfields
  refine ⟨{ limits with custom := custom }, ?_, hsame, rfl⟩
  simp only [deserialize, hstruct, hmaxUsers, hmaxStorageBytes, hmaxApiRequests, hmaxConnections,
    hcustom, hread, read_write_optionU32, read_write_optionU64]
  rfl

end TenantLimits

def jsonLimits : Codec Json TenantLimits where
  write limits := .object limits.members
  read value := value.bind TenantLimits.deserialize

theorem restores_jsonLimits (limits : TenantLimits) :
    jsonLimits.Restores TenantLimits.Same limits :=
  TenantLimits.deserialize_of_holds (Json.holds_object (by simp [TenantLimits.members])
    (List.Subset.refl _))

section Times

variable (format : DateTime → String) (parse : String → Option DateTime)

def jsonTime : Codec Json DateTime where
  write time := .string (format time)
  read value := (decodeString value).bind parse

namespace TenantUsage

def fields : List String :=
  ["users", "storage_bytes", "api_requests", "active_connections", "custom", "last_updated"]

def members (usage : TenantUsage) : List (String × Json) :=
  [("users", jsonU32.write usage.users), ("storage_bytes", jsonU64.write usage.storageBytes),
    ("api_requests", jsonU64.write usage.apiRequests),
    ("active_connections", jsonU32.write usage.activeConnections),
    ("custom", jsonValueMap.write usage.custom),
    ("last_updated", (jsonOption (jsonTime format parse)).write usage.lastUpdated)]

def deserialize (value : Json) : Option TenantUsage := do
  guard (value.isStruct fields)
  let users ← jsonU32.read (value.field fields "users")
  let storageBytes ← jsonU64.read (value.field fields "storage_bytes")
  let apiRequests ← jsonU64.read (value.field fields "api_requests")
  let activeConnections ← jsonU32.read (value.field fields "active_connections")
  let custom ← jsonValueMap.read (value.field fields "custom")
  let lastUpdated ← (jsonOption (jsonTime format parse)).read (value.field fields "last_updated")
  some ⟨users, storageBytes, apiRequests, activeConnections, custom, lastUpdated⟩

structure Same (a b : TenantUsage) : Prop where
  custom : SameContents a.custom b.custom
  others : b = { a with custom := b.custom }

variable {format parse}

theorem deserialize_of_holds {value : Json} {usage : TenantUsage}
    (htimes : ∀ time ∈ usage.lastUpdated, parse (format time) = some time)
    (h : value.Holds (usage.members format parse)) :
    ∃ usage', deserialize format parse value = some usage' ∧ usage.Same usage' := by
  obtain ⟨custom, hread, hsame⟩ := restores_jsonValueMap usage.custom
  obtain ⟨hstruct, hfields⟩ := h.reads (show _ = fields from rfl)
  simp only [members, List.forall_mem_cons] at hfields
  obtain ⟨husers, hstorageBytes, hapiRequests, hconnections, hcustom, hlastUpdated, -⟩ := hfields
  have htime : (jsonOption (jsonTime format parse)).read
      (some ((jsonOption (jsonTime format parse)).write usage.lastUpdated)) =
        some usage.lastUpdated :=
    Codec.read_write_optional rfl fun time htime => ⟨rfl, htimes time htime⟩
  refine ⟨{ usage with custom := custom }, ?_, hsame, rfl⟩
  simp only [deserialize, hstruct, husers, hstorageBytes, hapiRequests, hconnections, hcustom,
    hlastUpdated, hread, htime, read_write_u32, read_write_u64]
  rfl

end TenantUsage

namespace ManagedTenant

def times (m : ManagedTenant) : List DateTime :=
  m.createdAt :: m.updatedAt :: m.usage.lastUpdated.toList

def fields : List String :=
  ["tenant", "status", "plan", "limits", "usage", "owner_id", "created_at", "updated_at",
    "suspension_reason"]

def members (m : ManagedTenant) : List (String × Json) :=
  [("tenant", m.tenant.serialize), ("status", jsonStatus.write m.status),
    ("plan", jsonPlan.write m.plan), ("limits", jsonLimits.write m.limits),
    ("usage", .object (m.usage.members format parse)),
    ("owner_id", (jsonOption jsonString).write m.ownerId),
    ("created_at", (jsonTime format parse).write m.createdAt),
    ("updated_at", (jsonTime format parse).write m.updatedAt),
    ("suspension_reason", (jsonOption jsonString).write m.suspensionReason)]

def deserialize (value : Json) : Option ManagedTenant := do
  guard (value.isStruct fields)
  let tenant ← (value.field fields "tenant").bind Tenant.deserialize
  let status ← jsonStatus.read (value.field fields "status")
  let plan ← jsonPlan.read (value.field fields "plan")
  let limits ← jsonLimits.read (value.field fields "limits")
  let usage ← (value.field fields "usage").bind (TenantUsage.deserialize format parse)
  let ownerId ← (jsonOption jsonString).read (value.field fields "owner_id")
  let createdAt ← (jsonTime format parse).read (value.field fields "created_at")
  let updatedAt ← (jsonTime format parse).read (value.field fields "updated_at")
  let suspensionReason ← (jsonOption jsonString).read (value.field fields "suspension_reason")
  some ⟨tenant, status, plan, limits, usage, ownerId, createdAt, updatedAt, suspensionReason⟩

structure Same (a b : ManagedTenant) : Prop where
  tenant : a.tenant.Same b.tenant
  limits : a.limits.Same b.limits
  usage : a.usage.Same b.usage
  others : b = { a with tenant := b.tenant, limits := b.limits, usage := b.usage }

variable {format parse}

theorem deserialize_of_holds {value : Json} {m : ManagedTenant}
    (htimes : ∀ time ∈ m.times, parse (format time) = some time)
    (h : value.Holds (m.members format parse)) :
    ∃ m', deserialize format parse value = some m' ∧ m.Same m' := by
  simp only [times, List.forall_mem_cons, Option.mem_toList] at htimes
  obtain ⟨hcreated, hupdated, hlastUpdated⟩ := htimes
  obtain ⟨tenant, htenant, hsameTenant⟩ := Tenant.deserialize_of_holds
    (Json.holds_object (by simp [Tenant.members]) (List.Subset.refl m.tenant.members))
  obtain ⟨limits, hlimits, hsameLimits⟩ := restores_jsonLimits m.limits
  obtain ⟨usage, husage, hsameUsage⟩ := TenantUsage.deserialize_of_holds hlastUpdated
    (Json.holds_object (by simp [TenantUsage.members]) (List.Subset.refl _))
  have hcreatedAt : (jsonTime format parse).read
      (some ((jsonTime format parse).write m.createdAt)) = some m.createdAt := hcreated
  have hupdatedAt : (jsonTime format parse).read
      (some ((jsonTime format parse).write m.updatedAt)) = some m.updatedAt := hupdated
  obtain ⟨hstruct, hfields⟩ := h.reads (show _ = fields from rfl)
  simp only [members, List.forall_mem_cons] at hfields
  obtain ⟨h₁, h₂, h₃, h₄, h₅, h₆, h₇, h₈, h₉, -⟩ := hfields
  refine ⟨{ m with tenant := tenant, limits := limits, usage := usage }, ?_,
    hsameTenant, hsameLimits, hsameUsage, rfl⟩
  simp only [deserialize, hstruct, h₁, h₂, h₃, h₄, h₅, h₆, h₇, h₈, h₉, Tenant.serialize, htenant,
    hlimits, husage, hcreatedAt, hupdatedAt, Option.bind_some, read_write_status, read_write_plan,
    read_write_optionString]
  rfl

end ManagedTenant

end Times

namespace CreateTenantRequest

def fields : List String :=
  ["slug", "display_name", "domain", "plan", "owner_id", "metadata", "custom_limits"]

def members (request : CreateTenantRequest) : List (String × Json) :=
  [("slug", jsonString.write request.slug),
    ("display_name", (jsonOption jsonString).write request.displayName),
    ("domain", (jsonOption jsonString).write request.domain),
    ("plan", jsonPlan.write request.plan),
    ("owner_id", (jsonOption jsonString).write request.ownerId),
    ("metadata", jsonStringMap.write request.metadata),
    ("custom_limits", (jsonOption jsonLimits).write request.customLimits)]

def deserialize (value : Json) : Option CreateTenantRequest := do
  guard (value.isStruct fields)
  let slug ← jsonString.read (value.field fields "slug")
  let displayName ← (jsonOption jsonString).read (value.field fields "display_name")
  let domain ← (jsonOption jsonString).read (value.field fields "domain")
  let plan ← jsonPlan.read (value.field fields "plan")
  let ownerId ← (jsonOption jsonString).read (value.field fields "owner_id")
  let metadata ← jsonStringMap.read (value.field fields "metadata")
  let customLimits ← (jsonOption jsonLimits).read (value.field fields "custom_limits")
  some ⟨slug, displayName, domain, plan, ownerId, metadata, customLimits⟩

theorem deserialize_of_holds {value : Json} {request : CreateTenantRequest}
    (h : value.Holds request.members) :
    ∃ metadata customLimits, deserialize value =
        some { request with metadata := metadata, customLimits := customLimits } ∧
      SameContents request.metadata metadata ∧
      Option.Rel TenantLimits.Same request.customLimits customLimits := by
  obtain ⟨metadata, hmetadata, hsameMetadata⟩ := restores_jsonStringMap request.metadata
  have hrestores : (jsonOption jsonLimits).Restores (Option.Rel TenantLimits.Same)
      request.customLimits :=
    Codec.restores_optional rfl fun limits _ => ⟨rfl, restores_jsonLimits limits⟩
  obtain ⟨customLimits, hlimits, hsameLimits⟩ := hrestores
  refine ⟨metadata, customLimits, ?_, hsameMetadata, hsameLimits⟩
  obtain ⟨hstruct, hfields⟩ := h.reads (show _ = fields from rfl)
  simp only [members, List.forall_mem_cons] at hfields
  obtain ⟨h₁, h₂, h₃, h₄, h₅, h₆, h₇, -⟩ := hfields
  have hslug : jsonString.read (some (jsonString.write request.slug)) = some request.slug := rfl
  simp only [deserialize, hstruct, h₁, h₂, h₃, h₄, h₅, h₆, h₇, hslug, hmetadata, hlimits,
    read_write_plan, read_write_optionString]
  rfl

end CreateTenantRequest

namespace UpdateTenantRequest

def fields : List String :=
  ["display_name", "domain", "plan", "metadata", "limits"]

def members (request : UpdateTenantRequest) : List (String × Json) :=
  [("display_name", (jsonOption jsonString).write request.displayName),
    ("domain", (jsonOption (jsonOption jsonString)).write request.domain),
    ("plan", (jsonOption jsonPlan).write request.plan),
    ("metadata", (jsonOption jsonStringMap).write request.metadata),
    ("limits", (jsonOption jsonLimits).write request.limits)]

def deserialize (value : Json) : Option UpdateTenantRequest := do
  guard (value.isStruct fields)
  let displayName ← (jsonOption jsonString).read (value.field fields "display_name")
  let domain ← (jsonOption (jsonOption jsonString)).read (value.field fields "domain")
  let plan ← (jsonOption jsonPlan).read (value.field fields "plan")
  let metadata ← (jsonOption jsonStringMap).read (value.field fields "metadata")
  let limits ← (jsonOption jsonLimits).read (value.field fields "limits")
  some ⟨displayName, domain, plan, metadata, limits⟩

theorem deserialize_of_holds {value : Json} {request : UpdateTenantRequest}
    (h : value.Holds request.members) :
    ∃ metadata limits, deserialize value =
        some { request with
          domain := request.domain.filter Option.isSome
          metadata := metadata
          limits := limits } ∧
      Option.Rel SameContents request.metadata metadata ∧
      Option.Rel TenantLimits.Same request.limits limits := by
  have hrestores : (jsonOption jsonStringMap).Restores (Option.Rel SameContents)
      request.metadata :=
    Codec.restores_optional rfl fun map _ => ⟨rfl, restores_jsonStringMap map⟩
  have hrestores' : (jsonOption jsonLimits).Restores (Option.Rel TenantLimits.Same)
      request.limits :=
    Codec.restores_optional rfl fun limits _ => ⟨rfl, restores_jsonLimits limits⟩
  obtain ⟨metadata, hmetadata, hsameMetadata⟩ := hrestores
  obtain ⟨limits, hlimits, hsameLimits⟩ := hrestores'
  refine ⟨metadata, limits, ?_, hsameMetadata, hsameLimits⟩
  obtain ⟨hstruct, hfields⟩ := h.reads (show _ = fields from rfl)
  simp only [members, List.forall_mem_cons] at hfields
  obtain ⟨h₁, h₂, h₃, h₄, h₅, -⟩ := hfields
  have hdomain : (jsonOption (jsonOption jsonString)).read
      (some ((jsonOption (jsonOption jsonString)).write request.domain)) =
        some (request.domain.filter Option.isSome) :=
    Codec.read_write_optional_optional rfl (fun _ => ⟨rfl, rfl⟩) request.domain
  have hplan := read_write_jsonOption (fun _ => rfl) read_write_plan request.plan
  simp only [deserialize, hstruct, h₁, h₂, h₃, h₄, h₅, hdomain, hplan, hmetadata, hlimits,
    read_write_optionString]
  rfl

end UpdateTenantRequest

@[refl] theorem TenantLimits.Same.refl (limits : TenantLimits) : limits.Same limits :=
  ⟨fun _ => rfl, rfl⟩

@[refl] theorem TenantUsage.Same.refl (usage : TenantUsage) : usage.Same usage :=
  ⟨fun _ => rfl, rfl⟩

end ArmatureTenancy

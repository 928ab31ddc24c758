import ArmatureTenancy.Core.Tenant
import ArmatureTenancy.Foundations.Maps

/-!
# Managed tenants

The record a manager keeps for each tenant, the requests that create and change
it, and the limits that come with a plan. Times are nanoseconds since the epoch;
the code that reads the clock gets its successive readings from outside.
-/

namespace ArmatureTenancy

open Foundations

abbrev DateTime := ℤ

inductive TenantStatus where
  | provisioning
  | active
  | suspended
  | terminating
  | terminated
  deriving DecidableEq, Inhabited

inductive TenantPlan where
  | free
  | starter
  | professional
  | enterprise
  | custom
  deriving DecidableEq, Inhabited

/-- Limits of a plan; `none` means unlimited. -/
structure TenantLimits where
  maxUsers : Option UInt32
  maxStorageBytes : Option UInt64
  maxApiRequests : Option UInt64
  maxConnections : Option UInt32
  custom : HashMap String Json

namespace TenantLimits

def default : TenantLimits where
  maxUsers := some 5
  maxStorageBytes := some (1024 * 1024 * 1024)
  maxApiRequests := some 10000
  maxConnections := some 10
  custom := ∅

def forPlan : TenantPlan → TenantLimits
  | .free => default
  | .starter => ⟨some 25, some (10 * 1024 * 1024 * 1024), some 100000, some 50, ∅⟩
  | .professional => ⟨some 100, some (100 * 1024 * 1024 * 1024), some 1000000, some 200, ∅⟩
  | .enterprise => ⟨none, none, none, none, ∅⟩
  | .custom => ⟨none, none, none, none, ∅⟩

end TenantLimits

structure TenantUsage where
  users : UInt32
  storageBytes : UInt64
  apiRequests : UInt64
  activeConnections : UInt32
  custom : HashMap String Json
  lastUpdated : Option DateTime

def TenantUsage.default : TenantUsage := ⟨0, 0, 0, 0, ∅, none⟩

structure CreateTenantRequest where
  slug : String
  displayName : Option String
  domain : Option String
  plan : TenantPlan
  ownerId : Option String
  metadata : HashMap String String
  customLimits : Option TenantLimits

def CreateTenantRequest.new (slug : String) : CreateTenantRequest :=
  ⟨slug, none, none, .free, none, ∅, none⟩

/-- `none` leaves a field as it is; the domain can also be cleared. -/
structure UpdateTenantRequest where
  displayName : Option String
  domain : Option (Option String)
  plan : Option TenantPlan
  metadata : Option (HashMap String String)
  limits : Option TenantLimits

def UpdateTenantRequest.new : UpdateTenantRequest := ⟨none, none, none, none, none⟩

structure ManagedTenant where
  tenant : Tenant
  status : TenantStatus
  plan : TenantPlan
  limits : TenantLimits
  usage : TenantUsage
  ownerId : Option String
  createdAt : DateTime
  updatedAt : DateTime
  suspensionReason : Option String

namespace ManagedTenant

def fromTenant (tenant : Tenant) (plan : TenantPlan) (now : DateTime) : ManagedTenant where
  tenant := tenant
  status := .provisioning
  plan := plan
  limits := TenantLimits.forPlan plan
  usage := TenantUsage.default
  ownerId := none
  createdAt := now
  updatedAt := now
  suspensionReason := none

def isOperational (m : ManagedTenant) : Bool := m.status == .active

def canAcceptRequests (m : ManagedTenant) : Bool :=
  match m.status with
  | .active | .provisioning => true
  | _ => false

end ManagedTenant

/-- `extend`: the entries of `more` replace those of `map`. -/
def extend (map more : HashMap String String) : HashMap String String :=
  more.entries.foldl (fun map entry => map.insert entry.1 entry.2) map

theorem lookup_extend (map more : HashMap String String) (key : String) :
    (extend map more).lookup key = (more.lookup key).or (map.lookup key) :=
  lookup_foldl_insert map more.nodupKeys key

namespace CreateTenantRequest

/-- The core tenant `create` builds for a new id. -/
def tenant (request : CreateTenantRequest) (id : String) : Tenant :=
  let tenant := Tenant.new id request.slug
  let tenant := match request.displayName with
    | some displayName => tenant.withDisplayName displayName
    | none => tenant
  let tenant := match request.domain with
    | some domain => tenant.withDomain domain
    | none => tenant
  request.metadata.entries.foldl (fun tenant entry => tenant.withMetadata entry.1 entry.2) tenant

def managed (request : CreateTenantRequest) (id : String) (now : DateTime) : ManagedTenant :=
  let managed := ManagedTenant.fromTenant (request.tenant id) request.plan now
  { managed with
    ownerId := request.ownerId
    limits := request.customLimits.getD managed.limits }

end CreateTenantRequest

namespace ManagedTenant

/-- The activating update at the end of `create`. -/
def markProvisioned (m : ManagedTenant) (now : DateTime) : ManagedTenant :=
  { m with status := .active, updatedAt := now }

/-- The field updates of `update`: a new plan brings its limits unless the
request gives limits of its own. -/
def apply (m : ManagedTenant) (request : UpdateTenantRequest) (now : DateTime) : ManagedTenant :=
  { m with
    tenant := { m.tenant with
      displayName := match request.displayName with
        | some name => some name
        | none => m.tenant.displayName
      domain := request.domain.getD m.tenant.domain
      metadata := match request.metadata with
        | some metadata => extend m.tenant.metadata metadata
        | none => m.tenant.metadata }
    plan := request.plan.getD m.plan
    limits := match request.limits, request.plan with
      | some limits, _ => limits
      | none, some plan => TenantLimits.forPlan plan
      | none, none => m.limits
    updatedAt := now }

def markSuspended (m : ManagedTenant) (reason : String) (now : DateTime) : ManagedTenant :=
  { m with
    status := .suspended
    suspensionReason := some reason
    tenant := { m.tenant with active := false }
    updatedAt := now }

def markActive (m : ManagedTenant) (now : DateTime) : ManagedTenant :=
  { m with
    status := .active
    suspensionReason := none
    tenant := { m.tenant with active := true }
    updatedAt := now }

/-- The first write of `terminate`. -/
def markTerminating (m : ManagedTenant) (now : DateTime) : ManagedTenant :=
  { m with status := .terminating, updatedAt := now }

def markTerminated (m : ManagedTenant) (reason : String) (now : DateTime) : ManagedTenant :=
  { m with
    status := .terminated
    suspensionReason := some reason
    tenant := { m.tenant with active := false }
    updatedAt := now }

def recordUsage (m : ManagedTenant) (usage : TenantUsage) (now : DateTime) : ManagedTenant :=
  { m with usage := { usage with lastUpdated := some now } }

end ManagedTenant

/-- What a record is given at its creation once and for all. -/
structure Identity where
  id : String
  slug : String
  ownerId : Option String
  createdAt : DateTime
  schema : Option String
  database : Option String
  deriving DecidableEq

namespace ManagedTenant

def identity (m : ManagedTenant) : Identity :=
  ⟨m.tenant.id, m.tenant.name, m.ownerId, m.createdAt, m.tenant.schema, m.tenant.database⟩

variable (m : ManagedTenant) (request : UpdateTenantRequest) (reason : String) (now : DateTime)

@[simp] theorem identity_markProvisioned : (m.markProvisioned now).identity = m.identity := rfl

@[simp] theorem identity_apply : (m.apply request now).identity = m.identity := rfl

@[simp] theorem identity_markSuspended : (m.markSuspended reason now).identity = m.identity := rfl

@[simp] theorem identity_markActive : (m.markActive now).identity = m.identity := rfl

@[simp] theorem identity_markTerminating : (m.markTerminating now).identity = m.identity := rfl

@[simp] theorem identity_markTerminated : (m.markTerminated reason now).identity = m.identity :=
  rfl

@[simp] theorem identity_recordUsage (usage : TenantUsage) :
    (m.recordUsage usage now).identity = m.identity := rfl

variable {m}

theorem id_eq_of_identity {m' : ManagedTenant} (h : m'.identity = m.identity) :
    m'.tenant.id = m.tenant.id := congrArg Identity.id h

theorem slug_eq_of_identity {m' : ManagedTenant} (h : m'.identity = m.identity) :
    m'.tenant.name = m.tenant.name := congrArg Identity.slug h

end ManagedTenant

namespace CreateTenantRequest

theorem foldl_withMetadata (entries : List (Sigma fun _ : String => String)) (t : Tenant) :
    entries.foldl (fun tenant entry => tenant.withMetadata entry.1 entry.2) t =
      { t with
        metadata :=
          entries.foldl (fun map entry => map.insert entry.1 entry.2) t.metadata } := by
  induction entries generalizing t with
  | nil => rfl
  | cons entry entries ih =>
    rw [List.foldl_cons, List.foldl_cons, ih]
    rfl

theorem tenant_eq (request : CreateTenantRequest) (id : String) :
    request.tenant id = ⟨id, request.slug, request.displayName, request.domain, none, none, true,
      extend ∅ request.metadata⟩ := by
  unfold tenant
  rw [foldl_withMetadata]
  cases request.displayName <;> cases request.domain <;> rfl

@[simp] theorem managed_id (request : CreateTenantRequest) (id : String) (now : DateTime) :
    (request.managed id now).tenant.id = id := by
  simp [managed, ManagedTenant.fromTenant, tenant_eq]

@[simp] theorem managed_slug (request : CreateTenantRequest) (id : String) (now : DateTime) :
    (request.managed id now).tenant.name = request.slug := by
  simp [managed, ManagedTenant.fromTenant, tenant_eq]

@[simp] theorem managed_active (request : CreateTenantRequest) (id : String) (now : DateTime) :
    (request.managed id now).tenant.active = true := by
  simp [managed, ManagedTenant.fromTenant, tenant_eq]

end CreateTenantRequest
end ArmatureTenancy

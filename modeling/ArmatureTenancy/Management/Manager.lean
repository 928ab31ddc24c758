import ArmatureTenancy.Management.Store
import ArmatureTenancy.Foundations.Interleaving

/-!
# The tenant manager

Every manager operation is a program over the calls of the store and of the
provisioner, so one definition serves sequential runs and every interleaving.
New ids and clock readings come from outside: `create` gets the UUID it
generates, and each operation its successive readings of the clock.
-/

namespace ArmatureTenancy

open Foundations

inductive ProvisionerMethod where
  | provision
  | deprovision
  | suspend
  | resume
  deriving DecidableEq

/-- The calls the manager makes on its store and on its provisioner. -/
inductive ManagerCall where
  | storeCreate : ManagedTenant → ManagerCall
  | storeGet : (id : String) → ManagerCall
  | storeGetBySlug : (slug : String) → ManagerCall
  | storeUpdate : ManagedTenant → ManagerCall
  | storeDelete : (id : String) → ManagerCall
  | storeUpdateUsage : (id : String) → TenantUsage → ManagerCall
  | provisioner : ProvisionerMethod → ManagedTenant → ManagerCall

abbrev ManagerCall.Answer : ManagerCall → Type
  | .storeCreate _ => Except TenantError Unit
  | .storeGet _ => Except TenantError (Option ManagedTenant)
  | .storeGetBySlug _ => Except TenantError (Option ManagedTenant)
  | .storeUpdate _ => Except TenantError Unit
  | .storeDelete _ => Except TenantError Unit
  | .storeUpdateUsage _ _ => Except TenantError Unit
  | .provisioner _ _ => Except TenantError Unit

abbrev ManagerProgram := Program ManagerCall ManagerCall.Answer

abbrev ManagerM := ExceptT TenantError ManagerProgram

def managerCall (e : ManagerCall) : ManagerProgram e.Answer := .perform e

namespace ManagedTenantStore

def create (m : ManagedTenant) : ManagerM Unit := .mk (managerCall (.storeCreate m))
def get (id : String) : ManagerM (Option ManagedTenant) := .mk (managerCall (.storeGet id))
def getBySlug (slug : String) : ManagerM (Option ManagedTenant) :=
  .mk (managerCall (.storeGetBySlug slug))
def update (m : ManagedTenant) : ManagerM Unit := .mk (managerCall (.storeUpdate m))
def delete (id : String) : ManagerM Unit := .mk (managerCall (.storeDelete id))
def updateUsage (id : String) (usage : TenantUsage) : ManagerM Unit :=
  .mk (managerCall (.storeUpdateUsage id usage))

end ManagedTenantStore

namespace TenantProvisioner

def provision (m : ManagedTenant) : ManagerM Unit := .mk (managerCall (.provisioner .provision m))
def deprovision (m : ManagedTenant) : ManagerM Unit :=
  .mk (managerCall (.provisioner .deprovision m))
def suspend (m : ManagedTenant) : ManagerM Unit := .mk (managerCall (.provisioner .suspend m))
def resume (m : ManagedTenant) : ManagerM Unit := .mk (managerCall (.provisioner .resume m))

end TenantProvisioner

/-- The successive readings of `Utc::now()` in one call. -/
abbrev Clock := ℕ → DateTime

namespace TenantManager

def getOrNotFound (id : String) : ManagerM ManagedTenant := do
  match ← ManagedTenantStore.get id with
  | some managed => pure managed
  | none => throw (.notFound id)

/-- The provisioner's result is matched on, not returned early. -/
def create (newV4 : String) (now : Clock) (request : CreateTenantRequest) :
    ManagerM ManagedTenant := do
  if (← ManagedTenantStore.getBySlug request.slug).isSome then
    throw (.invalid ("Tenant slug '" ++ request.slug ++ "' already exists"))
  let managed := request.managed newV4 (now 0)
  ManagedTenantStore.create managed
  match ← ExceptT.lift (TenantProvisioner.provision managed).run with
  | .ok () =>
    let managed := managed.markProvisioned (now 1)
    ManagedTenantStore.update managed
    pure managed
  | .error e =>
    ManagedTenantStore.delete managed.tenant.id
    throw e

def update (id : String) (now : Clock) (request : UpdateTenantRequest) :
    ManagerM ManagedTenant := do
  let managed ← getOrNotFound id
  let managed := managed.apply request (now 0)
  ManagedTenantStore.update managed
  pure managed

def suspend (id reason : String) (now : Clock) : ManagerM ManagedTenant := do
  let managed ← getOrNotFound id
  if managed.status = .terminated then
    throw (.invalid "Cannot suspend terminated tenant")
  TenantProvisioner.suspend managed
  let managed := managed.markSuspended reason (now 0)
  ManagedTenantStore.update managed
  pure managed

def activate (id : String) (now : Clock) : ManagerM ManagedTenant := do
  let managed ← getOrNotFound id
  if managed.status = .terminated then
    throw (.invalid "Cannot activate terminated tenant")
  TenantProvisioner.resume managed
  let managed := managed.markActive (now 0)
  ManagedTenantStore.update managed
  pure managed

/-- Soft delete: the record stays. -/
def terminate (id reason : String) (now : Clock) : ManagerM ManagedTenant := do
  let managed ← getOrNotFound id
  if managed.status = .terminated then
    throw (.invalid "Tenant already terminated")
  let managed := managed.markTerminating (now 0)
  ManagedTenantStore.update managed
  TenantProvisioner.deprovision managed
  let managed := managed.markTerminated reason (now 1)
  ManagedTenantStore.update managed
  pure managed

def delete (id : String) : ManagerM Unit := do
  let managed ← ManagedTenantStore.get id
  match managed with
  | some tenant =>
    if tenant.status ≠ .terminated then
      throw (.invalid "Tenant must be terminated before deletion")
    ManagedTenantStore.delete id
  | none => pure ()

def updateUsage (id : String) (usage : TenantUsage) : ManagerM Unit :=
  ManagedTenantStore.updateUsage id usage

end TenantManager

inductive ManagerOp where
  | create : (newV4 : String) → Clock → CreateTenantRequest → ManagerOp
  | update : (id : String) → Clock → UpdateTenantRequest → ManagerOp
  | suspend : (id reason : String) → Clock → ManagerOp
  | activate : (id : String) → Clock → ManagerOp
  | terminate : (id reason : String) → Clock → ManagerOp
  | delete : (id : String) → ManagerOp
  | updateUsage : (id : String) → TenantUsage → ManagerOp

abbrev ManagerResult := Except TenantError (Option ManagedTenant)

def ManagerOp.code : ManagerOp → ManagerM (Option ManagedTenant)
  | .create newV4 now request => some <$> TenantManager.create newV4 now request
  | .update id now request => some <$> TenantManager.update id now request
  | .suspend id reason now => some <$> TenantManager.suspend id reason now
  | .activate id now => some <$> TenantManager.activate id now
  | .terminate id reason now => some <$> TenantManager.terminate id reason now
  | .delete id => (fun _ => none) <$> TenantManager.delete id
  | .updateUsage id usage => (fun _ => none) <$> TenantManager.updateUsage id usage

def ManagerOp.program (op : ManagerOp) : ManagerProgram ManagerResult := op.code.run

def ManagerOp.target : ManagerOp → String
  | .create newV4 _ _ => newV4
  | .update id _ _ => id
  | .suspend id _ _ => id
  | .activate id _ => id
  | .terminate id _ _ => id
  | .delete id => id
  | .updateUsage id _ => id

def ManagerOp.newId? : ManagerOp → Option String
  | .create newV4 _ _ => some newV4
  | _ => none

/-- What the environment decides at one call: the provisioner's answer, the
order in which the store's map is iterated, and the store's clock reading. -/
structure ManagerChoice where
  outcome : Except TenantError Unit
  order : StoreOrder
  now : DateTime

instance : Inhabited ManagerChoice := ⟨⟨.ok (), default, 0⟩⟩

/-- Each store call is one atomic step; the provisioner answers as it likes. -/
def memory (choice : ManagerChoice) (s : InMemoryManagedTenantStore) :
    (e : ManagerCall) → Option (e.Answer × InMemoryManagedTenantStore)
  | .storeCreate m => some (s.create m)
  | .storeGet id => some (.ok (s.get id), s)
  | .storeGetBySlug slug => some (.ok (s.getBySlug choice.order slug), s)
  | .storeUpdate m => some (s.update m)
  | .storeDelete id => some (s.delete id)
  | .storeUpdateUsage id usage => some (s.updateUsage id usage choice.now)
  | .provisioner _ _ => some (choice.outcome, s)

theorem memory_answers (choice : ManagerChoice) (s : InMemoryManagedTenantStore)
    (e : ManagerCall) : ∃ answer s', memory choice s e = some (answer, s') := by
  cases e <;> exact ⟨_, _, rfl⟩

/-- What one call can do to the store, and how it is answered. -/
inductive MemoryStep (s : InMemoryManagedTenantStore) :
    (e : ManagerCall) → e.Answer → InMemoryManagedTenantStore → Prop
  | created {m} (free : s.get m.tenant.id = none) :
      MemoryStep s (.storeCreate m) (.ok ()) (s.put m)
  | createRefused {m err} (taken : s.get m.tenant.id ≠ none) :
      MemoryStep s (.storeCreate m) (.error err) s
  | read {id} : MemoryStep s (.storeGet id) (.ok (s.get id)) s
  | searched {slug order} :
      MemoryStep s (.storeGetBySlug slug) (.ok (s.getBySlug order slug)) s
  | updated {m old} (stored : s.get m.tenant.id = some old) :
      MemoryStep s (.storeUpdate m) (.ok ()) (s.put m)
  | updateRefused {m err} (missing : s.get m.tenant.id = none) :
      MemoryStep s (.storeUpdate m) (.error err) s
  | deleted {id} : MemoryStep s (.storeDelete id) (.ok ()) (s.remove id)
  | usageUpdated {id usage m now} (stored : s.get id = some m) :
      MemoryStep s (.storeUpdateUsage id usage) (.ok ()) (s.put (m.recordUsage usage now))
  | usageRefused {id usage err} : MemoryStep s (.storeUpdateUsage id usage) (.error err) s
  | provisioner {method m outcome} : MemoryStep s (.provisioner method m) outcome s

theorem memory_step {choice : ManagerChoice} {s s' : InMemoryManagedTenantStore} {e : ManagerCall}
    {answer : e.Answer} (h : memory choice s e = some (answer, s')) : MemoryStep s e answer s' := by
  cases e with
  | storeCreate m =>
    cases answer with
    | ok value =>
      obtain ⟨free, rfl⟩ := InMemoryManagedTenantStore.create_ok (Option.some.inj h)
      exact .created free
    | error err =>
      obtain ⟨taken, rfl⟩ := InMemoryManagedTenantStore.create_error (Option.some.inj h)
      exact .createRefused taken
  | storeGet id =>
    cases h
    exact .read
  | storeGetBySlug slug =>
    cases h
    exact .searched
  | storeUpdate m =>
    cases answer with
    | ok value =>
      obtain ⟨⟨old, stored⟩, rfl⟩ := InMemoryManagedTenantStore.update_ok (Option.some.inj h)
      exact .updated stored
    | error err =>
      obtain ⟨missing, rfl⟩ := InMemoryManagedTenantStore.update_error (Option.some.inj h)
      exact .updateRefused missing
  | storeDelete id =>
    cases h
    exact .deleted
  | storeUpdateUsage id usage =>
    cases answer with
    | ok value =>
      obtain ⟨m, stored, rfl⟩ := InMemoryManagedTenantStore.updateUsage_ok (Option.some.inj h)
      exact .usageUpdated stored
    | error err =>
      obtain rfl := InMemoryManagedTenantStore.updateUsage_error (Option.some.inj h)
      exact .usageRefused
  | provisioner method m =>
    cases h
    exact .provisioner

theorem MemoryStep.get_cases {s s' : InMemoryManagedTenantStore} {e : ManagerCall}
    {answer : e.Answer} (h : MemoryStep s e answer s') (id : String) :
    s'.get id = s.get id ∨
    (∃ m, e = .storeCreate m ∧ m.tenant.id = id ∧ s.get id = none ∧ s'.get id = some m) ∨
    (∃ m r, e = .storeUpdate m ∧ m.tenant.id = id ∧ s.get id = some r ∧ s'.get id = some m) ∨
    (e = .storeDelete id ∧ s'.get id = none) ∨
    (∃ usage r now, e = .storeUpdateUsage id usage ∧ s.get id = some r ∧
      s'.get id = some (r.recordUsage usage now)) := by
  cases h with
  | @created m free =>
    rw [InMemoryManagedTenantStore.get_put]
    split
    · next hid => exact .inr (.inl ⟨m, rfl, hid.symm, hid ▸ free, rfl⟩)
    · exact .inl rfl
  | @updated m old stored =>
    rw [InMemoryManagedTenantStore.get_put]
    split
    · next hid => exact .inr (.inr (.inl ⟨m, old, rfl, hid.symm, hid ▸ stored, rfl⟩))
    · exact .inl rfl
  | @deleted k =>
    rw [InMemoryManagedTenantStore.get_remove]
    split
    · next hid => exact .inr (.inr (.inr (.inl ⟨hid ▸ rfl, rfl⟩)))
    · exact .inl rfl
  | @usageUpdated k usage r now stored =>
    have hk := InMemoryManagedTenantStore.id_of_get stored
    rw [InMemoryManagedTenantStore.get_put]
    split
    · next hid =>
      obtain rfl : id = k := hid.trans hk
      exact .inr (.inr (.inr (.inr ⟨usage, r, now, rfl, stored, rfl⟩)))
    · exact .inl rfl
  | _ => exact .inl rfl

end ArmatureTenancy

import ArmatureTenancy.Core.Tenant
import ArmatureTenancy.Foundations.Interleaving

/-!
# The tenant database manager

The manager opens one connection for each database through its provider and
keeps it in a map behind a read-write lock. Its methods are programs over the
accesses to the map, the write lock and the two ends of a provider call, so that
any number of calls can be interleaved at these points. The lock lets a call wait
while another one writes; the provider opens a connection or fails as it likes.
-/

namespace ArmatureTenancy

open Foundations

/-- `Arc<P::Connection>`: which opening the connection comes from, counted over
all databases, and the provider's value. Two of them are the same pointer if they
come from the same opening. -/
structure Connection (K : Type) where
  opening : ℕ
  value : K
  deriving DecidableEq

/-- The points at which a call of the manager can be interrupted. -/
inductive DatabaseCall (K : Type) where
  /-- A `get` under a read guard that is dropped at once. -/
  | readLookup : (databaseName : String) → DatabaseCall K
  | acquireWrite : DatabaseCall K
  | lookup : (databaseName : String) → DatabaseCall K
  /-- The provider's `get_connection` is entered. -/
  | beginOpen : (databaseName : String) → DatabaseCall K
  /-- The provider's `get_connection` returns. -/
  | finishOpen : (databaseName : String) → DatabaseCall K
  | insert : (databaseName : String) → Connection K → DatabaseCall K
  | clear : DatabaseCall K
  | remove : (databaseName : String) → DatabaseCall K
  | releaseWrite : DatabaseCall K

variable {K : Type}

abbrev DatabaseCall.Answer : DatabaseCall K → Type
  | .readLookup _ => Option (Connection K)
  | .acquireWrite => Unit
  | .lookup _ => Option (Connection K)
  | .beginOpen _ => Unit
  | .finishOpen _ => Except TenantError (Connection K)
  | .insert _ _ => Unit
  | .clear => Unit
  | .remove _ => Option (Connection K)
  | .releaseWrite => Unit

abbrev DatabaseProgram (K : Type) := Program (DatabaseCall K) DatabaseCall.Answer

abbrev DatabaseM (K : Type) := ExceptT TenantError (DatabaseProgram K)

def databaseCall (e : DatabaseCall K) : DatabaseProgram K e.Answer := .perform e

/-- `provider.get_connection(name)`, wrapped into an `Arc` when it succeeds. -/
def DatabaseProvider.getConnection (databaseName : String) : DatabaseM K (Connection K) := .mk do
  databaseCall (.beginOpen databaseName)
  databaseCall (.finishOpen databaseName)

/-- The write guard is dropped at the end of its scope, also by an early return. -/
def withWriteGuard {α : Type} (body : DatabaseM K α) : DatabaseM K α := .mk do
  databaseCall .acquireWrite
  let result ← body.run
  databaseCall .releaseWrite
  pure result

namespace TenantDatabaseManager

/-- `tenant.database.as_ref().ok_or_else(..)?`. -/
def databaseOrInvalid (tenant : Tenant) : DatabaseM K String :=
  match tenant.database with
  | some databaseName => pure databaseName
  | none => throw (.invalid "Tenant has no database configured")

/-- The re-check under the write guard keeps two first calls from both opening a
connection. -/
def getConnection (tenant : Tenant) : DatabaseM K (Connection K) := do
  let databaseName ← databaseOrInvalid tenant
  match ← ExceptT.lift (databaseCall (.readLookup databaseName)) with
  | some conn => pure conn
  | none =>
    withWriteGuard do
      match ← ExceptT.lift (databaseCall (.lookup databaseName)) with
      | some conn => pure conn
      | none =>
        let connection ← DatabaseProvider.getConnection databaseName
        ExceptT.lift (databaseCall (.insert databaseName connection))
        pure connection

def clearCache : DatabaseM K Unit :=
  withWriteGuard (ExceptT.lift (databaseCall .clear))

def invalidateTenant (tenant : Tenant) : DatabaseM K Unit :=
  match tenant.database with
  | some databaseName => withWriteGuard do
    let _ ← ExceptT.lift (databaseCall (.remove databaseName))
    pure ()
  | none => pure ()

end TenantDatabaseManager

inductive DatabaseOp where
  | getConnection : Tenant → DatabaseOp
  | clearCache : DatabaseOp
  | invalidateTenant : Tenant → DatabaseOp

abbrev DatabaseResult (K : Type) := Except TenantError (Option (Connection K))

def DatabaseOp.code : DatabaseOp → DatabaseM K (Option (Connection K))
  | .getConnection tenant => some <$> TenantDatabaseManager.getConnection tenant
  | .clearCache => (fun _ => none) <$> TenantDatabaseManager.clearCache
  | .invalidateTenant tenant => (fun _ => none) <$> TenantDatabaseManager.invalidateTenant tenant

def DatabaseOp.program (op : DatabaseOp) : DatabaseProgram K (DatabaseResult K) := op.code.run

structure DatabaseState (K : Type) where
  writing : Bool
  connectionCache : HashMap String (Connection K)
  opened : ℕ

def DatabaseState.new : DatabaseState K := ⟨false, ∅, 0⟩

/-- Taking a read or a write guard waits while a write guard is alive; the
provider's answer is the environment's choice. -/
def connectionPool (outcome : Except TenantError K) (s : DatabaseState K) :
    (e : DatabaseCall K) → Option (e.Answer × DatabaseState K)
  | .readLookup name => if s.writing then none else some (s.connectionCache.lookup name, s)
  | .acquireWrite => if s.writing then none else some ((), { s with writing := true })
  | .lookup name => some (s.connectionCache.lookup name, s)
  | .beginOpen _ => some ((), s)
  | .finishOpen _ => some <| match outcome with
    | .ok value => (.ok ⟨s.opened, value⟩, { s with opened := s.opened + 1 })
    | .error e => (.error e, s)
  | .insert name conn => some ((), { s with connectionCache := s.connectionCache.insert name conn })
  | .clear => some ((), { s with connectionCache := ∅ })
  | .remove name => some (s.connectionCache.lookup name,
      { s with connectionCache := s.connectionCache.erase name })
  | .releaseWrite => some ((), { s with writing := false })

/-- What one call can do, and how it is answered. -/
inductive PoolStep (s : DatabaseState K) :
    (e : DatabaseCall K) → e.Answer → DatabaseState K → Prop
  | readLookup {name} (free : s.writing = false) :
      PoolStep s (.readLookup name) (s.connectionCache.lookup name) s
  | acquireWrite (free : s.writing = false) :
      PoolStep s .acquireWrite () { s with writing := true }
  | lookup {name} : PoolStep s (.lookup name) (s.connectionCache.lookup name) s
  | beginOpen {name} : PoolStep s (.beginOpen name) () s
  | opened {name value} : PoolStep s (.finishOpen name) (.ok ⟨s.opened, value⟩)
      { s with opened := s.opened + 1 }
  | openFailed {name e} : PoolStep s (.finishOpen name) (.error e) s
  | insert {name conn} : PoolStep s (.insert name conn) ()
      { s with connectionCache := s.connectionCache.insert name conn }
  | clear : PoolStep s .clear () { s with connectionCache := ∅ }
  | remove {name} : PoolStep s (.remove name) (s.connectionCache.lookup name)
      { s with connectionCache := s.connectionCache.erase name }
  | releaseWrite : PoolStep s .releaseWrite () { s with writing := false }

theorem pool_step {outcome : Except TenantError K} {s s' : DatabaseState K} {e : DatabaseCall K}
    {answer : e.Answer} (h : connectionPool outcome s e = some (answer, s')) :
    PoolStep s e answer s' := by
  cases e with
  | readLookup name =>
    cases hwriting : s.writing with
    | true => simp [connectionPool, hwriting] at h
    | false =>
      simp only [connectionPool, hwriting] at h
      cases h
      exact .readLookup hwriting
  | acquireWrite =>
    cases hwriting : s.writing with
    | true => simp [connectionPool, hwriting] at h
    | false =>
      simp only [connectionPool, hwriting] at h
      cases h
      exact .acquireWrite hwriting
  | finishOpen name =>
    cases outcome <;> cases h
    · exact .openFailed
    · exact .opened
  | lookup name => cases h; exact .lookup
  | beginOpen name => cases h; exact .beginOpen
  | insert name conn => cases h; exact .insert
  | clear => cases h; exact .clear
  | remove name => cases h; exact .remove
  | releaseWrite => cases h; exact .releaseWrite

theorem PoolStep.lookup_cases {s s' : DatabaseState K} {e : DatabaseCall K} {answer : e.Answer}
    (h : PoolStep s e answer s') (name : String) :
    s'.connectionCache.lookup name = s.connectionCache.lookup name ∨
      (∃ conn, e = .insert name conn ∧ s'.connectionCache.lookup name = some conn) ∨
      ((e = .clear ∨ e = .remove name) ∧ s'.connectionCache.lookup name = none) := by
  cases h with
  | @insert name' conn =>
    by_cases hname : name = name'
    · subst hname
      exact .inr (.inl ⟨conn, rfl, AList.lookup_insert _⟩)
    · exact .inl (AList.lookup_insert_ne hname)
  | clear => exact .inr (.inr ⟨.inl rfl, rfl⟩)
  | @remove name' =>
    by_cases hname : name = name'
    · subst hname
      exact .inr (.inr ⟨.inr rfl, AList.lookup_erase name _⟩)
    · exact .inl (AList.lookup_erase_ne hname)
  | _ => exact .inl rfl

namespace DatabaseProgram

def finish (result : DatabaseResult K) : DatabaseProgram K (DatabaseResult K) :=
  .call .releaseWrite fun _ => .pure result

def recheck (databaseName : String) : DatabaseProgram K (DatabaseResult K) :=
  .call (.lookup databaseName) fun found => match found with
    | some conn => finish (.ok (some conn))
    | none =>
      .call (.beginOpen databaseName) fun _ => .call (.finishOpen databaseName) fun answer =>
        match answer with
        | .error e => finish (.error e)
        | .ok conn => .call (.insert databaseName conn) fun _ => finish (.ok (some conn))

end DatabaseProgram

namespace DatabaseOp

open DatabaseProgram

theorem program_getConnection_none {tenant : Tenant} (h : tenant.database = none) :
    (getConnection tenant).program (K := K) =
      .pure (.error (.invalid "Tenant has no database configured")) := by
  simp only [program, code, TenantDatabaseManager.getConnection,
    TenantDatabaseManager.databaseOrInvalid, h]
  rfl

theorem program_getConnection {tenant : Tenant} {databaseName : String}
    (h : tenant.database = some databaseName) :
    (getConnection tenant).program (K := K) =
      .call (.readLookup databaseName) fun found => match found with
        | some conn => .pure (.ok (some conn))
        | none => .call .acquireWrite fun _ => recheck databaseName := by
  simp only [program, code, TenantDatabaseManager.getConnection,
    TenantDatabaseManager.databaseOrInvalid, h]
  apply Program.call_congr
  intro found
  cases found with
  | some conn => rfl
  | none =>
    apply Program.call_congr
    intro _
    apply Program.call_congr
    intro found
    cases found with
    | some conn => rfl
    | none =>
      apply Program.call_congr
      intro _
      apply Program.call_congr
      intro answer
      cases answer <;> rfl

theorem program_clearCache : clearCache.program (K := K) =
    .call .acquireWrite fun _ => .call .clear fun _ => finish (.ok none) := rfl

theorem program_invalidateTenant_none {tenant : Tenant} (h : tenant.database = none) :
    (invalidateTenant tenant).program (K := K) = .pure (.ok none) := by
  simp only [program, code, TenantDatabaseManager.invalidateTenant, h]
  rfl

theorem program_invalidateTenant {tenant : Tenant} {databaseName : String}
    (h : tenant.database = some databaseName) :
    (invalidateTenant tenant).program (K := K) =
      .call .acquireWrite fun _ => .call (.remove databaseName) fun _ => finish (.ok none) := by
  simp only [program, code, TenantDatabaseManager.invalidateTenant, h]
  rfl

end DatabaseOp
end ArmatureTenancy

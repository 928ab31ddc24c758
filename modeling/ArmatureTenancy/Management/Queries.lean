import ArmatureTenancy.Management.Effects

/-!
# Reading through the manager

The manager's operations that only read: the two lookups, the usage of a record
and the check of its limits. Run alone over the in-memory store each of them is
one store call, and leaves the store as it is.
-/

namespace ArmatureTenancy

open Foundations

namespace TenantUsage

/-- One check of `exceeds_limits`: report a dimension whose limit is exceeded. -/
def pushExceeded {α : Type} [LT α] [DecidableLT α] [ToString α] (label unit : String) (used : α)
    (limit : Option α) (violations : List String) : List String :=
  match limit with
  | some max =>
    if used > max then
      violations ++ [label ++ ": " ++ toString used ++ " / " ++ toString max ++ unit]
    else violations
  | none => violations

def exceedsLimits (usage : TenantUsage) (limits : TenantLimits) : List String :=
  let violations := []
  let violations := pushExceeded "Users" "" usage.users limits.maxUsers violations
  let violations :=
    pushExceeded "Storage" " bytes" usage.storageBytes limits.maxStorageBytes violations
  let violations :=
    pushExceeded "API Requests" "" usage.apiRequests limits.maxApiRequests violations
  pushExceeded "Connections" "" usage.activeConnections limits.maxConnections violations

end TenantUsage

def ManagedTenant.getViolations (m : ManagedTenant) : List String :=
  m.usage.exceedsLimits m.limits

namespace TenantManager

def get (id : String) : ManagerM (Option ManagedTenant) := ManagedTenantStore.get id

def getBySlug (slug : String) : ManagerM (Option ManagedTenant) :=
  ManagedTenantStore.getBySlug slug

def getUsage (id : String) : ManagerM TenantUsage := do
  let managed ← getOrNotFound id
  pure managed.usage

def checkLimits (id : String) : ManagerM (List String) := do
  let managed ← getOrNotFound id
  pure managed.getViolations

end TenantManager

section Runs

variable {s s' : InMemoryManagedTenantStore}
  {log : List (Exchange ManagerCall ManagerCall.Answer)}

theorem runs_get_iff {id : String} {a : Except TenantError (Option ManagedTenant)} :
    (TenantManager.get id).run.Runs memory s log a s' ↔
      log = [⟨.storeGet id, .ok (s.get id)⟩] ∧ a = .ok (s.get id) ∧ s' = s := by
  constructor
  · intro h
    obtain ⟨c, r, s₁, tail, answered, rfl, htail⟩ := Program.runs_call_iff.mp h
    cases answered
    obtain ⟨rfl, rfl, rfl⟩ := Program.runs_pure_iff.mp htail
    exact ⟨rfl, rfl, rfl⟩
  · rintro ⟨rfl, rfl, rfl⟩
    exact .call (c := default) rfl (.pure _ _)

theorem runs_getBySlug {slug : String} {a : Except TenantError (Option ManagedTenant)}
    (h : (TenantManager.getBySlug slug).run.Runs memory s log a s') :
    ∃ order, a = .ok (s.getBySlug order slug) ∧ s' = s := by
  obtain ⟨c, r, s₁, tail, answered, rfl, htail⟩ := Program.runs_call_iff.mp h
  cases answered
  obtain ⟨rfl, rfl, rfl⟩ := Program.runs_pure_iff.mp htail
  exact ⟨c.order, rfl, rfl⟩

theorem runs_stored {id : String} {a : Except TenantError ManagedTenant}
    (h : (TenantManager.getOrNotFound id).run.Runs memory s log a s') :
    s' = s ∧
      (s.get id = none ∧ a = .error (.notFound id) ∨ ∃ m, s.get id = some m ∧ a = .ok m) := by
  obtain ⟨c, r, s₁, tail, answered, rfl, htail⟩ := Program.runs_call_iff.mp h
  cases answered
  cases hget : s.get id with
  | none =>
    rw [hget] at htail
    obtain ⟨rfl, rfl, rfl⟩ := Program.runs_pure_iff.mp htail
    exact ⟨rfl, .inl ⟨rfl, rfl⟩⟩
  | some m =>
    rw [hget] at htail
    obtain ⟨rfl, rfl, rfl⟩ := Program.runs_pure_iff.mp htail
    exact ⟨rfl, .inr ⟨m, rfl, rfl⟩⟩

theorem runs_read {β : Type} {id : String} {read : ManagedTenant → β} {a : Except TenantError β}
    (h : (TenantManager.getOrNotFound id >>= fun m => pure (read m)).run.Runs memory s log a s') :
    s' = s ∧ (s.get id = none ∧ a = .error (.notFound id) ∨
      ∃ m, s.get id = some m ∧ a = .ok (read m)) := by
  rcases Program.runs_bind_except h with ⟨e, rfl, hfailed⟩ |
    ⟨m, s₁, first, second, hget, hread, rfl⟩
  · obtain ⟨rfl, ⟨hnone, heq⟩ | ⟨m, -, heq⟩⟩ := runs_stored hfailed
    · cases heq
      exact ⟨rfl, .inl ⟨hnone, rfl⟩⟩
    · cases heq
  · obtain ⟨rfl, rfl, rfl⟩ := Program.runs_pure_iff.mp hread
    obtain ⟨rfl, ⟨-, heq⟩ | ⟨m', hsome, heq⟩⟩ := runs_stored hget
    · cases heq
    · cases heq
      exact ⟨rfl, .inr ⟨m, hsome, rfl⟩⟩

end Runs
end ArmatureTenancy

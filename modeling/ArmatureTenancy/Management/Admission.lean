import ArmatureTenancy.Management.Effects
import ArmatureTenancy.Request.Resolver

/-!
# The two admission gates

A record says twice whether its tenant may be served: by its status, and by the
`active` flag the resolvers go by. Every operation keeps the two in step except
a termination that stops at a failing `deprovision`: by then the status is
`Terminating` while the flag is still what it was before.
-/

namespace ArmatureTenancy

open Foundations InMemoryManagedTenantStore

def GatesMatch (m : ManagedTenant) : Prop :=
  m.tenant.active = true ↔ m.canAcceptRequests = true

instance (m : ManagedTenant) : Decidable (GatesMatch m) := inferInstanceAs (Decidable (_ ↔ _))

/-- They do for every stored record. -/
def GatesAgree (s : InMemoryManagedTenantStore) : Prop :=
  ∀ id m, s.get id = some m → GatesMatch m

/-- Whatever store of tenants the resolvers look into: a tenant that is stored
here is resolved when its record may accept requests, and refused as inactive
when it may not. -/
def ResolversSound (s : InMemoryManagedTenantStore) : Prop :=
  ∀ (H X B : Type) [HeaderMap H] [TypedStorage X UserContext] [RequestTarget B]
    (resolver : BuiltinResolver) (request : HttpRequest H X B) (C σ : Type)
    (tenants : Environment C σ TenantStoreCall TenantStoreCall.Answer) (st st' : σ)
    (log : List (Exchange TenantStoreCall TenantStoreCall.Answer))
    (result : Except TenantError Tenant),
    (resolver.resolve request).run.Runs tenants st log result st' →
      ∀ id m, s.get id = some m →
        (result = .ok m.tenant → m.canAcceptRequests = true) ∧
        ∀ call, ⟨call, .ok (some m.tenant)⟩ ∈ log →
          result = if m.canAcceptRequests then .ok m.tenant else .error .inactive

namespace GatesAgree

variable {s : InMemoryManagedTenantStore} {m : ManagedTenant}

theorem congr {s' : InMemoryManagedTenantStore} (h : GatesAgree s)
    (same : ∀ k, s'.get k = s.get k) : GatesAgree s' := by
  intro k r hr
  rw [same] at hr
  exact h k r hr

theorem put (h : GatesAgree s) (hm : GatesMatch m) : GatesAgree (s.put m) := by
  intro k r hr
  rw [get_put] at hr
  split at hr
  · cases hr
    exact hm
  · exact h k r hr

theorem remove (h : GatesAgree s) (id : String) : GatesAgree (s.remove id) := by
  intro k r hr
  rw [get_remove] at hr
  split at hr
  · cases hr
  · exact h k r hr

theorem resolversSound (h : GatesAgree s) : ResolversSound s := by
  intro H X B _ _ _ resolver request C σ tenants st st' log result hrun id m hm
  obtain ⟨find, key, hresolver⟩ := resolver.resolve_eq request
  rw [hresolver] at hrun
  have hgates : m.tenant.active = true ↔ m.canAcceptRequests = true := h id m hm
  rcases runs_resolveBy hrun with ⟨call, tenant, rfl, rfl⟩ | ⟨hresult, hlog⟩
  · constructor
    · intro hok
      obtain ⟨hactive, rfl⟩ := (admitted_ok_iff _ _).mp hok
      exact hgates.mp hactive
    · intro call' hmem
      rw [List.mem_singleton] at hmem
      cases hmem
      unfold admitted
      simp only [hgates]
  · exact ⟨fun hok => absurd hok (hresult _), fun call hmem => absurd hmem (hlog _ _)⟩

end GatesAgree

/-- The one way the gates can come apart: `deprovision` fails for a record whose
flag still says that it is active. -/
def StopsHalfway (event : ProvisionerEvent) : Prop :=
  event.method = .deprovision ∧ event.outcome ≠ .ok () ∧ event.record.tenant.active = true

instance (event : ProvisionerEvent) : Decidable (StopsHalfway event) :=
  inferInstanceAs (Decidable (_ ∧ _ ∧ _))

/-- From a store whose gates agree, an operation keeps them agreeing exactly when
it does not stop halfway. -/
theorem Effect.gatesAgree_iff {s s' : InMemoryManagedTenantStore} {op : ManagerOp}
    {events : List ProvisionerEvent} {a : ManagerResult} (h : Effect s op events a s')
    (hs : GatesAgree s) : GatesAgree s' ↔ ∀ event ∈ events, ¬ StopsHalfway event := by
  cases h with
  | @created newV4 now request slug fresh =>
    have same := (request.managed newV4 (now 0)).identity_markProvisioned (now 1)
    have hmatch : GatesMatch ((request.managed newV4 (now 0)).markProvisioned (now 1)) := by
      simp [GatesMatch, ManagedTenant.markProvisioned, ManagedTenant.canAcceptRequests]
    exact iff_of_true ((hs.put hmatch).congr (get_put_put s same)) (by simp [StopsHalfway])
  | @provisionFailed newV4 now request e slug fresh =>
    have hid := request.managed_id newV4 (now 0)
    exact iff_of_true (hs.congr (get_put_remove fresh hid)) (by simp [StopsHalfway])
  | @updated id now request m stored =>
    have hmatch : GatesMatch (m.apply request (now 0)) := hs id m stored
    exact iff_of_true (hs.put hmatch) (by simp)
  | suspendFailed stored guard => exact iff_of_true hs (by simp [StopsHalfway])
  | @suspended id reason now m stored guard =>
    have hmatch : GatesMatch (m.markSuspended reason (now 0)) := by
      simp [GatesMatch, ManagedTenant.markSuspended, ManagedTenant.canAcceptRequests]
    exact iff_of_true (hs.put hmatch) (by simp [StopsHalfway])
  | activateFailed stored guard => exact iff_of_true hs (by simp [StopsHalfway])
  | @activated id now m stored guard =>
    have hmatch : GatesMatch (m.markActive (now 0)) := by
      simp [GatesMatch, ManagedTenant.markActive, ManagedTenant.canAcceptRequests]
    exact iff_of_true (hs.put hmatch) (by simp [StopsHalfway])
  | @deprovisionFailed id reason now m e stored guard =>
    constructor
    · intro hs' event hevent hstops
      obtain rfl := List.mem_singleton.mp hevent
      have hmatch := hs' _ _ (get_put_self s (m.markTerminating (now 0)))
      have haccepts := hmatch.mp hstops.2.2
      cases haccepts
    · intro hnot
      have hinactive : m.tenant.active ≠ true := fun hactive =>
        hnot _ (List.mem_singleton_self _) ⟨rfl, by simp, hactive⟩
      have hmatch : GatesMatch (m.markTerminating (now 0)) := by
        simp [GatesMatch, ManagedTenant.markTerminating, ManagedTenant.canAcceptRequests, hinactive]
      exact hs.put hmatch
  | @terminated id reason now m stored guard =>
    have same := (m.markTerminating (now 0)).identity_markTerminated reason (now 1)
    have hmatch : GatesMatch ((m.markTerminating (now 0)).markTerminated reason (now 1)) := by
      simp [GatesMatch, ManagedTenant.markTerminated, ManagedTenant.canAcceptRequests]
    exact iff_of_true ((hs.put hmatch).congr (get_put_put s same)) (by simp [StopsHalfway])
  | deleted stored terminated => exact iff_of_true (hs.remove _) (by simp)
  | @usageUpdated id usage m now stored =>
    have hmatch : GatesMatch (m.recordUsage usage now) := hs id m stored
    exact iff_of_true (hs.put hmatch) (by simp)
  | _ => exact iff_of_true hs (by simp)

/-- In a sequential run the gates agree after every operation, for records and
resolvers alike, exactly when no termination of an active record stops at a
failing `deprovision`. -/
theorem admission_gates_agree_iff {past : List ManagerDone} {s : InMemoryManagedTenantStore}
    (h : ManagerRun past s) :
    (∀ done ∈ past, GatesAgree done.after ∧ ResolversSound done.after) ↔
      ∀ done ∈ past, ∀ event ∈ provisionerEvents done.log, ¬ StopsHalfway event := by
  have hempty : GatesAgree InMemoryManagedTenantStore.new := by
    intro id m hm
    cases hm
  have hgates : (∀ done ∈ past, GatesAgree done.after) ↔
      ∀ done ∈ past, ∀ event ∈ provisionerEvents done.log, ¬ StopsHalfway event := by
    induction h with
    | nil => simp
    | @step past op s s' log a earlier runs ih =>
      rw [List.forall_mem_cons, List.forall_mem_cons, ← ih]
      apply and_congr_left
      intro hpast
      exact (effect_of_runs runs).gatesAgree_iff (earlier.at_end hempty hpast)
  rw [← hgates]
  constructor
  · intro hall done hdone
    exact (hall done hdone).1
  · intro hall done hdone
    exact ⟨hall done hdone, (hall done hdone).resolversSound⟩

def suspendedTermination : List (ManagerOp × List ManagerChoice) :=
  [(.create "t-1" (fun _ => 0) (.new "acme"), [default, default, default, default]),
    (.suspend "t-1" "unpaid" (fun _ => 1), [default, default, default]),
    (.terminate "t-1" "closing" (fun _ => 2), [default, default, ⟨.error .inactive, default, 2⟩])]

theorem admission_gates_agree_iff_suspended :
    ∃ past s, sequence memory ManagerOp.program suspendedTermination [] .new = some (past, s) ∧
      ∀ done ∈ past, GatesAgree done.after ∧ ResolversSound done.after := by
  refine ⟨_, _, rfl, ?_⟩
  have hrun : ManagerRun _ _ := sequential_of_sequence .nil
    (rfl : sequence memory ManagerOp.program suspendedTermination [] .new = some _)
  exact (admission_gates_agree_iff hrun).mpr (by decide)

/-- The stalled termination leaves a `Terminating` record that resolvers still admit. -/
theorem stalled_termination_still_admitted :
    ∃ past s m, sequence memory ManagerOp.program stalledTermination [] .new = some (past, s) ∧
      ManagerRun past s ∧ s.get "t-1" = some m ∧ m.status = .terminating ∧
      m.tenant.active = true ∧ m.canAcceptRequests = false := by
  refine ⟨_, _, _, rfl, ?_, rfl, rfl, rfl, rfl⟩
  exact sequential_of_sequence .nil
    (rfl : sequence memory ManagerOp.program stalledTermination [] .new = some _)

end ArmatureTenancy

import ArmatureTenancy.Management.Effects
import ArmatureTenancy.Management.LostUpdates
import ArmatureTenancy.Foundations.Serializability
import Mathlib.Data.Fintype.Basic

/-!
# Operations on different tenants

Every operation works on the record and the resources of one id; only `create` also
searches the store, for its slug. So whatever is done about other tenants at the same
time, the record of an id and the results of the operations about it are what these
operations alone would have made them. Where they do not overlap among themselves,
the calls about one tenant have run one after the other.
-/

namespace ArmatureTenancy

open Foundations InMemoryManagedTenantStore

def ManagerOp.newSlug? : ManagerOp → Option String
  | .create _ _ request => some request.slug
  | _ => none

/-- The calls an operation may make: about its own id, and for a creation the search
for its slug. -/
def ManagerOp.Touches (op : ManagerOp) : ManagerCall → Prop
  | .storeCreate m => m.tenant.id = op.target
  | .storeGet id => id = op.target
  | .storeGetBySlug slug => op.newSlug? = some slug
  | .storeUpdate m => m.tenant.id = op.target
  | .storeDelete id => id = op.target
  | .storeUpdateUsage id _ => id = op.target
  | .provisioner _ m => m.tenant.id = op.target

/-- A record that was read is the record of the id it was read under. -/
def ManagerCall.Keyed : (e : ManagerCall) → e.Answer → Prop
  | .storeGet id, answer => ∀ m, answer = .ok (some m) → m.tenant.id = id
  | _, _ => True

theorem memory_keyed (choice : ManagerChoice) (s : InMemoryManagedTenantStore) (e : ManagerCall)
    (answer : e.Answer) (s' : InMemoryManagedTenantStore)
    (h : memory choice s e = some (answer, s')) : e.Keyed answer := by
  cases e with
  | storeGet id =>
    cases h
    intro m hm
    exact id_of_get (Except.ok.inj hm)
  | _ => trivial

section Programs

open ManagerProgram

variable {op : ManagerOp} {id : String} {m : ManagedTenant} {next : ManagerProgram ManagerResult}

def ManagerProgram.KeepsTo (op : ManagerOp) (p : ManagerProgram ManagerResult) : Prop :=
  p.Within ManagerCall.Keyed op.Touches fun _ => True

theorem keepsTo_orNotFound (hid : id = op.target)
    {next : ManagedTenant → ManagerProgram ManagerResult}
    (hnext : ∀ m, m.tenant.id = op.target → (next m).KeepsTo op) :
    (orNotFound id next).KeepsTo op := by
  refine ⟨hid, fun answer hkeyed => ?_⟩
  match answer, hkeyed with
  | .error e, _ => trivial
  | .ok none, _ => trivial
  | .ok (some m), hkeyed => exact hnext m ((hkeyed m rfl).trans hid)

theorem keepsTo_unlessTerminated (hid : id = op.target) {text : String}
    {next : ManagedTenant → ManagerProgram ManagerResult}
    (hnext : ∀ m, m.tenant.id = op.target → (next m).KeepsTo op) :
    (unlessTerminated id text next).KeepsTo op := by
  apply keepsTo_orNotFound hid
  intro m hm
  split
  · trivial
  · exact hnext m hm

theorem keepsTo_provisionerThen {method : ProvisionerMethod} (hm : m.tenant.id = op.target)
    (hnext : next.KeepsTo op) : (provisionerThen method m next).KeepsTo op := by
  refine ⟨hm, fun answer _ => ?_⟩
  cases answer with
  | error e => trivial
  | ok value => exact hnext

theorem keepsTo_updateThen (hm : m.tenant.id = op.target) (hnext : next.KeepsTo op) :
    (updateThen m next).KeepsTo op := by
  refine ⟨hm, fun answer _ => ?_⟩
  cases answer with
  | error e => trivial
  | ok value => exact hnext

theorem keepsTo_finish (hm : m.tenant.id = op.target) : (finish m).KeepsTo op :=
  keepsTo_updateThen hm trivial

theorem keepsTo_provisionNew {now : DateTime} (hm : m.tenant.id = op.target) :
    (provisionNew m now).KeepsTo op := by
  refine ⟨hm, fun answer _ => ?_⟩
  cases answer with
  | ok value => exact keepsTo_finish hm
  | error e =>
    refine ⟨hm, fun answer _ => ?_⟩
    cases answer <;> trivial

theorem ManagerOp.program_keepsTo (op : ManagerOp) : op.program.KeepsTo op := by
  cases op with
  | create newV4 now request =>
    rw [ManagerOp.program_create]
    refine ⟨rfl, fun answer _ => ?_⟩
    match answer with
    | .error e => trivial
    | .ok (some _) => trivial
    | .ok none =>
      refine ⟨request.managed_id newV4 (now 0), fun answer _ => ?_⟩
      cases answer with
      | error e => trivial
      | ok value => exact keepsTo_provisionNew (request.managed_id newV4 (now 0))
  | update id now request =>
    rw [ManagerOp.program_update]
    exact keepsTo_orNotFound rfl fun m hm => keepsTo_finish hm
  | suspend id reason now =>
    rw [ManagerOp.program_suspend]
    apply keepsTo_unlessTerminated rfl
    intro m hm
    exact keepsTo_provisionerThen hm (keepsTo_finish hm)
  | activate id now =>
    rw [ManagerOp.program_activate]
    apply keepsTo_unlessTerminated rfl
    intro m hm
    exact keepsTo_provisionerThen hm (keepsTo_finish hm)
  | terminate id reason now =>
    rw [ManagerOp.program_terminate]
    apply keepsTo_unlessTerminated rfl
    intro m hm
    exact keepsTo_updateThen hm (keepsTo_provisionerThen hm (keepsTo_finish hm))
  | delete id =>
    rw [ManagerOp.program_delete]
    refine ⟨rfl, fun answer _ => ?_⟩
    match answer with
    | .error e => trivial
    | .ok none => trivial
    | .ok (some m) =>
      simp only
      split
      · refine ⟨rfl, fun answer _ => ?_⟩
        cases answer <;> trivial
      · trivial
  | updateUsage id usage =>
    rw [ManagerOp.program_updateUsage]
    refine ⟨rfl, fun answer _ => ?_⟩
    cases answer <;> trivial

end Programs

section Store

variable {choice : ManagerChoice} {s s' t : InMemoryManagedTenantStore} {op : ManagerOp}
  {e : ManagerCall} {answer : e.Answer} {k : String}

theorem memory_elsewhere (htouches : op.Touches e) (hk : op.target ≠ k)
    (h : memory choice s e = some (answer, s')) : s'.get k = s.get k := by
  rcases (memory_step h).get_cases k with hsame | ⟨m, rfl, hid, -⟩ | ⟨m, r, rfl, hid, -⟩ |
    ⟨rfl, -⟩ | ⟨usage, r, now, rfl, -⟩
  · exact hsame
  · exact absurd (htouches.symm.trans hid) hk
  · exact absurd (htouches.symm.trans hid) hk
  · exact absurd (Eq.symm htouches) hk
  · exact absurd (Eq.symm htouches) hk

theorem put_congr (h : s.get k = t.get k) (m : ManagedTenant) :
    (s.put m).get k = (t.put m).get k := by
  rw [get_put, get_put, h]

theorem create_congr {m : ManagedTenant} (h : s.get m.tenant.id = t.get m.tenant.id) :
    (s.create m).1 = (t.create m).1 ∧
      (s.create m).2.get m.tenant.id = (t.create m).2.get m.tenant.id := by
  unfold InMemoryManagedTenantStore.create
  rw [h]
  split
  · exact ⟨rfl, h⟩
  · exact ⟨rfl, put_congr h m⟩

theorem update_congr {m : ManagedTenant} (h : s.get m.tenant.id = t.get m.tenant.id) :
    (s.update m).1 = (t.update m).1 ∧
      (s.update m).2.get m.tenant.id = (t.update m).2.get m.tenant.id := by
  unfold InMemoryManagedTenantStore.update
  rw [h]
  split
  · exact ⟨rfl, h⟩
  · exact ⟨rfl, put_congr h m⟩

theorem updateUsage_congr (h : s.get k = t.get k) (usage : TenantUsage) (now : DateTime) :
    (s.updateUsage k usage now).1 = (t.updateUsage k usage now).1 ∧
      (s.updateUsage k usage now).2.get k = (t.updateUsage k usage now).2.get k := by
  unfold InMemoryManagedTenantStore.updateUsage
  rw [h]
  split
  · exact ⟨rfl, put_congr h _⟩
  · exact ⟨rfl, h⟩

/-- A call about the id is answered from its record, and acts on the record alike in
all stores that hold it. -/
theorem memory_here (htouches : op.Touches e) (hk : op.target = k) (hnew : op.newId? = none)
    (h : memory choice s e = some (answer, s')) (hsim : s.get k = t.get k) :
    ∃ t', memory choice t e = some (answer, t') ∧ s'.get k = t'.get k := by
  have alike {x y : Except TenantError Unit × InMemoryManagedTenantStore}
      {answer : Except TenantError Unit} (hxy : x.1 = y.1 ∧ x.2.get k = y.2.get k)
      (hx : some x = some (answer, s')) :
      ∃ t', some y = some (answer, t') ∧ s'.get k = t'.get k := by
    obtain ⟨hanswer, hget⟩ := hxy
    cases hx
    exact ⟨y.2, congrArg some (Prod.ext hanswer.symm rfl), hget⟩
  cases e with
  | storeCreate m =>
    obtain rfl : m.tenant.id = k := htouches.trans hk
    exact alike (create_congr hsim) h
  | storeGet id =>
    obtain rfl : id = k := Eq.trans htouches hk
    cases h
    exact ⟨t, by rw [memory, hsim], hsim⟩
  | storeGetBySlug slug =>
    cases op with
    | create newV4 now request => cases hnew
    | _ => cases htouches
  | storeUpdate m =>
    obtain rfl : m.tenant.id = k := htouches.trans hk
    exact alike (update_congr hsim) h
  | storeDelete id =>
    cases h
    refine ⟨t.remove id, rfl, ?_⟩
    rw [get_remove, get_remove, hsim]
  | storeUpdateUsage id usage =>
    obtain rfl : id = k := Eq.trans htouches hk
    exact alike (updateUsage_congr hsim usage choice.now) h
  | provisioner method m =>
    cases h
    exact ⟨t, rfl, hsim⟩

end Store

section Interleaved

variable {ι : Type*} [DecidableEq ι] (calls : ι → ManagerOp) (start : InMemoryManagedTenantStore)
  (k : String)

/-- No creation of the tenant is under way or still to come. -/
def CreationsOver (cfg : ManagerConfig ι) : Prop :=
  ∀ i, (calls i).newId? = some k → (cfg.program i).Finished

def WithoutCreation (i : ι) (e : ManagerCall) : Prop :=
  (calls i).Touches e ∧ ((calls i).target = k → (calls i).newId? = none)

theorem ManagerOp.newId?_cases (op : ManagerOp) :
    op.newId? = none ∨ op.newId? = some op.target := by
  cases op <;> simp [ManagerOp.newId?, ManagerOp.target]

variable {calls start k}

omit [DecidableEq ι] in
theorem management_unwinding : Unwinding memory (fun i => (calls i).target = k)
    (WithoutCreation calls k) (fun s t => s.get k = t.get k) where
  hidden := by
    intro i c s t e answer s' hother hallowed hanswer hsim
    exact (memory_elsewhere hallowed.1 hother hanswer).trans hsim
  blocked := by
    intro i c s t e _ _ hnone _
    obtain ⟨answer, s', hanswer⟩ := memory_answers c s e
    rw [hnone] at hanswer
    cases hanswer
  answered := by
    intro i c s t e answer s' hmine hallowed hanswer hsim
    exact memory_here hallowed.1 hmine (hallowed.2 hmine) hanswer hsim

variable (calls start) in
theorem managerSystemFrom_keepsTo (schedule : List (ι × ManagerChoice)) (i : ι) :
    ManagerProgram.KeepsTo (calls i)
      (((managerSystemFrom calls start).run memory schedule).program i) := by
  have hstart (i : ι) : ((managerSystemFrom calls start).program i).Within ManagerCall.Keyed
      (calls i).Touches fun _ => True := (calls i).program_keepsTo
  exact Config.run_within memory_keyed hstart schedule i

theorem CreationsOver.within {schedule : List (ι × ManagerChoice)}
    (settled : CreationsOver calls k ((managerSystemFrom calls start).run memory schedule))
    (i : ι) :
    (((managerSystemFrom calls start).run memory schedule).program i).Within ManagerCall.Keyed
      (WithoutCreation calls k i) fun _ => True := by
  have hkeeps := managerSystemFrom_keepsTo calls start schedule i
  rcases (calls i).newId?_cases with hnew | hnew
  · exact hkeeps.imp (fun e he => ⟨he, fun _ => hnew⟩) fun _ _ => trivial
  · by_cases hk : (calls i).target = k
    · have hfinished := settled i (hnew.trans (congrArg some hk))
      cases hp : ((managerSystemFrom calls start).run memory schedule).program i with
      | pure a => trivial
      | call e rest =>
        rw [hp] at hfinished
        exact hfinished.elim
    · exact hkeeps.imp (fun e he => ⟨he, fun h => absurd h hk⟩) fun _ _ => trivial

/-- In any interleaving a call keeps to its own tenant and leaves the records of all
others alone. Once a tenant is created, deleting every turn of the calls about other
tenants changes neither its record nor what is left of the calls about it. -/
theorem tenant_management_isolation (calls : ι → ManagerOp) (start : InMemoryManagedTenantStore)
    (k : String) (before after : List (ι × ManagerChoice)) :
    let now := (managerSystemFrom calls start).run memory before
    (∀ i e rest, now.program i = .call e rest → (calls i).Touches e) ∧
    (∀ turn, (calls turn.1).target ≠ k → (now.step memory turn).state.get k = now.state.get k) ∧
    (CreationsOver calls k now →
      let last := now.run memory after
      let alone := now.run memory (after.filter fun turn => (calls turn.1).target = k)
      alone.state.get k = last.state.get k ∧
        ∀ i, (calls i).target = k → alone.program i = last.program i) := by
  intro now
  have hkeeps (i : ι) : ManagerProgram.KeepsTo (calls i) (now.program i) :=
    managerSystemFrom_keepsTo calls start before i
  refine ⟨?_, ?_, ?_⟩
  · intro i e rest hp
    have hcall := hkeeps i
    rw [hp] at hcall
    exact hcall.1
  · intro turn hother
    rcases now.step_cases memory turn with heq | ⟨e, rest, answer, s, hp, hanswer, heq⟩
    · rw [heq]
    · have hcall := hkeeps turn.1
      rw [hp] at hcall
      rw [heq]
      exact memory_elsewhere hcall.1 hother hanswer
  · intro settled last alone
    obtain ⟨hstate, hprogram⟩ := management_unwinding.run_purge memory_keyed settled.within rfl
      (fun _ _ => rfl) after
    exact ⟨hstate.symm, fun i hi => (hprogram i hi).symm⟩

def twoTenants : Fin 4 → ManagerOp :=
  ![.create "t-1" (fun _ => 0) (.new "acme"), .create "t-2" (fun _ => 0) (.new "globex"),
    .suspend "t-1" "unpaid" (fun _ => 1), .suspend "t-2" "abuse" (fun _ => 1)]

theorem tenant_management_isolation_two :
    let now := (managerSystemFrom twoTenants .new).run memory (List.replicate 4 (0, default))
    let after : List (Fin 4 × ManagerChoice) := [(1, default), (2, default), (1, default),
      (2, default), (1, default), (1, default), (3, default), (2, default), (3, default)]
    (now.run memory (after.filter fun turn => (twoTenants turn.1).target = "t-1")).state.get "t-1" =
      (now.run memory after).state.get "t-1" := by
  refine ((tenant_management_isolation twoTenants .new "t-1" (List.replicate 4 (0, default))
    [(1, default), (2, default), (1, default), (2, default), (1, default), (1, default),
      (3, default), (2, default), (3, default)]).2.2 ?_).1
  intro i hi
  match i with
  | 0 => trivial
  | 1 => exact absurd hi (by decide)
  | 2 => cases hi
  | 3 => cases hi

/-- Where the calls about a tenant do not overlap among themselves, they have run one
after the other, as far as its record, their results and their exchanges go. -/
theorem per_tenant_serializable (calls : ι → ManagerOp) (start : InMemoryManagedTenantStore)
    (k : String) (schedule : List (ι × ManagerChoice))
    (created : ∀ i, (calls i).newId? ≠ some k)
    (apart : (managerSystemFrom calls start).SerialWithin (fun i => (calls i).target = k) memory
      schedule) :
    let last := (managerSystemFrom calls start).run memory schedule
    (∀ i, (calls i).target = k → ¬ last.Busy i) →
      ∃ (past : List (ι × ManagerDone)) (s : InMemoryManagedTenantStore),
        Sequenced memory ManagerOp.program calls start last past s ∧
        (∀ x ∈ past, x.2.op.target = k) ∧ s.get k = last.state.get k ∧
        last.history.filter (fun x => (calls x.1).target = k) = exchanges past := by
  intro last quiet
  have hsettled : CreationsOver calls k ((managerSystemFrom calls start).run memory []) :=
    fun i hi => absurd hi (created i)
  obtain ⟨past, s, hpast, hmine, hstate, hown⟩ :=
    management_unwinding.serializable ManagerOp.program calls memory_keyed hsettled.within rfl
      apart quiet
  refine ⟨past, s, hpast, fun x hx => ?_, hstate.symm, hown⟩
  rw [hpast.op x hx]
  exact hmine x hx

def suspendedAndActivated : Fin 3 → ManagerOp :=
  ![.suspend "t-1" "unpaid" (fun _ => 1), .create "t-2" (fun _ => 1) (.new "globex"),
    .activate "t-1" (fun _ => 2)]

theorem per_tenant_serializable_two :
    let start := InMemoryManagedTenantStore.new.put
      (((CreateTenantRequest.new "acme").managed "t-1" 0).markProvisioned 0)
    let last := (managerSystemFrom suspendedAndActivated start).run memory
      [(0, default), (1, default), (0, default), (1, default), (0, default), (2, default),
        (1, default), (2, default), (1, default), (2, default)]
    ∃ (past : List (Fin 3 × ManagerDone)) (s : InMemoryManagedTenantStore),
      Sequenced memory ManagerOp.program suspendedAndActivated start last past s ∧
      (∀ x ∈ past, x.2.op.target = "t-1") ∧ s.get "t-1" = last.state.get "t-1" ∧
      last.history.filter (fun x => (suspendedAndActivated x.1).target = "t-1") =
        exchanges past :=
  per_tenant_serializable suspendedAndActivated _ "t-1" _ (by decide) (by decide) (by decide)

end Interleaved
end ArmatureTenancy

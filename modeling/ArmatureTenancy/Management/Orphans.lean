import ArmatureTenancy.Management.Identity
import Mathlib.Data.Fin.VecNotation

/-!
# No orphaned resources

Records say which tenants have resources to tear down. However the operations are
interleaved and whatever the provisioner answers, a record is marked terminated or
deleted only after its resources were deprovisioned, or were never set up.
-/

namespace ArmatureTenancy

open Foundations InMemoryManagedTenantStore

variable {ι : Type*}

def Asked (method : ProvisionerMethod) (answer : Except TenantError Unit) (h : ManagerHistory ι)
    (id : String) : Prop :=
  ∃ i m, (i, ⟨.provisioner method m, answer⟩) ∈ h ∧ m.tenant.id = id

abbrev WasProvisioned (h : ManagerHistory ι) (id : String) : Prop := Asked .provision (.ok ()) h id

abbrev WasDeprovisioned (h : ManagerHistory ι) (id : String) : Prop :=
  Asked .deprovision (.ok ()) h id

/-- Nothing of the tenant is left to tear down. -/
def Withdrawable (h : ManagerHistory ι) (id : String) : Prop :=
  WasDeprovisioned h id ∨ ∃ e, Asked .provision (.error e) h id

def Inserted (h : ManagerHistory ι) (id : String) : Prop :=
  ∃ i m, (i, ⟨.storeCreate m, .ok ()⟩) ∈ h ∧ m.tenant.id = id

def provisioning : Exchange ManagerCall ManagerCall.Answer → Option (Except TenantError Unit)
  | ⟨.provisioner .provision _, answer⟩ => some answer
  | _ => none

section Histories

variable {h h' : ManagerHistory ι} {id : String}

theorem Asked.mono {method : ProvisionerMethod} {answer : Except TenantError Unit}
    (asked : Asked method answer h id) (hsub : h ⊆ h') : Asked method answer h' id := by
  obtain ⟨i, m, hmem, hid⟩ := asked
  exact ⟨i, m, hsub hmem, hid⟩

theorem Withdrawable.mono (withdrawable : Withdrawable h id) (hsub : h ⊆ h') :
    Withdrawable h' id := by
  rcases withdrawable with hdone | ⟨e, hfailed⟩
  · exact .inl (hdone.mono hsub)
  · exact .inr ⟨e, hfailed.mono hsub⟩

theorem Inserted.mono (inserted : Inserted h id) (hsub : h ⊆ h') : Inserted h' id := by
  obtain ⟨i, m, hmem, hid⟩ := inserted
  exact ⟨i, m, hsub hmem, hid⟩

end Histories

variable [DecidableEq ι]

/-- Provision a new tenant once, after its record; mark as terminated and delete what
has nothing left to tear down. -/
def custodyDiscipline (calls : ι → ManagerOp) :
    Discipline ι ManagerCall ManagerCall.Answer ManagerResult where
  allowed h i
    | .storeCreate m => m.status ≠ .terminated
    | .storeUpdate m => m.status = .terminated → WasDeprovisioned h m.tenant.id
    | .storeDelete id => Withdrawable h id
    | .provisioner .provision m => (calls i).newId? = some m.tenant.id ∧
      Inserted h m.tenant.id ∧ allOwn i provisioning h = []
    | _ => True
  answers h _
    | .storeGet id, answer => ∀ m, answer = .ok (some m) →
      m.tenant.id = id ∧ (m.status = .terminated → WasDeprovisioned h id)
    | _, _ => True
  post _ _ _ := True
  allowed_stable := by
    intro h h' i e moved hallowed
    cases e with
    | storeUpdate m => exact fun hm => Asked.mono (hallowed hm) moved.subset
    | storeDelete id => exact Withdrawable.mono hallowed moved.subset
    | provisioner method m =>
      cases method with
      | provision =>
        obtain ⟨hnew, hinserted, hnone⟩ := hallowed
        exact ⟨hnew, hinserted.mono moved.subset, moved.allOwn_eq.trans hnone⟩
      | _ => trivial
    | _ => exact hallowed
  post_stable _ _ := trivial

section Programs

open ManagerProgram

variable {calls : ι → ManagerOp} {i : ι} {h : ManagerHistory ι} {m : ManagedTenant}

theorem custody_mayFail : MayFail (custodyDiscipline calls) := fun _ _ _ => trivial

theorem follows_custody_finish (hm : m.status ≠ .terminated) :
    (finish m).Follows (custodyDiscipline calls) i h :=
  follows_updateThen custody_mayFail (fun hterminated => absurd hterminated hm) fun _ _ => trivial

theorem ManagerOp.program_custody (op : ManagerOp) (hop : calls i = op)
    (hnone : allOwn i provisioning h = []) :
    op.program.Follows (custodyDiscipline calls) i h := by
  cases op with
  | create newV4 now request =>
    apply follows_create custody_mayFail trivial
    · intro h' _ hterminated
      cases hterminated
    · intro h' h'' moved moved'
      have hprovision : (custodyDiscipline calls).allowed
          ((i, ⟨.storeCreate (request.managed newV4 (now 0)), .ok ()⟩) :: h'') i
          (.provisioner .provision (request.managed newV4 (now 0))) := by
        refine ⟨by simp [hop, newId?], ⟨i, _, List.mem_cons_self, rfl⟩, ?_⟩
        rw [allOwn_cons_none rfl, moved'.allOwn_eq, allOwn_cons_none rfl, moved.allOwn_eq, hnone]
      apply follows_provisionNew custody_mayFail hprovision
      · intro h' _
        exact follows_custody_finish (by simp [ManagedTenant.markProvisioned])
      · intro h' e _
        exact .inr ⟨e, i, _, List.mem_cons_self, rfl⟩
  | update id now request =>
    rw [program_update]
    apply follows_orNotFound custody_mayFail trivial
    intro h' m _ hanswer
    obtain ⟨rfl, hread⟩ := hanswer m rfl
    refine follows_updateThen custody_mayFail (fun hterminated => ?_) fun _ _ => trivial
    rw [ManagedTenant.id_eq_of_identity (m.identity_apply request (now 0))]
    exact (hread (by simpa [ManagedTenant.apply] using hterminated)).mono
      (List.subset_cons_self _ _)
  | suspend id reason now =>
    rw [program_suspend]
    apply follows_unlessTerminated custody_mayFail trivial
    intro h' m _ _ _
    refine follows_provisionerThen custody_mayFail trivial fun h'' _ => ?_
    exact follows_custody_finish (by simp [ManagedTenant.markSuspended])
  | activate id now =>
    rw [program_activate]
    apply follows_unlessTerminated custody_mayFail trivial
    intro h' m _ _ _
    refine follows_provisionerThen custody_mayFail trivial fun h'' _ => ?_
    exact follows_custody_finish (by simp [ManagedTenant.markActive])
  | terminate id reason now =>
    rw [program_terminate]
    apply follows_unlessTerminated custody_mayFail trivial
    intro h' m _ _ _
    apply follows_updateThen custody_mayFail (by intro hterminated; cases hterminated)
    intro h'' _
    refine follows_provisionerThen custody_mayFail trivial fun h''' _ => ?_
    refine follows_updateThen custody_mayFail (fun _ => ?_) fun _ _ => trivial
    exact ⟨i, m.markTerminating (now 0), List.mem_cons_self, rfl⟩
  | delete id =>
    apply follows_delete_terminated custody_mayFail (fun _ => trivial) trivial
    intro h' m _ hanswer hterminated
    obtain ⟨rfl, hread⟩ := hanswer m rfl
    exact .inl ((hread hterminated).mono (List.subset_cons_self _ _))
  | updateUsage id usage =>
    exact follows_updateUsage custody_mayFail trivial fun _ _ => trivial

end Programs

/-- What the records and the history say about the resources. -/
structure CustodyInvariant (calls : ι → ManagerOp)
    (now : Moment ι InMemoryManagedTenantStore ManagerCall ManagerCall.Answer) : Prop where
  terminated : ∀ id m, now.state.get id = some m → m.status = .terminated →
    WasDeprovisioned now.history id
  kept : ∀ id, Inserted now.history id → now.state.get id = none → Withdrawable now.history id
  deleted : ∀ i id answer, (i, ⟨.storeDelete id, answer⟩) ∈ now.history →
    Withdrawable now.history id
  asked : ∀ i m answer, (i, ⟨.provisioner .provision m, answer⟩) ∈ now.history →
    (calls i).newId? = some m.tenant.id ∧ Inserted now.history m.tenant.id
  once : ∀ i, (allOwn i provisioning now.history).length ≤ 1

namespace CustodyInvariant

variable {calls : ι → ManagerOp}
  {now : Moment ι InMemoryManagedTenantStore ManagerCall ManagerCall.Answer} {i : ι}

theorem keeps (hinv : CustodyInvariant calls now) {e : ManagerCall} {answer : e.Answer}
    {s' : InMemoryManagedTenantStore}
    (hallowed : (custodyDiscipline calls).allowed now.history i e)
    (hstep : MemoryStep now.state e answer s') :
    CustodyInvariant calls ⟨s', (i, ⟨e, answer⟩) :: now.history⟩ := by
  have later : now.history ⊆ (i, ⟨e, answer⟩) :: now.history := List.subset_cons_self _ _
  constructor
  · intro id m hm hterminated
    rcases hstep.get_cases id with hsame | ⟨m', rfl, -, -, hm'⟩ | ⟨m', r, rfl, hid, -, hm'⟩ |
      ⟨-, hgone⟩ | ⟨usage, r, time, -, hr, hm'⟩
    · exact (hinv.terminated id m (hsame.symm.trans hm) hterminated).mono later
    · cases hm'.symm.trans hm
      exact absurd hterminated hallowed
    · cases hm'.symm.trans hm
      rw [← hid]
      exact (hallowed hterminated).mono later
    · cases hgone.symm.trans hm
    · cases hm'.symm.trans hm
      exact (hinv.terminated id r hr hterminated).mono later
  · intro id hinserted hnone
    obtain ⟨j, m, hmem, rfl⟩ := hinserted
    rcases List.mem_cons.mp hmem with hmem | hmem
    · cases hmem
      cases hstep with
      | created _ => cases (get_put_self _ _).symm.trans hnone
    · have hbefore : Inserted now.history m.tenant.id := ⟨j, m, hmem, rfl⟩
      rcases hstep.get_cases m.tenant.id with hsame | ⟨m', -, -, -, hm'⟩ | ⟨m', r, -, -, -, hm'⟩ |
        ⟨rfl, -⟩ | ⟨usage, r, time, -, -, hm'⟩
      · exact (hinv.kept _ hbefore (hsame.symm.trans hnone)).mono later
      · cases hm'.symm.trans hnone
      · cases hm'.symm.trans hnone
      · exact hallowed.mono later
      · cases hm'.symm.trans hnone
  · intro j id answer' hmem
    rcases List.mem_cons.mp hmem with hmem | hmem
    · cases hmem
      exact hallowed.mono later
    · exact (hinv.deleted j id answer' hmem).mono later
  · intro j m answer' hmem
    rcases List.mem_cons.mp hmem with hmem | hmem
    · cases hmem
      exact ⟨hallowed.1, hallowed.2.1.mono later⟩
    · obtain ⟨hnew, hinserted⟩ := hinv.asked j m answer' hmem
      exact ⟨hnew, hinserted.mono later⟩
  · intro j
    cases hx : provisioning ⟨e, answer⟩ with
    | none =>
      rw [allOwn_cons_none hx]
      exact hinv.once j
    | some outcome =>
      by_cases hj : j = i
      · subst hj
        obtain ⟨m, rfl⟩ : ∃ m, e = .provisioner .provision m := by
          cases e with
          | provisioner method m => cases method <;> first | exact ⟨m, rfl⟩ | cases hx
          | _ => cases hx
        rw [allOwn_cons_some hx, hallowed.2.2]
        rfl
      · have hother : allOwn j provisioning ((i, ⟨e, answer⟩) :: now.history) =
            allOwn j provisioning now.history :=
          (OthersMoved.cons _ (Ne.symm hj)).allOwn_eq
        rw [hother]
        exact hinv.once j

/-- Provisioning that succeeded did not fail: the id belongs to one creation, and that
asks once. -/
theorem not_failed (hinv : CustodyInvariant calls now) (fresh : FreshCalls calls) {id : String}
    (done : WasProvisioned now.history id) {e : TenantError} :
    ¬ Asked .provision (.error e) now.history id := by
  rintro ⟨j, m', hfailed, rfl⟩
  obtain ⟨i, m, hdone, hid⟩ := done
  have hi := (hinv.asked i m _ hdone).1
  have hj := (hinv.asked j m' _ hfailed).1
  obtain rfl : i = j := fresh i j _ hi (hid ▸ hj)
  have hok : Except.ok () ∈ allOwn i provisioning now.history := mem_allOwn.mpr ⟨_, hdone, rfl⟩
  have herror : Except.error e ∈ allOwn i provisioning now.history :=
    mem_allOwn.mpr ⟨_, hfailed, rfl⟩
  match hlist : allOwn i provisioning now.history, hinv.once i with
  | [], _ =>
    rw [hlist] at hok
    cases hok
  | [outcome], _ =>
    rw [hlist, List.mem_singleton] at hok herror
    cases hok.trans herror.symm

end CustodyInvariant

section Interleaved

variable {calls : ι → ManagerOp}

theorem managerSystem_custody (schedule : List (ι × ManagerChoice)) :
    CustodyInvariant calls ((managerSystem calls).run memory schedule).toMoment := by
  refine (Config.run_follows (d := custodyDiscipline calls) ?_ ?_ ?_ schedule).1
  · intro c now i e answer s' hinv hallowed hstep
    have hmem := memory_step hstep
    refine ⟨?_, hinv.keeps hallowed hmem⟩
    cases hmem with
    | @read id =>
      intro m hm
      have hget : now.state.get id = some m := Except.ok.inj hm
      exact ⟨id_of_get hget, hinv.terminated id m hget⟩
    | _ => trivial
  · constructor
    · intro id m hm
      cases hm
    · intro id hinserted
      obtain ⟨i, m, hmem, -⟩ := hinserted
      cases hmem
    · intro i id answer hmem
      cases hmem
    · intro i m answer hmem
      cases hmem
    · intro i
      exact Nat.zero_le 1
  · exact fun i => (calls i).program_custody rfl rfl

/-- In every interleaving of manager calls with fresh ids, whatever the provisioner
answers: a tenant that was provisioned and not deprovisioned has a record, which is not
terminated; a record is terminated only after its resources were deprovisioned, and
deleted only after that or after its provisioning failed. -/
theorem resources_never_orphaned (fresh : FreshCalls calls)
    (schedule : List (ι × ManagerChoice)) :
    let now := (managerSystem calls).run memory schedule
    (∀ id, WasProvisioned now.history id → ¬ WasDeprovisioned now.history id →
      ∃ m, now.state.get id = some m ∧ m.status ≠ .terminated) ∧
    (∀ id m, now.state.get id = some m → m.status = .terminated →
      WasDeprovisioned now.history id) ∧
    ∀ i id answer, (i, ⟨.storeDelete id, answer⟩) ∈ now.history →
      Withdrawable now.history id := by
  intro now
  have hinv : CustodyInvariant calls now.toMoment := managerSystem_custody schedule
  refine ⟨fun id done undone => ?_, hinv.terminated, hinv.deleted⟩
  cases hget : now.state.get id with
  | some m => exact ⟨m, rfl, fun hterminated => undone (hinv.terminated id m hget hterminated)⟩
  | none =>
    have hinserted : Inserted now.history id := by
      obtain ⟨i, m, hmem, rfl⟩ := done
      exact (hinv.asked i m _ hmem).2
    rcases hinv.kept id hinserted hget with hdone | ⟨e, hfailed⟩
    · exact absurd hdone undone
    · exact absurd hfailed (hinv.not_failed fresh done)

end Interleaved

def suspendWhileCreating : Fin 3 → ManagerOp :=
  ![.create "t-1" (fun _ => 0) (.new "acme"), .suspend "t-1" "unpaid" (fun _ => 1), .delete "t-1"]

theorem suspendWhileCreating_fresh : FreshCalls suspendWhileCreating := by
  intro i j id hi hj
  match i, j with
  | 0, 0 => rfl
  | 0, 1 => cases hj
  | 0, 2 => cases hj
  | 1, _ => cases hi
  | 2, _ => cases hi

def isDeprovision : Exchange ManagerCall ManagerCall.Answer → Bool
  | ⟨.provisioner .deprovision _, _⟩ => true
  | _ => false

theorem resources_never_orphaned_suspended :
    let now := (managerSystem suspendWhileCreating).run memory [(0, default), (0, default),
      (1, default), (0, default), (1, default), (0, default), (1, default), (2, default),
      (2, default)]
    ∃ m, now.state.get "t-1" = some m ∧ m.status ≠ .terminated := by
  intro now
  have undone : now.history.all (fun x => !isDeprovision x.2) = true := rfl
  refine (resources_never_orphaned suspendWhileCreating_fresh _).1 "t-1" ?_ ?_
  · exact ⟨0, _, List.mem_of_getElem? (i := 4) rfl, rfl⟩
  · rintro ⟨i, m, hmem, -⟩
    cases List.all_eq_true.mp undone _ hmem

end ArmatureTenancy

import ArmatureTenancy.Management.Manager
import ArmatureTenancy.Foundations.Disciplines

/-!
# The manager's programs, call by call

The code of each operation unfolds into a tree of calls built from a few shapes:
reading a record or reporting it missing, asking the provisioner, writing a
record back. The equations here are the only place where the code is unfolded;
for calls in flight each shape has its rule for following a discipline.
-/

namespace ArmatureTenancy

open Foundations

namespace ManagerProgram

def orNotFound (id : String) (next : ManagedTenant → ManagerProgram ManagerResult) :
    ManagerProgram ManagerResult :=
  .call (.storeGet id) fun answer => match answer with
    | .error e => .pure (.error e)
    | .ok none => .pure (.error (.notFound id))
    | .ok (some m) => next m

def unlessTerminated (id text : String) (next : ManagedTenant → ManagerProgram ManagerResult) :
    ManagerProgram ManagerResult :=
  orNotFound id fun m =>
    if m.status = .terminated then .pure (.error (.invalid text)) else next m

def provisionerThen (method : ProvisionerMethod) (m : ManagedTenant)
    (next : ManagerProgram ManagerResult) : ManagerProgram ManagerResult :=
  .call (.provisioner method m) fun answer => match answer with
    | .error e => .pure (.error e)
    | .ok () => next

def updateThen (m : ManagedTenant) (next : ManagerProgram ManagerResult) :
    ManagerProgram ManagerResult :=
  .call (.storeUpdate m) fun answer => match answer with
    | .error e => .pure (.error e)
    | .ok () => next

def finish (m : ManagedTenant) : ManagerProgram ManagerResult :=
  updateThen m (.pure (.ok (some m)))

def provisionNew (m : ManagedTenant) (now : DateTime) : ManagerProgram ManagerResult :=
  .call (.provisioner .provision m) fun answer => match answer with
    | .ok () => finish (m.markProvisioned now)
    | .error e => .call (.storeDelete m.tenant.id) fun answer => match answer with
      | .error e' => .pure (.error e')
      | .ok () => .pure (.error e)

end ManagerProgram

namespace ManagerOp

open ManagerProgram

theorem program_create (newV4 : String) (now : Clock) (request : CreateTenantRequest) :
    (create newV4 now request).program = .call (.storeGetBySlug request.slug) fun answer =>
      match answer with
      | .error e => .pure (.error e)
      | .ok (some _) =>
        .pure (.error (.invalid ("Tenant slug '" ++ request.slug ++ "' already exists")))
      | .ok none => .call (.storeCreate (request.managed newV4 (now 0))) fun answer =>
        match answer with
        | .error e => .pure (.error e)
        | .ok () => provisionNew (request.managed newV4 (now 0)) (now 1) := by
  apply Program.call_congr
  intro answer
  match answer with
  | .error e => rfl
  | .ok (some _) => rfl
  | .ok none =>
    apply Program.call_congr
    intro answer
    match answer with
    | .error e => rfl
    | .ok () =>
      apply Program.call_congr
      intro answer
      match answer with
      | .ok () =>
        apply Program.call_congr
        intro answer
        cases answer <;> rfl
      | .error e =>
        apply Program.call_congr
        intro answer
        cases answer <;> rfl

section Shapes

variable {next : ManagerM ManagedTenant} {m : ManagedTenant} {id : String}

theorem run_getOrNotFound {next : ManagedTenant → ManagerM ManagedTenant} :
    (some <$> (TenantManager.getOrNotFound id >>= next)).run =
      orNotFound id fun m => (some <$> next m).run := by
  apply Program.call_congr
  intro answer
  match answer with
  | .error e => rfl
  | .ok none => rfl
  | .ok (some m) => rfl

theorem run_unlessTerminated {text : String} {next : ManagedTenant → ManagerM ManagedTenant} :
    (some <$> (show ManagerM ManagedTenant from do
      let m ← TenantManager.getOrNotFound id
      if m.status = .terminated then
        throw (.invalid text)
      next m)).run =
      unlessTerminated id text fun m => (some <$> next m).run := by
  refine run_getOrNotFound.trans (congrArg _ (funext fun m => ?_))
  split
  · rfl
  · rfl

theorem run_provisioner {method : ProvisionerMethod} :
    (some <$> (ExceptT.mk (managerCall (.provisioner method m)) >>= fun _ => next)).run =
      provisionerThen method m (some <$> next).run := by
  apply Program.call_congr
  intro answer
  match answer with
  | .error e => rfl
  | .ok () => rfl

theorem run_update :
    (some <$> (ManagedTenantStore.update m >>= fun _ => next)).run =
      updateThen m (some <$> next).run := by
  apply Program.call_congr
  intro answer
  match answer with
  | .error e => rfl
  | .ok () => rfl

theorem run_finish : (some <$> (ManagedTenantStore.update m >>= fun _ => pure m)).run =
    finish m := run_update

end Shapes

theorem program_update (id : String) (now : Clock) (request : UpdateTenantRequest) :
    (update id now request).program = orNotFound id fun m => finish (m.apply request (now 0)) := by
  refine run_getOrNotFound.trans (congrArg _ (funext fun m => ?_))
  exact run_finish

theorem program_suspend (id reason : String) (now : Clock) :
    (suspend id reason now).program =
      unlessTerminated id "Cannot suspend terminated tenant" fun m =>
        provisionerThen .suspend m (finish (m.markSuspended reason (now 0))) := by
  refine run_unlessTerminated.trans (congrArg _ (funext fun m => ?_))
  refine run_provisioner.trans (congrArg _ ?_)
  exact run_finish

theorem program_activate (id : String) (now : Clock) :
    (activate id now).program =
      unlessTerminated id "Cannot activate terminated tenant" fun m =>
        provisionerThen .resume m (finish (m.markActive (now 0))) := by
  refine run_unlessTerminated.trans (congrArg _ (funext fun m => ?_))
  refine run_provisioner.trans (congrArg _ ?_)
  exact run_finish

theorem program_terminate (id reason : String) (now : Clock) :
    (terminate id reason now).program =
      unlessTerminated id "Tenant already terminated" fun m =>
        updateThen (m.markTerminating (now 0))
          (provisionerThen .deprovision (m.markTerminating (now 0))
            (finish ((m.markTerminating (now 0)).markTerminated reason (now 1)))) := by
  refine run_unlessTerminated.trans (congrArg _ (funext fun m => ?_))
  refine run_update.trans (congrArg _ ?_)
  refine run_provisioner.trans (congrArg _ ?_)
  exact run_finish

theorem program_delete (id : String) :
    (delete id).program = .call (.storeGet id) fun answer => match answer with
      | .error e => .pure (.error e)
      | .ok none => .pure (.ok none)
      | .ok (some m) =>
        if m.status = .terminated then .call (.storeDelete id) fun answer => match answer with
          | .error e => .pure (.error e)
          | .ok () => .pure (.ok none)
        else .pure (.error (.invalid "Tenant must be terminated before deletion")) := by
  apply Program.call_congr
  intro answer
  match answer with
  | .error e => rfl
  | .ok none => rfl
  | .ok (some m) =>
    simp only [Program.pure_bind', ExceptT.bindCont]
    by_cases h : m.status = .terminated
    · rw [if_neg (not_not.mpr h), if_pos h]
      apply Program.call_congr
      intro answer
      match answer with
      | .error e => rfl
      | .ok () => rfl
    · rw [if_pos h, if_neg h]
      rfl

theorem program_updateUsage (id : String) (usage : TenantUsage) :
    (updateUsage id usage).program = .call (.storeUpdateUsage id usage) fun answer =>
      match answer with
      | .error e => .pure (.error e)
      | .ok () => .pure (.ok none) := by
  apply Program.call_congr
  intro answer
  match answer with
  | .error e => rfl
  | .ok () => rfl

end ManagerOp

abbrev ManagerHistory (ι : Type*) := History ι ManagerCall ManagerCall.Answer

namespace ManagerProgram

variable {ι : Type*} {d : Discipline ι ManagerCall ManagerCall.Answer ManagerResult} {i : ι}
  {h : ManagerHistory ι}

def MayFail (d : Discipline ι ManagerCall ManagerCall.Answer ManagerResult) : Prop :=
  ∀ h i e, d.post h i (.error e)

theorem MayFail.follows_error (mayFail : MayFail d) {e : TenantError} :
    (Program.pure (.error e)).Follows d i h := mayFail h i e

variable {id : String} {m : ManagedTenant} {next : ManagerProgram ManagerResult}

theorem follows_orNotFound (mayFail : MayFail d) (hget : d.allowed h i (.storeGet id))
    {next : ManagedTenant → ManagerProgram ManagerResult}
    (hnext : ∀ h' m, OthersMoved i h h' → d.answers h' i (.storeGet id) (.ok (some m)) →
      (next m).Follows d i ((i, ⟨.storeGet id, .ok (some m)⟩) :: h')) :
    (orNotFound id next).Follows d i h := by
  refine ⟨hget, fun h' answer moved hanswer => ?_⟩
  match answer, hanswer with
  | .error e, _ => exact mayFail.follows_error
  | .ok none, _ => exact mayFail.follows_error
  | .ok (some m), hanswer => exact hnext h' m moved hanswer

theorem follows_unlessTerminated (mayFail : MayFail d) (hget : d.allowed h i (.storeGet id))
    {text : String} {next : ManagedTenant → ManagerProgram ManagerResult}
    (hnext : ∀ h' m, OthersMoved i h h' → d.answers h' i (.storeGet id) (.ok (some m)) →
      m.status ≠ .terminated → (next m).Follows d i ((i, ⟨.storeGet id, .ok (some m)⟩) :: h')) :
    (unlessTerminated id text next).Follows d i h := by
  apply follows_orNotFound mayFail hget
  intro h' m moved hanswer
  split
  · exact mayFail.follows_error
  · next guard => exact hnext h' m moved hanswer guard

theorem follows_updateThen (mayFail : MayFail d) (hupdate : d.allowed h i (.storeUpdate m))
    (hnext : ∀ h', OthersMoved i h h' → next.Follows d i ((i, ⟨.storeUpdate m, .ok ()⟩) :: h')) :
    (updateThen m next).Follows d i h := by
  refine ⟨hupdate, fun h' answer moved _ => ?_⟩
  cases answer with
  | error e => exact mayFail.follows_error
  | ok value => exact hnext h' moved

theorem follows_provisionerThen (mayFail : MayFail d) {method : ProvisionerMethod}
    (hcall : d.allowed h i (.provisioner method m))
    (hnext : ∀ h', OthersMoved i h h' →
      next.Follows d i ((i, ⟨.provisioner method m, .ok ()⟩) :: h')) :
    (provisionerThen method m next).Follows d i h := by
  refine ⟨hcall, fun h' answer moved _ => ?_⟩
  cases answer with
  | error e => exact mayFail.follows_error
  | ok value => exact hnext h' moved

theorem follows_provisionNew (mayFail : MayFail d) {now : DateTime}
    (hcall : d.allowed h i (.provisioner .provision m))
    (hfinish : ∀ h', OthersMoved i h h' → (finish (m.markProvisioned now)).Follows d i
      ((i, ⟨.provisioner .provision m, .ok ()⟩) :: h'))
    (hdelete : ∀ h' e, OthersMoved i h h' →
      d.allowed ((i, ⟨.provisioner .provision m, .error e⟩) :: h') i (.storeDelete m.tenant.id)) :
    (provisionNew m now).Follows d i h := by
  refine ⟨hcall, fun h' answer moved _ => ?_⟩
  cases answer with
  | ok value => exact hfinish h' moved
  | error e =>
    refine ⟨hdelete h' e moved, fun h'' answer _ _ => ?_⟩
    cases answer with
    | error e' => exact mayFail.follows_error
    | ok value => exact mayFail.follows_error

theorem follows_create (mayFail : MayFail d) {newV4 : String} {now : Clock}
    {request : CreateTenantRequest} (hslug : d.allowed h i (.storeGetBySlug request.slug))
    (hcreate : ∀ h', OthersMoved i h h' →
      d.allowed ((i, ⟨.storeGetBySlug request.slug, .ok none⟩) :: h') i
        (.storeCreate (request.managed newV4 (now 0))))
    (hnext : ∀ h' h'', OthersMoved i h h' →
      OthersMoved i ((i, ⟨.storeGetBySlug request.slug, .ok none⟩) :: h') h'' →
      (provisionNew (request.managed newV4 (now 0)) (now 1)).Follows d i
        ((i, ⟨.storeCreate (request.managed newV4 (now 0)), .ok ()⟩) :: h'')) :
    (ManagerOp.create newV4 now request).program.Follows d i h := by
  rw [ManagerOp.program_create]
  refine ⟨hslug, fun h' answer moved _ => ?_⟩
  match answer with
  | .error e => exact mayFail.follows_error
  | .ok (some _) => exact mayFail.follows_error
  | .ok none =>
    refine ⟨hcreate h' moved, fun h'' answer moved' _ => ?_⟩
    cases answer with
    | error e => exact mayFail.follows_error
    | ok value => exact hnext h' h'' moved moved'

theorem follows_delete_terminated (mayFail : MayFail d) (hdone : ∀ h, d.post h i (.ok none))
    (hget : d.allowed h i (.storeGet id))
    (hdelete : ∀ h' m, OthersMoved i h h' → d.answers h' i (.storeGet id) (.ok (some m)) →
      m.status = .terminated →
        d.allowed ((i, ⟨.storeGet id, .ok (some m)⟩) :: h') i (.storeDelete id)) :
    (ManagerOp.delete id).program.Follows d i h := by
  rw [ManagerOp.program_delete]
  refine ⟨hget, fun h' answer moved hanswer => ?_⟩
  match answer, hanswer with
  | .error e, _ => exact mayFail.follows_error
  | .ok none, _ => exact hdone _
  | .ok (some m), hanswer =>
    simp only
    split
    · next guard =>
      refine ⟨hdelete h' m moved hanswer guard, fun h'' answer _ _ => ?_⟩
      cases answer with
      | error e => exact mayFail.follows_error
      | ok value => exact hdone _
    · exact mayFail.follows_error

theorem follows_delete (mayFail : MayFail d) (hdone : ∀ h, d.post h i (.ok none))
    (hget : d.allowed h i (.storeGet id))
    (hdelete : ∀ h' m, OthersMoved i h h' → d.answers h' i (.storeGet id) (.ok (some m)) →
      d.allowed ((i, ⟨.storeGet id, .ok (some m)⟩) :: h') i (.storeDelete id)) :
    (ManagerOp.delete id).program.Follows d i h :=
  follows_delete_terminated mayFail hdone hget fun h' m moved hanswer _ =>
    hdelete h' m moved hanswer

theorem follows_updateUsage (mayFail : MayFail d) {usage : TenantUsage}
    (hcall : d.allowed h i (.storeUpdateUsage id usage))
    (hdone : ∀ h', OthersMoved i h h' →
      d.post ((i, ⟨.storeUpdateUsage id usage, .ok ()⟩) :: h') i (.ok none)) :
    (ManagerOp.updateUsage id usage).program.Follows d i h := by
  rw [ManagerOp.program_updateUsage]
  refine ⟨hcall, fun h' answer moved _ => ?_⟩
  cases answer with
  | error e => exact mayFail.follows_error
  | ok value => exact hdone h' moved

end ManagerProgram
end ArmatureTenancy

import ArmatureTenancy.Management.Unfolding

/-!
# What an operation run alone does

Run alone over the in-memory store, an operation has one of a few effects: it
finds no record, is refused by its guard, stops at a failing provisioner call,
or goes through. `Effect` lists them once, with the provisioner calls made on
the way, and every property of sequential runs is a case analysis over it.
-/

namespace ArmatureTenancy

open Foundations

structure ProvisionerEvent where
  method : ProvisionerMethod
  record : ManagedTenant
  outcome : Except TenantError Unit

def provisionerEvent : Exchange ManagerCall ManagerCall.Answer → Option ProvisionerEvent
  | ⟨.provisioner method m, outcome⟩ => some ⟨method, m, outcome⟩
  | _ => none

def provisionerEvents (log : List (Exchange ManagerCall ManagerCall.Answer)) :
    List ProvisionerEvent :=
  log.filterMap provisionerEvent

/-- From a store, an operation can make these provisioner calls, return this
result and leave this store. -/
inductive Effect (s : InMemoryManagedTenantStore) :
    ManagerOp → List ProvisionerEvent → ManagerResult → InMemoryManagedTenantStore → Prop
  | slugTaken {newV4 now request m} (stored : s.get m.tenant.id = some m)
      (slug : m.tenant.name = request.slug) :
      Effect s (.create newV4 now request) []
        (.error (.invalid ("Tenant slug '" ++ request.slug ++ "' already exists"))) s
  | idTaken {newV4 now request} (slug : ∀ k m, s.get k = some m → m.tenant.name ≠ request.slug)
      (stored : s.get newV4 ≠ none) :
      Effect s (.create newV4 now request) []
        (.error (.invalid ("Tenant " ++ newV4 ++ " already exists"))) s
  | created {newV4 now request}
      (slug : ∀ k m, s.get k = some m → m.tenant.name ≠ request.slug)
      (fresh : s.get newV4 = none) :
      Effect s (.create newV4 now request) [⟨.provision, request.managed newV4 (now 0), .ok ()⟩]
        (.ok (some ((request.managed newV4 (now 0)).markProvisioned (now 1))))
        ((s.put (request.managed newV4 (now 0))).put
          ((request.managed newV4 (now 0)).markProvisioned (now 1)))
  | provisionFailed {newV4 now request e}
      (slug : ∀ k m, s.get k = some m → m.tenant.name ≠ request.slug)
      (fresh : s.get newV4 = none) :
      Effect s (.create newV4 now request) [⟨.provision, request.managed newV4 (now 0), .error e⟩]
        (.error e) ((s.put (request.managed newV4 (now 0))).remove newV4)
  | updateMissing {id now request} (missing : s.get id = none) :
      Effect s (.update id now request) [] (.error (.notFound id)) s
  | updated {id now request m} (stored : s.get id = some m) :
      Effect s (.update id now request) [] (.ok (some (m.apply request (now 0))))
        (s.put (m.apply request (now 0)))
  | suspendMissing {id reason now} (missing : s.get id = none) :
      Effect s (.suspend id reason now) [] (.error (.notFound id)) s
  | suspendRefused {id reason now m} (stored : s.get id = some m)
      (terminated : m.status = .terminated) :
      Effect s (.suspend id reason now) []
        (.error (.invalid "Cannot suspend terminated tenant")) s
  | suspendFailed {id reason now m e} (stored : s.get id = some m)
      (guard : m.status ≠ .terminated) :
      Effect s (.suspend id reason now) [⟨.suspend, m, .error e⟩] (.error e) s
  | suspended {id reason now m} (stored : s.get id = some m) (guard : m.status ≠ .terminated) :
      Effect s (.suspend id reason now) [⟨.suspend, m, .ok ()⟩]
        (.ok (some (m.markSuspended reason (now 0)))) (s.put (m.markSuspended reason (now 0)))
  | activateMissing {id now} (missing : s.get id = none) :
      Effect s (.activate id now) [] (.error (.notFound id)) s
  | activateRefused {id now m} (stored : s.get id = some m)
      (terminated : m.status = .terminated) :
      Effect s (.activate id now) [] (.error (.invalid "Cannot activate terminated tenant")) s
  | activateFailed {id now m e} (stored : s.get id = some m) (guard : m.status ≠ .terminated) :
      Effect s (.activate id now) [⟨.resume, m, .error e⟩] (.error e) s
  | activated {id now m} (stored : s.get id = some m) (guard : m.status ≠ .terminated) :
      Effect s (.activate id now) [⟨.resume, m, .ok ()⟩] (.ok (some (m.markActive (now 0))))
        (s.put (m.markActive (now 0)))
  | terminateMissing {id reason now} (missing : s.get id = none) :
      Effect s (.terminate id reason now) [] (.error (.notFound id)) s
  | terminateRefused {id reason now m} (stored : s.get id = some m)
      (terminated : m.status = .terminated) :
      Effect s (.terminate id reason now) [] (.error (.invalid "Tenant already terminated")) s
  | deprovisionFailed {id reason now m e} (stored : s.get id = some m)
      (guard : m.status ≠ .terminated) :
      Effect s (.terminate id reason now) [⟨.deprovision, m.markTerminating (now 0), .error e⟩]
        (.error e) (s.put (m.markTerminating (now 0)))
  | terminated {id reason now m} (stored : s.get id = some m) (guard : m.status ≠ .terminated) :
      Effect s (.terminate id reason now) [⟨.deprovision, m.markTerminating (now 0), .ok ()⟩]
        (.ok (some ((m.markTerminating (now 0)).markTerminated reason (now 1))))
        ((s.put (m.markTerminating (now 0))).put
          ((m.markTerminating (now 0)).markTerminated reason (now 1)))
  | deleteMissing {id} (missing : s.get id = none) : Effect s (.delete id) [] (.ok none) s
  | deleteRefused {id m} (stored : s.get id = some m) (guard : m.status ≠ .terminated) :
      Effect s (.delete id) []
        (.error (.invalid "Tenant must be terminated before deletion")) s
  | deleted {id m} (stored : s.get id = some m) (terminated : m.status = .terminated) :
      Effect s (.delete id) [] (.ok none) (s.remove id)
  | usageMissing {id usage} (missing : s.get id = none) :
      Effect s (.updateUsage id usage) [] (.error (.notFound id)) s
  | usageUpdated {id usage m now} (stored : s.get id = some m) :
      Effect s (.updateUsage id usage) [] (.ok none) (s.put (m.recordUsage usage now))

section Shapes

open ManagerProgram

variable {s s' : InMemoryManagedTenantStore} {id : String} {m r : ManagedTenant}
  {log : List (Exchange ManagerCall ManagerCall.Answer)} {a : ManagerResult}

theorem runs_orNotFound {next : ManagedTenant → ManagerProgram ManagerResult}
    (h : (orNotFound id next).Runs memory s log a s') :
    (s.get id = none ∧ provisionerEvents log = [] ∧ a = .error (.notFound id) ∧ s' = s) ∨
      ∃ m tail, s.get id = some m ∧ provisionerEvents log = provisionerEvents tail ∧
        (next m).Runs memory s tail a s' := by
  obtain ⟨c, answer, s₁, tail, hanswer, rfl, htail⟩ := Program.runs_call_iff.mp h
  cases hanswer
  cases hget : s.get id with
  | none =>
    rw [hget] at htail
    obtain ⟨rfl, rfl, rfl⟩ := Program.runs_pure_iff.mp htail
    exact .inl ⟨rfl, rfl, rfl, rfl⟩
  | some m =>
    rw [hget] at htail
    exact .inr ⟨m, tail, rfl, rfl, htail⟩

theorem runs_unlessTerminated {text : String} {next : ManagedTenant → ManagerProgram ManagerResult}
    (h : (unlessTerminated id text next).Runs memory s log a s') :
    (s.get id = none ∧ provisionerEvents log = [] ∧ a = .error (.notFound id) ∧ s' = s) ∨
      (∃ m, s.get id = some m ∧ m.status = .terminated ∧ provisionerEvents log = [] ∧
        a = .error (.invalid text) ∧ s' = s) ∨
      ∃ m tail, s.get id = some m ∧ m.status ≠ .terminated ∧
        provisionerEvents log = provisionerEvents tail ∧ (next m).Runs memory s tail a s' := by
  rcases runs_orNotFound h with hmissing | ⟨m, tail, stored, hlog, hrun⟩
  · exact .inl hmissing
  · split at hrun
    · next hterminated =>
      obtain ⟨rfl, rfl, rfl⟩ := Program.runs_pure_iff.mp hrun
      exact .inr (.inl ⟨m, stored, hterminated, hlog, rfl, rfl⟩)
    · next hguard => exact .inr (.inr ⟨m, tail, stored, hguard, hlog, hrun⟩)

theorem runs_updateThen {next : ManagerProgram ManagerResult}
    (h : (updateThen m next).Runs memory s log a s') (stored : s.get id = some r)
    (same : m.identity = r.identity) :
    ∃ tail, provisionerEvents log = provisionerEvents tail ∧
      next.Runs memory (s.put m) tail a s' := by
  obtain ⟨c, answer, s₁, tail, hanswer, rfl, htail⟩ := Program.runs_call_iff.mp h
  have hupdate := InMemoryManagedTenantStore.update_stored
    (InMemoryManagedTenantStore.get_of_identity stored same)
  simp only [memory, hupdate] at hanswer
  cases hanswer
  exact ⟨tail, rfl, htail⟩

theorem runs_finish (h : (finish m).Runs memory s log a s') (stored : s.get id = some r)
    (same : m.identity = r.identity) :
    provisionerEvents log = [] ∧ a = .ok (some m) ∧ s' = s.put m := by
  obtain ⟨tail, hlog, htail⟩ := runs_updateThen h stored same
  obtain ⟨rfl, rfl, rfl⟩ := Program.runs_pure_iff.mp htail
  exact ⟨hlog, rfl, rfl⟩

theorem runs_provisionerThen {method : ProvisionerMethod} {next : ManagerProgram ManagerResult}
    (h : (provisionerThen method m next).Runs memory s log a s') :
    (∃ e, provisionerEvents log = [⟨method, m, .error e⟩] ∧ a = .error e ∧ s' = s) ∨
      ∃ tail, provisionerEvents log = ⟨method, m, .ok ()⟩ :: provisionerEvents tail ∧
        next.Runs memory s tail a s' := by
  obtain ⟨c, answer, s₁, tail, hanswer, rfl, htail⟩ := Program.runs_call_iff.mp h
  cases hanswer
  cases houtcome : c.outcome with
  | error e =>
    rw [houtcome] at htail
    obtain ⟨rfl, rfl, rfl⟩ := Program.runs_pure_iff.mp htail
    exact .inl ⟨e, rfl, rfl, rfl⟩
  | ok value =>
    rw [houtcome] at htail
    exact .inr ⟨tail, rfl, htail⟩

end Shapes

section Operations

variable {s s' : InMemoryManagedTenantStore} {log : List (Exchange ManagerCall ManagerCall.Answer)}
  {a : ManagerResult}

open ManagerProgram

theorem effect_update {id : String} {now : Clock} {request : UpdateTenantRequest}
    (h : (ManagerOp.update id now request).program.Runs memory s log a s') :
    Effect s (.update id now request) (provisionerEvents log) a s' := by
  rw [ManagerOp.program_update] at h
  rcases runs_orNotFound h with ⟨hnone, hlog, rfl, rfl⟩ | ⟨m, tail, stored, hlog, hrun⟩
  · rw [hlog]
    exact .updateMissing hnone
  · obtain ⟨htail, rfl, rfl⟩ := runs_finish hrun stored rfl
    rw [hlog, htail]
    exact .updated stored

theorem effect_suspend {id reason : String} {now : Clock}
    (h : (ManagerOp.suspend id reason now).program.Runs memory s log a s') :
    Effect s (.suspend id reason now) (provisionerEvents log) a s' := by
  rw [ManagerOp.program_suspend] at h
  rcases runs_unlessTerminated h with ⟨hnone, hlog, rfl, rfl⟩ |
    ⟨m, stored, hterminated, hlog, rfl, rfl⟩ | ⟨m, tail, stored, hguard, hlog, hrun⟩
  · rw [hlog]
    exact .suspendMissing hnone
  · rw [hlog]
    exact .suspendRefused stored hterminated
  · rw [hlog]
    rcases runs_provisionerThen hrun with ⟨e, htail, rfl, rfl⟩ | ⟨rest, htail, hfinish⟩
    · rw [htail]
      exact .suspendFailed stored hguard
    · obtain ⟨hrest, rfl, rfl⟩ := runs_finish hfinish stored rfl
      rw [htail, hrest]
      exact .suspended stored hguard

theorem effect_activate {id : String} {now : Clock}
    (h : (ManagerOp.activate id now).program.Runs memory s log a s') :
    Effect s (.activate id now) (provisionerEvents log) a s' := by
  rw [ManagerOp.program_activate] at h
  rcases runs_unlessTerminated h with ⟨hnone, hlog, rfl, rfl⟩ |
    ⟨m, stored, hterminated, hlog, rfl, rfl⟩ | ⟨m, tail, stored, hguard, hlog, hrun⟩
  · rw [hlog]
    exact .activateMissing hnone
  · rw [hlog]
    exact .activateRefused stored hterminated
  · rw [hlog]
    rcases runs_provisionerThen hrun with ⟨e, htail, rfl, rfl⟩ | ⟨rest, htail, hfinish⟩
    · rw [htail]
      exact .activateFailed stored hguard
    · obtain ⟨hrest, rfl, rfl⟩ := runs_finish hfinish stored rfl
      rw [htail, hrest]
      exact .activated stored hguard

theorem effect_terminate {id reason : String} {now : Clock}
    (h : (ManagerOp.terminate id reason now).program.Runs memory s log a s') :
    Effect s (.terminate id reason now) (provisionerEvents log) a s' := by
  rw [ManagerOp.program_terminate] at h
  rcases runs_unlessTerminated h with ⟨hnone, hlog, rfl, rfl⟩ |
    ⟨m, stored, hterminated, hlog, rfl, rfl⟩ | ⟨m, tail, stored, hguard, hlog, hrun⟩
  · rw [hlog]
    exact .terminateMissing hnone
  · rw [hlog]
    exact .terminateRefused stored hterminated
  · obtain ⟨rest, htail, hrest⟩ := runs_updateThen hrun stored rfl
    rw [hlog, htail]
    rcases runs_provisionerThen hrest with ⟨e, hfailed, rfl, rfl⟩ | ⟨last, hdone, hfinish⟩
    · rw [hfailed]
      exact .deprovisionFailed stored hguard
    · have hput := InMemoryManagedTenantStore.get_put_self s (m.markTerminating (now 0))
      obtain ⟨hlast, rfl, rfl⟩ := runs_finish hfinish hput rfl
      rw [hdone, hlast]
      exact .terminated stored hguard

theorem effect_delete {id : String}
    (h : (ManagerOp.delete id).program.Runs memory s log a s') :
    Effect s (.delete id) (provisionerEvents log) a s' := by
  rw [ManagerOp.program_delete] at h
  obtain ⟨c, answer, s₁, tail, hanswer, rfl, hrun⟩ := Program.runs_call_iff.mp h
  cases hanswer
  cases hget : s.get id with
  | none =>
    rw [hget] at hrun
    obtain ⟨rfl, rfl, rfl⟩ := Program.runs_pure_iff.mp hrun
    exact .deleteMissing hget
  | some m =>
    rw [hget] at hrun
    by_cases hterminated : m.status = .terminated
    · simp only [hterminated, if_true] at hrun
      obtain ⟨c, answer, s₂, tail, hanswer, rfl, hrun⟩ := Program.runs_call_iff.mp hrun
      cases hanswer
      obtain ⟨rfl, rfl, rfl⟩ := Program.runs_pure_iff.mp hrun
      exact .deleted hget hterminated
    · simp only [hterminated, if_false] at hrun
      obtain ⟨rfl, rfl, rfl⟩ := Program.runs_pure_iff.mp hrun
      exact .deleteRefused hget hterminated

theorem effect_updateUsage {id : String} {usage : TenantUsage}
    (h : (ManagerOp.updateUsage id usage).program.Runs memory s log a s') :
    Effect s (.updateUsage id usage) (provisionerEvents log) a s' := by
  rw [ManagerOp.program_updateUsage] at h
  obtain ⟨c, answer, s₁, tail, hanswer, rfl, hrun⟩ := Program.runs_call_iff.mp h
  cases hget : s.get id with
  | none =>
    have hmissing : s.updateUsage id usage c.now = (.error (.notFound id), s) := by
      simp [InMemoryManagedTenantStore.updateUsage, hget]
    simp only [memory, hmissing] at hanswer
    cases hanswer
    obtain ⟨rfl, rfl, rfl⟩ := Program.runs_pure_iff.mp hrun
    exact .usageMissing hget
  | some m =>
    have hstored := InMemoryManagedTenantStore.updateUsage_stored hget usage c.now
    simp only [memory, hstored] at hanswer
    cases hanswer
    obtain ⟨rfl, rfl, rfl⟩ := Program.runs_pure_iff.mp hrun
    exact .usageUpdated hget

theorem effect_create {newV4 : String} {now : Clock} {request : CreateTenantRequest}
    (h : (ManagerOp.create newV4 now request).program.Runs memory s log a s') :
    Effect s (.create newV4 now request) (provisionerEvents log) a s' := by
  rw [ManagerOp.program_create] at h
  obtain ⟨c, answer, s₁, tail, hanswer, rfl, hrun⟩ := Program.runs_call_iff.mp h
  cases hanswer
  cases hslug : s.getBySlug c.order request.slug with
  | some m =>
    rw [hslug] at hrun
    obtain ⟨rfl, rfl, rfl⟩ := Program.runs_pure_iff.mp hrun
    obtain ⟨hstored, hname⟩ := InMemoryManagedTenantStore.getBySlug_eq_some hslug
    exact .slugTaken hstored hname
  | none =>
    rw [hslug] at hrun
    have hfree := InMemoryManagedTenantStore.getBySlug_eq_none_iff.mp hslug
    obtain ⟨c, answer, s₂, tail, hanswer, rfl, hrun⟩ := Program.runs_call_iff.mp hrun
    cases hid : s.get newV4 with
    | some m =>
      have htaken : s.create (request.managed newV4 (now 0)) =
          (.error (.invalid ("Tenant " ++ newV4 ++ " already exists")), s) := by
        simp [InMemoryManagedTenantStore.create, hid]
      simp only [memory, htaken] at hanswer
      cases hanswer
      obtain ⟨rfl, rfl, rfl⟩ := Program.runs_pure_iff.mp hrun
      exact .idTaken hfree (by simp [hid])
    | none =>
      have hfresh : s.create (request.managed newV4 (now 0)) =
          (.ok (), s.put (request.managed newV4 (now 0))) :=
        InMemoryManagedTenantStore.create_fresh (by simpa using hid)
      simp only [memory, hfresh] at hanswer
      cases hanswer
      obtain ⟨c, answer, s₂, tail, hanswer, rfl, hrun⟩ := Program.runs_call_iff.mp hrun
      cases hanswer
      cases houtcome : c.outcome with
      | ok value =>
        rw [houtcome] at hrun
        have hput := InMemoryManagedTenantStore.get_put_self s (request.managed newV4 (now 0))
        obtain ⟨htail, rfl, rfl⟩ := runs_finish hrun hput rfl
        have hevents : provisionerEvents (⟨.storeGetBySlug request.slug, .ok none⟩ ::
            ⟨.storeCreate (request.managed newV4 (now 0)), .ok ()⟩ ::
            ⟨.provisioner .provision (request.managed newV4 (now 0)), .ok value⟩ :: tail) =
          ⟨.provision, request.managed newV4 (now 0), .ok ()⟩ :: provisionerEvents tail := rfl
        rw [hevents, htail]
        exact .created hfree hid
      | error e =>
        rw [houtcome] at hrun
        obtain ⟨c, answer, s₃, tail, hanswer, rfl, hrun⟩ := Program.runs_call_iff.mp hrun
        cases hanswer
        obtain ⟨rfl, rfl, rfl⟩ := Program.runs_pure_iff.mp hrun
        have hremove : (request.managed newV4 (now 0)).tenant.id = newV4 := request.managed_id _ _
        rw [hremove]
        exact .provisionFailed hfree hid

end Operations

/-- The one fact about the manager's programs that sequential runs are reasoned from. -/
theorem effect_of_runs {op : ManagerOp} {s s' : InMemoryManagedTenantStore}
    {log : List (Exchange ManagerCall ManagerCall.Answer)} {a : ManagerResult}
    (h : op.program.Runs memory s log a s') : Effect s op (provisionerEvents log) a s' := by
  cases op with
  | create newV4 now request => exact effect_create h
  | update id now request => exact effect_update h
  | suspend id reason now => exact effect_suspend h
  | activate id now => exact effect_activate h
  | terminate id reason now => exact effect_terminate h
  | delete id => exact effect_delete h
  | updateUsage id usage => exact effect_updateUsage h

namespace Effect

open InMemoryManagedTenantStore

variable {s s' : InMemoryManagedTenantStore} {op : ManagerOp} {events : List ProvisionerEvent}
  {a : ManagerResult}

theorem frame (h : Effect s op events a s') {k : String} (hk : k ≠ op.target) :
    s'.get k = s.get k := by
  have away {s : InMemoryManagedTenantStore} {m m' : ManagedTenant} {id : String}
      (stored : s.get id = some m) (same : m'.identity = m.identity) (hk : k ≠ id) :
      (s.put m').get k = s.get k := by
    rw [get_put, ManagedTenant.id_eq_of_identity same, id_of_get stored, if_neg hk]
  cases h with
  | @created newV4 now request slug fresh =>
    have same := (request.managed newV4 (now 0)).identity_markProvisioned (now 1)
    rw [get_put_put s same, get_put, ManagedTenant.id_eq_of_identity same, request.managed_id]
    exact if_neg hk
  | @provisionFailed newV4 now request e slug fresh =>
    rw [get_remove, get_put, request.managed_id]
    exact (if_neg hk).trans (if_neg hk)
  | updated stored => exact away stored rfl hk
  | suspended stored guard => exact away stored rfl hk
  | activated stored guard => exact away stored rfl hk
  | deprovisionFailed stored guard => exact away stored rfl hk
  | @terminated id reason now m stored guard =>
    rw [get_put_put s ((m.markTerminating (now 0)).identity_markTerminated reason (now 1))]
    exact away stored rfl hk
  | deleted stored terminated =>
    rw [get_remove]
    exact if_neg hk
  | usageUpdated stored => exact away stored rfl hk
  | _ => rfl

theorem missing (h : Effect s op events a s') (hnew : op.newId? = none)
    (hget : s.get op.target = none) : events = [] ∧ s' = s := by
  cases h <;> simp_all [ManagerOp.target, ManagerOp.newId?]

theorem events_cases (h : Effect s op events a s') :
    events = [] ∨ ∃ event, events = [event] ∧ event.record.tenant.id = op.target := by
  cases h with
  | created slug fresh => exact .inr ⟨_, rfl, CreateTenantRequest.managed_id _ _ _⟩
  | provisionFailed slug fresh => exact .inr ⟨_, rfl, CreateTenantRequest.managed_id _ _ _⟩
  | suspendFailed stored guard => exact .inr ⟨_, rfl, id_of_get stored⟩
  | suspended stored guard => exact .inr ⟨_, rfl, id_of_get stored⟩
  | activateFailed stored guard => exact .inr ⟨_, rfl, id_of_get stored⟩
  | activated stored guard => exact .inr ⟨_, rfl, id_of_get stored⟩
  | deprovisionFailed stored guard =>
    have hid := id_of_get stored
    exact .inr ⟨_, rfl, hid⟩
  | terminated stored guard =>
    have hid := id_of_get stored
    exact .inr ⟨_, rfl, hid⟩
  | _ => exact .inl rfl

end Effect

abbrev ManagerDone :=
  Completed ManagerOp InMemoryManagedTenantStore ManagerCall ManagerCall.Answer ManagerResult

/-- Operations one after the other, from an empty store. -/
abbrev ManagerRun : List ManagerDone → InMemoryManagedTenantStore → Prop :=
  Sequential memory ManagerOp.program InMemoryManagedTenantStore.new

def newIds (past : List ManagerDone) : List String := past.filterMap fun done => done.op.newId?

theorem newIds_cons (done : ManagerDone) (past : List ManagerDone) :
    newIds (done :: past) = done.op.newId?.toList ++ newIds past := by
  unfold newIds
  rw [List.filterMap_cons]
  cases done.op.newId? <;> rfl

/-- Generated UUIDs are fresh. -/
def FreshIds (past : List ManagerDone) : Prop := (newIds past).Nodup

theorem get_of_notMem_newIds {past : List ManagerDone} {s : InMemoryManagedTenantStore}
    (run : ManagerRun past s) {id : String} (hid : id ∉ newIds past) : s.get id = none := by
  induction run with
  | nil => rfl
  | @step past op s s' log a earlier runs ih =>
    rw [newIds_cons, List.mem_append, not_or] at hid
    have heffect := effect_of_runs runs
    have hget := ih hid.2
    by_cases htarget : id = op.target
    · cases hnew : op.newId? with
      | none =>
        obtain ⟨-, rfl⟩ := heffect.missing hnew (htarget ▸ hget)
        exact hget
      | some newV4 =>
        have hcreate : op.target = newV4 := by
          cases op <;> cases hnew
          rfl
        simp [hnew, htarget, hcreate] at hid
    · exact (heffect.frame htarget).trans hget

def runEvents : List ManagerDone → List ProvisionerEvent
  | [] => []
  | done :: past => runEvents past ++ provisionerEvents done.log

instance (past : List ManagerDone) : Decidable (FreshIds past) :=
  inferInstanceAs (Decidable (List.Nodup _))

def stalledTermination : List (ManagerOp × List ManagerChoice) :=
  [(.create "t-1" (fun _ => 0) (.new "acme"), [default, default, default, default]),
    (.terminate "t-1" "closing" (fun _ => 1), [default, default, ⟨.error .inactive, default, 1⟩])]

end ArmatureTenancy

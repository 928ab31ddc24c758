import ArmatureTenancy.Management.Identity
import Mathlib.Data.Fin.VecNotation

/-!
# Concurrent changes of one record

The operations on an existing tenant set different parts of its record, and all
but the usage update write the whole record back. Such a write keeps what others
wrote in the meantime exactly if the copy it is based on is still fresh in all
the fields the operation does not set. With fresh copies throughout, every field
holds what the last call that sets it wrote.
-/

namespace ArmatureTenancy

open Foundations InMemoryManagedTenantStore

def TenantUsage.metrics (usage : TenantUsage) : TenantUsage := { usage with lastUpdated := none }

/-- The parts of a record that operations on it set: all but its identity and the time of the
last usage update, which the store gives. -/
inductive RecordField where
  | usage
  | displayName
  | domain
  | metadata : (key : String) → RecordField
  | plan
  | limits
  | lifecycle
  | active
  | updatedAt

namespace RecordField

abbrev Value : RecordField → Type
  | usage => TenantUsage
  | displayName => Option String
  | domain => Option String
  | metadata _ => Option String
  | plan => TenantPlan
  | limits => TenantLimits
  | lifecycle => TenantStatus × Option String
  | active => Bool
  | updatedAt => DateTime

def read : (f : RecordField) → ManagedTenant → f.Value
  | usage, m => m.usage.metrics
  | displayName, m => m.tenant.displayName
  | domain, m => m.tenant.domain
  | metadata key, m => m.tenant.metadata.lookup key
  | plan, m => m.plan
  | limits, m => m.limits
  | lifecycle, m => (m.status, m.suspensionReason)
  | active, m => m.tenant.active
  | updatedAt, m => m.updatedAt

/-- What a call that succeeds sets the field to, if it sets it. -/
def setBy : (f : RecordField) → ManagerOp → Option f.Value
  | usage, .updateUsage _ metrics => some metrics.metrics
  | displayName, .update _ _ request => request.displayName.map some
  | domain, .update _ _ request => request.domain
  | metadata key, .update _ _ request =>
    (request.metadata.bind fun metadata => metadata.lookup key).map some
  | plan, .update _ _ request => request.plan
  | limits, .update _ _ request => request.limits.or (request.plan.map TenantLimits.forPlan)
  | lifecycle, .suspend _ reason _ => some (.suspended, some reason)
  | lifecycle, .activate _ _ => some (.active, none)
  | lifecycle, .terminate _ reason _ => some (.terminated, some reason)
  | active, .suspend _ _ _ => some false
  | active, .activate _ _ => some true
  | active, .terminate _ _ _ => some false
  | updatedAt, .update _ now _ => some (now 0)
  | updatedAt, .suspend _ _ now => some (now 0)
  | updatedAt, .activate _ now => some (now 0)
  | updatedAt, .terminate _ _ now => some (now 1)
  | _, _ => none

/-- What an exchange of a call that sets the field writes to it. -/
def written (f : RecordField) (op : ManagerOp) :
    Exchange ManagerCall ManagerCall.Answer → Option f.Value
  | ⟨.storeUpdate m, .ok ()⟩ => (f.setBy op).map fun _ => f.read m
  | ⟨.storeUpdateUsage _ _, .ok ()⟩ => f.setBy op
  | _ => none

end RecordField

/-- The records agree in every field the operation does not set. -/
def AgreeOutside (op : ManagerOp) (m r : ManagedTenant) : Prop :=
  ∀ f : RecordField, f.setBy op = none → f.read m = f.read r

section Changes

variable {id : String} {now : Clock} {time : DateTime} {m : ManagedTenant} {f : RecordField}

theorem agreeOutside_apply {request : UpdateTenantRequest} :
    AgreeOutside (.update id now request) (m.apply request time) m := by
  intro f hf
  cases f with
  | displayName =>
    have hnone : request.displayName = none := by simpa [RecordField.setBy] using hf
    simp [RecordField.read, ManagedTenant.apply, hnone]
  | domain =>
    have hnone : request.domain = none := hf
    simp [RecordField.read, ManagedTenant.apply, hnone]
  | metadata key =>
    simp only [RecordField.read, ManagedTenant.apply]
    cases hmetadata : request.metadata with
    | none => rfl
    | some metadata =>
      have hnone : metadata.lookup key = none := by
        simpa [RecordField.setBy, hmetadata] using hf
      rw [lookup_extend, hnone, Option.none_or]
  | plan =>
    have hnone : request.plan = none := hf
    simp [RecordField.read, ManagedTenant.apply, hnone]
  | limits =>
    obtain ⟨hlimits, hplan⟩ : request.limits = none ∧ request.plan = none := by
      simpa [RecordField.setBy] using hf
    simp [RecordField.read, ManagedTenant.apply, hlimits, hplan]
  | updatedAt => cases hf
  | _ => rfl

theorem read_apply {request : UpdateTenantRequest} {v : f.Value}
    (hv : f.setBy (.update id now request) = some v) :
    f.read (m.apply request (now 0)) = v := by
  cases f with
  | displayName =>
    obtain ⟨name, hname, rfl⟩ := Option.map_eq_some_iff.mp hv
    simp [RecordField.read, ManagedTenant.apply, hname]
  | domain =>
    have hdomain : request.domain = some v := hv
    simp [RecordField.read, ManagedTenant.apply, hdomain]
  | metadata key =>
    obtain ⟨value, hvalue, rfl⟩ := Option.map_eq_some_iff.mp hv
    obtain ⟨metadata, hmetadata, hlookup⟩ := Option.bind_eq_some_iff.mp hvalue
    simp [RecordField.read, ManagedTenant.apply, hmetadata, lookup_extend, hlookup]
  | plan =>
    have hplan : request.plan = some v := hv
    simp [RecordField.read, ManagedTenant.apply, hplan]
  | limits =>
    have hlimits : request.limits.or (request.plan.map TenantLimits.forPlan) = some v := hv
    simp only [RecordField.read, ManagedTenant.apply]
    cases hown : request.limits <;> cases hplan : request.plan <;> simp_all
  | updatedAt => exact Option.some.inj hv
  | _ => cases hv

/-- What the writes of the lifecycle operations make of a record. -/
def withLifecycle (m : ManagedTenant) (status : TenantStatus) (reason : Option String)
    (active : Bool) (now : DateTime) : ManagedTenant :=
  { m with
    status := status
    suspensionReason := reason
    tenant := { m.tenant with active := active }
    updatedAt := now }

variable {op : ManagerOp} {status : TenantStatus} {reason : Option String} {active : Bool}

theorem agreeOutside_withLifecycle (hop : RecordField.lifecycle.setBy op ≠ none) :
    AgreeOutside op (withLifecycle m status reason active time) m := by
  intro f hf
  cases op with
  | suspend | activate | terminate => cases f <;> first | rfl | cases hf
  | _ => exact absurd rfl hop

theorem read_withLifecycle {v : f.Value}
    (hlifecycle : RecordField.lifecycle.setBy op = some (status, reason))
    (hactive : RecordField.active.setBy op = some active)
    (hupdated : RecordField.updatedAt.setBy op = some time) (hv : f.setBy op = some v) :
    f.read (withLifecycle m status reason active time) = v := by
  cases f with
  | lifecycle => exact Option.some.inj (hlifecycle.symm.trans hv)
  | active => exact Option.some.inj (hactive.symm.trans hv)
  | updatedAt => exact Option.some.inj (hupdated.symm.trans hv)
  | _ =>
    cases op with
    | suspend | activate | terminate => cases hv
    | _ => cases hlifecycle

theorem read_recordUsage (id : String) (usage : TenantUsage) :
    f.read (m.recordUsage usage time) = (f.setBy (.updateUsage id usage)).getD (f.read m) := by
  cases f <;> rfl

end Changes

/-- The operation changes the existing record of `id`. -/
inductive ChangesRecord (id : String) : ManagerOp → Prop
  | update (now : Clock) (request : UpdateTenantRequest) : ChangesRecord id (.update id now request)
  | suspend (reason : String) (now : Clock) : ChangesRecord id (.suspend id reason now)
  | activate (now : Clock) : ChangesRecord id (.activate id now)
  | terminate (reason : String) (now : Clock) : ChangesRecord id (.terminate id reason now)
  | updateUsage (usage : TenantUsage) : ChangesRecord id (.updateUsage id usage)

section History

variable {ι : Type*}

variable (calls : ι → ManagerOp)

/-- What the most recent write of a call that sets the field wrote to it. -/
def lastWritten (f : RecordField) (h : ManagerHistory ι) : Option f.Value :=
  h.findSome? fun x => f.written (calls x.1) x.2

/-- What the call whose write to the field is the most recent one sets it to. -/
def lastSet (f : RecordField) (h : ManagerHistory ι) : Option f.Value :=
  h.findSome? fun x => (f.written (calls x.1) x.2).bind fun _ => f.setBy (calls x.1)

/-- Every field holds what was last written by a call that sets it, or else what
it held at first. -/
def HoldsLastWritten (id : String) (first : ManagedTenant)
    (now : Moment ι InMemoryManagedTenantStore ManagerCall ManagerCall.Answer) : Prop :=
  ∀ r, now.state.get id = some r → ∀ f : RecordField,
    f.read r = (lastWritten calls f now.history).getD (f.read first)

variable {calls}

/-- If the last write of every call is what the call sets, the last write of all is. -/
theorem lastWritten_eq_lastSet [DecidableEq ι] {f : RecordField} {h : ManagerHistory ι}
    (hown : ∀ i v, f.setBy (calls i) = some v → ∀ w,
      lastOwn i (f.written (calls i)) h = some w → w = v) :
    lastWritten calls f h = lastSet calls f h := by
  induction h with
  | nil => rfl
  | cons x h ih =>
    obtain ⟨j, x⟩ := x
    cases hx : f.written (calls j) x with
    | some w =>
      cases hv : f.setBy (calls j) with
      | some v =>
        have hw := hown j v hv w (lastOwn_cons_some hx)
        simp [lastWritten, lastSet, hx, hv, hw]
      | none =>
        unfold RecordField.written at hx
        split at hx <;> simp [hv] at hx
    | none =>
      have hrest := ih fun i v hv w hw => hown i v hv w <| by
        by_cases hij : j = i
        · subst hij
          rw [lastOwn_cons_none hx, hw]
        · rw [(OthersMoved.cons (j, x) hij).lastOwn_eq, hw]
      simpa [lastWritten, lastSet, hx] using hrest

variable {id : String} {first r : ManagedTenant} {i : ι}
  {now : Moment ι InMemoryManagedTenantStore ManagerCall ManagerCall.Answer}

theorem HoldsLastWritten.quiet (hholds : HoldsLastWritten calls id first now)
    {x : Exchange ManagerCall ManagerCall.Answer}
    (hwritten : ∀ (f : RecordField) op, f.written op x = none) :
    HoldsLastWritten calls id first ⟨now.state, (i, x) :: now.history⟩ := by
  intro r hr f
  simpa [lastWritten, hwritten] using hholds r hr f

theorem HoldsLastWritten.usageUpdated (hholds : HoldsLastWritten calls id first now)
    (hr : now.state.get id = some r) {usage : TenantUsage} {time : DateTime}
    (hop : calls i = .updateUsage id usage) :
    HoldsLastWritten calls id first ⟨now.state.put (r.recordUsage usage time),
      (i, ⟨.storeUpdateUsage id usage, .ok ()⟩) :: now.history⟩ := by
  intro r' hr' f
  have hid : (r.recordUsage usage time).tenant.id = id := id_of_get (m := r) hr
  rw [← hid, get_put_self] at hr'
  cases hr'
  rw [read_recordUsage id usage, hholds r hr f]
  cases hset : f.setBy (.updateUsage id usage) <;>
    simp [lastWritten, RecordField.written, hop, hset]

/-- A record written back keeps what others wrote exactly if its copy was fresh. -/
theorem HoldsLastWritten.updated_iff (hholds : HoldsLastWritten calls id first now)
    (hr : now.state.get id = some r) {m copy : ManagedTenant} (hid : m.tenant.id = id)
    (hm : AgreeOutside (calls i) m copy) :
    HoldsLastWritten calls id first
        ⟨now.state.put m, (i, ⟨.storeUpdate m, .ok ()⟩) :: now.history⟩ ↔
      AgreeOutside (calls i) copy r := by
  have hget : (now.state.put m).get id = some m := by rw [← hid, get_put_self]
  have hfield (f : RecordField) :
      f.read m = (lastWritten calls f
          ((i, ⟨.storeUpdate m, .ok ()⟩) :: now.history)).getD (f.read first) ↔
        (f.setBy (calls i) = none → f.read copy = f.read r) := by
    rw [hholds r hr f]
    cases hset : f.setBy (calls i) with
    | some v => simp [lastWritten, RecordField.written, hset]
    | none => simp [lastWritten, RecordField.written, hset, hm f hset]
  constructor
  · intro hholds' f
    exact (hfield f).mp (hholds' m hget f)
  · intro hfresh r' hr' f
    obtain rfl : m = r' := Option.some.inj (hget.symm.trans hr')
    exact (hfield f).mpr (hfresh f)

end History

section Programs

variable {ι : Type*} [DecidableEq ι]

/-- Write back the record last read, changed only in fields the operation sets;
what is written last is what the operation sets. -/
def changeDiscipline (calls : ι → ManagerOp) (id : String) :
    Discipline ι ManagerCall ManagerCall.Answer ManagerResult where
  allowed h i
    | .storeCreate _ => False
    | .storeGet k => k = id
    | .storeGetBySlug _ => False
    | .storeUpdate m => m.tenant.id = id ∧
        ∃ copy, lastRead i h = some copy ∧ AgreeOutside (calls i) m copy
    | .storeDelete _ => False
    | .storeUpdateUsage k usage => k = id ∧ calls i = .updateUsage id usage
    | .provisioner _ _ => True
  answers _ _
    | .storeGet k, answer => ∀ m, answer = .ok (some m) → m.tenant.id = k
    | _, _ => True
  post h i result := ∀ value, result = .ok value → ∀ (f : RecordField) v,
    f.setBy (calls i) = some v → lastOwn i (f.written (calls i)) h = some v
  allowed_stable := by
    intro h h' i e moved hallowed
    cases e with
    | storeUpdate m => simpa only [lastRead, moved.lastOwn_eq] using hallowed
    | _ => exact hallowed
  post_stable := by
    intro h h' i result moved hpost value hresult f v hset
    rw [moved.lastOwn_eq]
    exact hpost value hresult f v hset

variable {calls : ι → ManagerOp} {id : String} {i : ι} {h : ManagerHistory ι}

namespace ChangesRecord

open ManagerProgram

theorem change_mayFail : MayFail (changeDiscipline calls id) := by
  intro h i e value heq
  cases heq

variable {m copy : ManagedTenant}

theorem lastRead_read (id : String) (copy : ManagedTenant) (h : ManagerHistory ι) :
    lastRead i ((i, ⟨.storeGet id, .ok (some copy)⟩) :: h) = some copy :=
  lastOwn_cons_some rfl

theorem lastRead_next {h' : ManagerHistory ι} (hcopy : lastRead i h = some copy)
    (moved : OthersMoved i h h') {x : Exchange ManagerCall ManagerCall.Answer}
    (hx : recordRead x = none) : lastRead i ((i, x) :: h') = some copy :=
  (lastOwn_cons_none hx).trans (moved.lastOwn_eq.trans hcopy)

theorem follows_finish (hid : m.tenant.id = id) (hcopy : lastRead i h = some copy)
    (hm : AgreeOutside (calls i) m copy)
    (hset : ∀ (f : RecordField) v, f.setBy (calls i) = some v → f.read m = v) :
    (finish m).Follows (changeDiscipline calls id) i h := by
  apply follows_updateThen change_mayFail ⟨hid, copy, hcopy, hm⟩
  intro h' _ value _ f v hv
  apply lastOwn_cons_some
  simp [RecordField.written, hv, hset f v hv]

theorem follows_finish_lifecycle {op : ManagerOp} {status : TenantStatus} {reason : Option String}
    {active : Bool} {time : DateTime} (hop : calls i = op) (hid : m.tenant.id = id)
    (hcopy : lastRead i h = some copy) (hm : AgreeOutside op m copy)
    (hlifecycle : RecordField.lifecycle.setBy op = some (status, reason))
    (hactive : RecordField.active.setBy op = some active)
    (hupdated : RecordField.updatedAt.setBy op = some time) :
    (finish (withLifecycle m status reason active time)).Follows
      (changeDiscipline calls id) i h := by
  subst hop
  have hwritten : AgreeOutside (calls i) (withLifecycle m status reason active time) m :=
    agreeOutside_withLifecycle (by simp [hlifecycle])
  refine follows_finish hid hcopy (fun f hf => (hwritten f hf).trans (hm f hf)) ?_
  exact fun _ _ => read_withLifecycle hlifecycle hactive hupdated

theorem program_follows {op : ManagerOp} (hchanges : ChangesRecord id op) (hop : calls i = op) :
    op.program.Follows (changeDiscipline calls id) i h := by
  cases hchanges with
  | update now request =>
    rw [ManagerOp.program_update]
    apply follows_orNotFound change_mayFail rfl
    intro h' copy _ hanswer
    apply follows_finish (m := copy.apply request (now 0)) (hanswer copy rfl)
      (lastRead_read id copy h') (hop ▸ agreeOutside_apply)
    intro f v hv
    rw [hop] at hv
    exact read_apply hv
  | suspend reason now =>
    rw [ManagerOp.program_suspend]
    apply follows_unlessTerminated change_mayFail rfl
    intro h' copy _ hanswer _
    apply follows_provisionerThen change_mayFail trivial
    intro h'' moved
    exact follows_finish_lifecycle (m := copy) hop (hanswer copy rfl)
      (lastRead_next (lastRead_read id copy h') moved rfl) (fun _ _ => rfl) rfl rfl rfl
  | activate now =>
    rw [ManagerOp.program_activate]
    apply follows_unlessTerminated change_mayFail rfl
    intro h' copy _ hanswer _
    apply follows_provisionerThen change_mayFail trivial
    intro h'' moved
    exact follows_finish_lifecycle (m := copy) hop (hanswer copy rfl)
      (lastRead_next (lastRead_read id copy h') moved rfl) (fun _ _ => rfl) rfl rfl rfl
  | terminate reason now =>
    rw [ManagerOp.program_terminate]
    apply follows_unlessTerminated change_mayFail rfl
    intro h₁ copy _ hanswer _
    have hid := hanswer copy rfl
    have hfirst : AgreeOutside (.terminate id reason now) (copy.markTerminating (now 0)) copy :=
      agreeOutside_withLifecycle (m := copy) (Option.some_ne_none _)
    apply follows_updateThen (m := copy.markTerminating (now 0)) change_mayFail
      ⟨hid, copy, lastRead_read id copy h₁, hop ▸ hfirst⟩
    intro h₂ moved₂
    apply follows_provisionerThen change_mayFail trivial
    intro h₃ moved₃
    exact follows_finish_lifecycle (m := copy.markTerminating (now 0)) hop hid
      (lastRead_next (lastRead_next (lastRead_read id copy h₁) moved₂ rfl) moved₃ rfl) hfirst
      rfl rfl rfl
  | updateUsage usage =>
    apply follows_updateUsage change_mayFail ⟨rfl, hop⟩
    intro h' _ value _ f v hv
    exact lastOwn_cons_some hv

end ChangesRecord
end Programs

section Interleaved

variable {ι : Type*} [DecidableEq ι] (calls : ι → ManagerOp) (id : String)

def managerSystemFrom (start : InMemoryManagedTenantStore) : ManagerConfig ι where
  state := start
  history := []
  program := fun i => (calls i).program

/-- If the program's next call writes a record, the copy it last read agrees with
the stored record in every field the program's operation does not set. -/
def FreshCopy (cfg : ManagerConfig ι) (turn : ι × ManagerChoice) : Prop :=
  ∀ m rest, cfg.program turn.1 = .call (.storeUpdate m) rest →
    ∀ copy r, lastRead turn.1 cfg.history = some copy → cfg.state.get id = some r →
      AgreeOutside (calls turn.1) copy r

def HasRecord (now : Moment ι InMemoryManagedTenantStore ManagerCall ManagerCall.Answer) : Prop :=
  ∃ r, now.state.get id = some r

/-- The record is there, and all calls still to be made follow the discipline. -/
def ChangesOnly (cfg : ManagerConfig ι) : Prop :=
  HasRecord id cfg.toMoment ∧
    ∀ i, (cfg.program i).Follows (changeDiscipline calls id) i cfg.history

variable {calls id}

theorem managerSystemFrom_changes (hchanges : ∀ i, ChangesRecord id (calls i))
    {start : InMemoryManagedTenantStore} {first : ManagedTenant}
    (hfirst : start.get id = some first) (schedule : List (ι × ManagerChoice)) :
    ChangesOnly calls id ((managerSystemFrom calls start).run memory schedule) := by
  refine Config.run_follows ?_ ⟨first, hfirst⟩ (fun i => (hchanges i).program_follows rfl) schedule
  intro c now i e answer s' hinv hallowed hstep
  have hmem := memory_step hstep
  constructor
  · cases hmem with
    | @read k =>
      intro m hm
      exact id_of_get (Except.ok.inj hm)
    | _ => trivial
  · obtain ⟨r, hr⟩ := hinv
    rcases hmem.get_cases id with hsame | ⟨m, rfl, -⟩ | ⟨m, _, -, -, -, hm⟩ | ⟨rfl, -⟩ |
      ⟨usage, _, time, -, -, husage⟩
    · exact ⟨r, hsame.trans hr⟩
    · exact hallowed.elim
    · exact ⟨m, hm⟩
    · exact hallowed.elim
    · exact ⟨_, husage⟩

theorem holdsLastWritten_step_iff {first : ManagedTenant} {cfg : ManagerConfig ι}
    {turn : ι × ManagerChoice} (hchanges : ChangesOnly calls id cfg)
    (hholds : HoldsLastWritten calls id first cfg.toMoment) :
    HoldsLastWritten calls id first (cfg.step memory turn).toMoment ↔
      FreshCopy calls id cfg turn := by
  obtain ⟨⟨r, hr⟩, hfollows⟩ := hchanges
  have hfollow := hfollows turn.1
  unfold FreshCopy
  cases hp : cfg.program turn.1 with
  | pure a =>
    rw [cfg.step_pure memory hp]
    exact iff_of_true hholds (by simp)
  | call e rest =>
    rw [hp] at hfollow
    obtain ⟨answer, s, hanswer⟩ := memory_answers turn.2 cfg.state e
    rw [cfg.step_call memory hp hanswer]
    have hmem := memory_step hanswer
    clear hanswer
    cases hmem with
    | @updated m old stored =>
      obtain ⟨⟨hid, copy, hcopy, hm⟩, -⟩ := hfollow
      have hiff := hholds.updated_iff hr hid hm
      refine hiff.trans ⟨?_, fun hfresh => hfresh m rest rfl copy r hcopy hr⟩
      intro hfresh m' rest' heq copy' r' hcopy' hr'
      obtain rfl : copy = copy' := Option.some.inj (hcopy.symm.trans hcopy')
      obtain rfl : r = r' := Option.some.inj (hr.symm.trans hr')
      exact hfresh
    | updateRefused missing =>
      obtain ⟨⟨hid, -⟩, -⟩ := hfollow
      rw [hid, hr] at missing
      cases missing
    | @usageUpdated k usage old time stored =>
      obtain ⟨⟨rfl, hop⟩, -⟩ := hfollow
      exact iff_of_true (hholds.usageUpdated stored hop) (by simp)
    | created => exact hfollow.1.elim
    | createRefused => exact hfollow.1.elim
    | deleted => exact hfollow.1.elim
    | _ => exact iff_of_true (hholds.quiet fun _ _ => rfl) (by simp)

def AllOk (cfg : ManagerConfig ι) : Prop := ∀ i, ∃ value, cfg.program i = .pure (.ok value)

theorem lastWritten_of_allOk {cfg : ManagerConfig ι} (hchanges : ChangesOnly calls id cfg)
    (hok : AllOk cfg) (f : RecordField) :
    lastWritten calls f cfg.history = lastSet calls f cfg.history := by
  apply lastWritten_eq_lastSet
  intro i v hset w hw
  obtain ⟨value, hvalue⟩ := hok i
  have hpost := hchanges.2 i
  rw [hvalue] at hpost
  have hv : lastOwn i (f.written (calls i)) cfg.history = some v := hpost value rfl f v hset
  exact Option.some.inj (hw.symm.trans hv)

/-- In every interleaving of changes of one record: the record holds in all states
what the last writers of its fields wrote, exactly if every write is based on a
copy that is fresh in the fields the writing call does not set; and then, once all
calls have returned `Ok`, it holds what these calls set. -/
theorem last_writers_win_iff (hchanges : ∀ i, ChangesRecord id (calls i))
    {start : InMemoryManagedTenantStore} {first : ManagedTenant}
    (hfirst : start.get id = some first) (schedule : List (ι × ManagerChoice)) :
    let reached := (managerSystemFrom calls start).run memory
    let fresh := ∀ before turn, before ++ [turn] <+: schedule →
      FreshCopy calls id (reached before) turn
    ((∀ before, before <+: schedule →
        HoldsLastWritten calls id first (reached before).toMoment) ↔ fresh) ∧
      (fresh → AllOk (reached schedule) → ∃ r, (reached schedule).state.get id = some r ∧
        ∀ f : RecordField,
          f.read r = (lastSet calls f (reached schedule).history).getD (f.read first)) := by
  intro reached fresh
  have hchanged := managerSystemFrom_changes hchanges hfirst
  have hstart : HoldsLastWritten calls id first (managerSystemFrom calls start).toMoment := by
    intro r hr f
    obtain rfl : first = r := Option.some.inj (hfirst.symm.trans hr)
    rfl
  have hiff := Config.always_iff memory (managerSystemFrom calls start)
    (P := fun cfg => HoldsLastWritten calls id first cfg.toMoment) hchanged hstart
    (fun cfg turn => holdsLastWritten_step_iff) schedule
  refine ⟨hiff, ?_⟩
  intro hfresh hok
  obtain ⟨⟨r, hr⟩, -⟩ := hchanged schedule
  refine ⟨r, hr, fun f => ?_⟩
  rw [hiff.mpr hfresh schedule (List.prefix_refl _) r hr f]
  rw [lastWritten_of_allOk (hchanged schedule) hok f]

end Interleaved

def oneTenant : InMemoryManagedTenantStore :=
  .put .new ((CreateTenantRequest.new "acme").managed "t-1" 0)

def suspendWhileMetering : Fin 2 → ManagerOp :=
  ![.suspend "t-1" "unpaid" fun _ => 1, .updateUsage "t-1" { TenantUsage.default with users := 7 }]

theorem suspendWhileMetering_changes (i : Fin 2) :
    ChangesRecord "t-1" (suspendWhileMetering i) := by
  match i with
  | 0 => exact .suspend "unpaid" _
  | 1 => exact .updateUsage _

theorem last_writers_win_iff_serial :
    let serial : List (Fin 2 × ManagerChoice) :=
      [(0, default), (0, default), (0, default), (1, default)]
    let first := (CreateTenantRequest.new "acme").managed "t-1" 0
    let reached := (managerSystemFrom suspendWhileMetering oneTenant).run memory
    (∀ before, before <+: serial →
        HoldsLastWritten suspendWhileMetering "t-1" first (reached before).toMoment) ∧
      ∃ r, (reached serial).state.get "t-1" = some r ∧ ∀ f : RecordField,
        f.read r = (lastSet suspendWhileMetering f (reached serial).history).getD
          (f.read first) := by
  intro serial first reached
  obtain ⟨hiff, hfinal⟩ := last_writers_win_iff suspendWhileMetering_changes
    (show oneTenant.get "t-1" = some first from rfl) serial
  have hfresh : ∀ before turn, before ++ [turn] <+: serial →
      FreshCopy suspendWhileMetering "t-1" (reached before) turn := by
    simp only [serial, forall_turns_cons]
    refine ⟨?_, ?_, ?_, ?_, forall_turns_nil⟩ <;> intro m rest hp <;> cases hp
    intro copy r hcopy hr f _
    obtain rfl : copy = r := Option.some.inj (hcopy.symm.trans hr)
    rfl
  refine ⟨hiff.mpr hfresh, hfinal hfresh fun i => ?_⟩
  match i with
  | 0 => exact ⟨_, rfl⟩
  | 1 => exact ⟨_, rfl⟩

/-- The usage is recorded between the read and the write of the suspension. -/
theorem suspension_reverts_usage :
    let schedule : List (Fin 2 × ManagerChoice) :=
      [(0, default), (1, default), (0, default), (0, default)]
    let final := (managerSystemFrom suspendWhileMetering oneTenant).run memory schedule
    AllOk final ∧
      lastSet suspendWhileMetering .usage final.history =
        some { TenantUsage.default with users := 7 } ∧
      (final.state.get "t-1").map (fun r => r.usage.users) = some 0 := by
  refine ⟨?_, rfl, rfl⟩
  intro i
  match i with
  | 0 => exact ⟨_, rfl⟩
  | 1 => exact ⟨_, rfl⟩

end ArmatureTenancy

import ArmatureTenancy.Management.Identity
import ArmatureTenancy.Management.Limits

/-!
# Records under racing operations

Operations on one tenant read its record, change it and write it back, so they can
overwrite each other's changes. No record is ever a mixture of two: however the
operations are interleaved, it is what some of them, each once and one after
another, make of the record that one of them created. What that chain keeps holds
of every record in every interleaving.
-/

namespace ArmatureTenancy

open Foundations InMemoryManagedTenantStore

variable {ι : Type*}

namespace ManagerOp

/-- The records a creation writes, before and after the tenant is provisioned. -/
def Creates : ManagerOp → ManagedTenant → Prop
  | .create newV4 now request, m => m = request.managed newV4 (now 0) ∨
      m = (request.managed newV4 (now 0)).markProvisioned (now 1)
  | _, _ => False

/-- The records an operation writes when it finds `m`: a termination cut short writes
only the first of its two. -/
def Writes : ManagerOp → ManagedTenant → ManagedTenant → Prop
  | .update id now request, m, m' => m.tenant.id = id ∧ m' = m.apply request (now 0)
  | .suspend id reason now, m, m' =>
    m.tenant.id = id ∧ m.status ≠ .terminated ∧ m' = m.markSuspended reason (now 0)
  | .activate id now, m, m' =>
    m.tenant.id = id ∧ m.status ≠ .terminated ∧ m' = m.markActive (now 0)
  | .terminate id reason now, m, m' =>
    m.tenant.id = id ∧ m.status ≠ .terminated ∧ (m' = m.markTerminating (now 0) ∨
      m' = (m.markTerminating (now 0)).markTerminated reason (now 1))
  | .updateUsage id usage, m, m' => m.tenant.id = id ∧ ∃ now, m' = m.recordUsage usage now
  | _, _, _ => False

end ManagerOp

/-- The calls make this record, each at most once and one after another. -/
abbrev RecordChain (calls : ι → ManagerOp) : List ι → ManagedTenant → Prop :=
  WriteChain (fun i => (calls i).Creates) (fun i => (calls i).Writes)

abbrev ChainedRecord (calls : ι → ManagerOp) : ManagerHistory ι → ManagedTenant → Prop :=
  Chained (fun i => (calls i).Creates) (fun i => (calls i).Writes)

/-- Write, hand to the provisioner and return only what a chain of calls makes. -/
def chainDiscipline (calls : ι → ManagerOp) :
    Discipline ι ManagerCall ManagerCall.Answer ManagerResult where
  allowed h i
    | .storeCreate m | .storeUpdate m | .provisioner _ m => ChainedRecord calls h m
    | .storeUpdateUsage id usage => calls i = .updateUsage id usage ∧ i ∉ h.map Prod.fst
    | _ => True
  answers h _
    | .storeGet id, answer => ∀ m, answer = .ok (some m) →
      m.tenant.id = id ∧ ChainedRecord calls h m
    | _, _ => True
  post h _ a := ∀ m, a = .ok (some m) → ChainedRecord calls h m
  allowed_stable := by
    intro h h' i e moved hallowed
    cases e with
    | storeUpdateUsage id usage => exact ⟨hallowed.1, moved.unmoved hallowed.2⟩
    | storeCreate m => exact Chained.mono hallowed moved.subset
    | storeUpdate m => exact Chained.mono hallowed moved.subset
    | provisioner method m => exact Chained.mono hallowed moved.subset
    | _ => trivial
  post_stable moved hpost m ha := (hpost m ha).mono moved.subset

section Programs

open ManagerProgram

variable {calls : ι → ManagerOp} {i : ι} {h : ManagerHistory ι} {m : ManagedTenant}

theorem chain_mayFail : MayFail (chainDiscipline calls) := by
  intro h i e m herror
  cases herror

theorem Foundations.Chained.follows_finish (chained : ChainedRecord calls h m) :
    (finish m).Follows (chainDiscipline calls) i h := by
  apply follows_updateThen chain_mayFail chained
  intro h' moved m' hm'
  cases hm'
  exact chained.next moved _

theorem Foundations.Chained.follows_provisioner_finish {m' : ManagedTenant}
    (chained : ChainedRecord calls h m) (chained' : ChainedRecord calls h m')
    {method : ProvisionerMethod} :
    (provisionerThen method m (finish m')).Follows (chainDiscipline calls) i h := by
  apply follows_provisionerThen chain_mayFail chained
  intro h' moved
  exact (chained'.next moved _).follows_finish

theorem chained_of_read {op : ManagerOp} (hop : calls i = op) (hfirst : i ∉ h.map Prod.fst)
    {h' : ManagerHistory ι} (moved : OthersMoved i h h') (chained : ChainedRecord calls h' m)
    {m' : ManagedTenant} (hwrite : op.Writes m m')
    (x : Exchange ManagerCall ManagerCall.Answer) : ChainedRecord calls ((i, x) :: h') m' := by
  subst hop
  exact chained.written (moved.unmoved hfirst) hwrite (List.subset_cons_self _ _)
    List.mem_cons_self

theorem ManagerOp.program_chained (op : ManagerOp) (hop : calls i = op)
    (hfirst : i ∉ h.map Prod.fst) : op.program.Follows (chainDiscipline calls) i h := by
  cases op with
  | create newV4 now request =>
    have made {m : ManagedTenant} (hm : (create newV4 now request).Creates m)
        (x : Exchange ManagerCall ManagerCall.Answer) (h' : ManagerHistory ι) :
        ChainedRecord calls ((i, x) :: h') m := by
      rw [← hop] at hm
      exact .created hm List.mem_cons_self
    apply follows_create chain_mayFail trivial
    · intro h' _
      exact made (.inl rfl) _ _
    · intro h' h'' _ _
      apply follows_provisionNew chain_mayFail
      · exact made (.inl rfl) _ _
      · intro h' _
        exact (made (.inr rfl) _ _).follows_finish
      · intro h' e _
        trivial
  | update id now request =>
    rw [program_update]
    apply follows_orNotFound chain_mayFail trivial
    intro h' m moved hanswer
    obtain ⟨hid, chained⟩ := hanswer m rfl
    exact (chained_of_read hop hfirst moved chained ⟨hid, rfl⟩ _).follows_finish
  | suspend id reason now =>
    rw [program_suspend]
    apply follows_unlessTerminated chain_mayFail trivial
    intro h' m moved hanswer guard
    obtain ⟨hid, chained⟩ := hanswer m rfl
    have written := chained_of_read hop hfirst moved chained ⟨hid, guard, rfl⟩
    exact (chained.next (.refl i _) _).follows_provisioner_finish (written _)
  | activate id now =>
    rw [program_activate]
    apply follows_unlessTerminated chain_mayFail trivial
    intro h' m moved hanswer guard
    obtain ⟨hid, chained⟩ := hanswer m rfl
    have written := chained_of_read hop hfirst moved chained ⟨hid, guard, rfl⟩
    exact (chained.next (.refl i _) _).follows_provisioner_finish (written _)
  | terminate id reason now =>
    rw [program_terminate]
    apply follows_unlessTerminated chain_mayFail trivial
    intro h' m moved hanswer guard
    obtain ⟨hid, chained⟩ := hanswer m rfl
    have first := chained_of_read hop hfirst moved chained ⟨hid, guard, .inl rfl⟩
    have second := chained_of_read hop hfirst moved chained ⟨hid, guard, .inr rfl⟩
    apply follows_updateThen chain_mayFail (first _)
    intro h'' moved'
    exact ((first _).next moved' _).follows_provisioner_finish ((second _).next moved' _)
  | delete id =>
    apply follows_delete chain_mayFail ?_ trivial
    · intro h' m _ _
      trivial
    · intro h m hm
      cases hm
  | updateUsage id usage =>
    apply follows_updateUsage chain_mayFail ⟨hop, hfirst⟩
    intro h' _ m hm
    cases hm

end Programs

/-- What is stored and what was handed to the provisioner is what some calls made. -/
structure ChainInvariant (calls : ι → ManagerOp)
    (now : Moment ι InMemoryManagedTenantStore ManagerCall ManagerCall.Answer) : Prop where
  stored : ∀ id m, now.state.get id = some m → ChainedRecord calls now.history m
  provisioned : ∀ i method m answer, (i, ⟨.provisioner method m, answer⟩) ∈ now.history →
    ChainedRecord calls now.history m

theorem ChainInvariant.keeps {calls : ι → ManagerOp}
    {now : Moment ι InMemoryManagedTenantStore ManagerCall ManagerCall.Answer}
    (hinv : ChainInvariant calls now) {i : ι} {e : ManagerCall} {answer : e.Answer}
    {s' : InMemoryManagedTenantStore}
    (hallowed : (chainDiscipline calls).allowed now.history i e)
    (hstep : MemoryStep now.state e answer s') :
    ChainInvariant calls ⟨s', (i, ⟨e, answer⟩) :: now.history⟩ := by
  have later : now.history ⊆ (i, ⟨e, answer⟩) :: now.history := List.subset_cons_self _ _
  constructor
  · intro id m hm
    rcases hstep.get_cases id with hsame | ⟨m', rfl, -, -, hm'⟩ | ⟨m', r, rfl, -, -, hm'⟩ |
      ⟨-, hgone⟩ | ⟨usage, r, time, rfl, hr, hm'⟩
    · exact (hinv.stored id m (hsame.symm.trans hm)).mono later
    · cases hm'.symm.trans hm
      exact Chained.mono hallowed later
    · cases hm'.symm.trans hm
      exact Chained.mono hallowed later
    · cases hgone.symm.trans hm
    · cases hm'.symm.trans hm
      obtain ⟨hop, hfirst⟩ := hallowed
      have hwrite : (calls i).Writes r (r.recordUsage usage time) := by
        rw [hop]
        exact ⟨id_of_get hr, time, rfl⟩
      exact (hinv.stored id r hr).written hfirst hwrite later List.mem_cons_self
  · intro j method m answer' hmem
    rcases List.mem_cons.mp hmem with hmem | hmem
    · cases hmem
      exact Chained.mono hallowed later
    · exact (hinv.provisioned j method m answer' hmem).mono later

section Interleaved

variable [DecidableEq ι] {calls : ι → ManagerOp}

theorem managerSystem_chained (calls : ι → ManagerOp) (schedule : List (ι × ManagerChoice)) :
    let now := (managerSystem calls).run memory schedule
    ChainInvariant calls now.toMoment ∧
      ∀ i, (now.program i).Follows (chainDiscipline calls) i now.history := by
  refine Config.run_follows ?_ ?_ ?_ schedule
  · intro c now i e answer s' hinv hallowed hstep
    have hmem := memory_step hstep
    refine ⟨?_, hinv.keeps hallowed hmem⟩
    cases hmem with
    | @read id =>
      intro m hm
      have hget : now.state.get id = some m := Except.ok.inj hm
      exact ⟨id_of_get hget, hinv.stored id m hget⟩
    | _ => trivial
  · constructor
    · intro id m hm
      cases hm
    · intro i method m answer hmem
      cases hmem
  · exact fun i => (calls i).program_chained rfl List.not_mem_nil

/-- The records of an execution: those stored, those calls returned, and those handed
to the provisioner. -/
inductive ManagerConfig.Shows (now : ManagerConfig ι) (m : ManagedTenant) : Prop
  | stored {id} : now.state.get id = some m → ManagerConfig.Shows now m
  | returned {i} : now.program i = .pure (.ok (some m)) → ManagerConfig.Shows now m
  | provisioned {i method answer} : (i, ⟨.provisioner method m, answer⟩) ∈ now.history →
      ManagerConfig.Shows now m

theorem chained_of_shows {schedule : List (ι × ManagerChoice)} {m : ManagedTenant}
    (shows : ManagerConfig.Shows ((managerSystem calls).run memory schedule) m) :
    ∃ past, RecordChain calls past m := by
  obtain ⟨hinv, hfollows⟩ := managerSystem_chained calls schedule
  have chained : ChainedRecord calls ((managerSystem calls).run memory schedule).history m := by
    cases shows with
    | stored hm => exact hinv.stored _ m hm
    | @returned i hreturned =>
      have hpost := hfollows i
      rw [hreturned] at hpost
      exact hpost m rfl
    | provisioned hmem => exact hinv.provisioned _ _ m _ hmem
  obtain ⟨past, hchain, -⟩ := chained
  exact ⟨past, hchain⟩

end Interleaved

namespace ManagerOp

def setsDisplayName : ManagerOp → Option String
  | .create _ _ request => request.displayName
  | .update _ _ request => request.displayName
  | _ => none

def setsDomain : ManagerOp → Option String
  | .create _ _ request => request.domain
  | .update _ _ request => request.domain.join
  | _ => none

def setsMetadata (key : String) : ManagerOp → Option String
  | .create _ _ request => request.metadata.lookup key
  | .update _ _ request => request.metadata.bind fun metadata => metadata.lookup key
  | _ => none

def setsPlan : ManagerOp → Option TenantPlan
  | .create _ _ request => some request.plan
  | .update _ _ request => request.plan
  | _ => none

def setsCustomLimits : ManagerOp → Option TenantLimits
  | .create _ _ request => request.customLimits
  | .update _ _ request => request.limits
  | _ => none

def setsReason : ManagerOp → Option String
  | .suspend _ reason _ => some reason
  | .terminate _ reason _ => some reason
  | _ => none

end ManagerOp

/-- One of the calls about this id gives the value. -/
def Supplied {β : Type} (calls : ι → ManagerOp) (id : String) (sets : ManagerOp → Option β)
    (value : β) : Prop :=
  ∃ i, (calls i).target = id ∧ sets (calls i) = some value

/-- Every value in the record comes from a call about this tenant, and what belongs
together agrees: the limits with the plan, the flag and the reason with the status. -/
structure Sourced (calls : ι → ManagerOp) (m : ManagedTenant) : Prop where
  created : ∃ i newV4 now request, calls i = .create newV4 now request ∧
    m.identity = (request.managed newV4 (now 0)).identity
  displayName : ∀ name, m.tenant.displayName = some name →
    Supplied calls m.tenant.id ManagerOp.setsDisplayName name
  domain : ∀ name, m.tenant.domain = some name →
    Supplied calls m.tenant.id ManagerOp.setsDomain name
  metadata : ∀ key value, m.tenant.metadata.lookup key = some value →
    Supplied calls m.tenant.id (ManagerOp.setsMetadata key) value
  database : m.tenant.database = none ∧ m.tenant.schema = none
  plan : Supplied calls m.tenant.id ManagerOp.setsPlan m.plan
  limits : m.limits = TenantLimits.forPlan m.plan ∨
    Supplied calls m.tenant.id ManagerOp.setsCustomLimits m.limits
  usage : ∃ usage, Supplied calls m.tenant.id ManagerOp.setsUsage usage ∧
    m.usage.counts = usage.counts
  reason : ∀ reason, m.suspensionReason = some reason →
    Supplied calls m.tenant.id ManagerOp.setsReason reason
  serving : m.status = .provisioning ∨ m.status = .active →
    m.tenant.active = true ∧ m.suspensionReason = none
  refused : m.status = .suspended ∨ m.status = .terminated →
    m.tenant.active = false ∧ m.suspensionReason ≠ none

namespace Sourced

variable {calls : ι → ManagerOp} {i : ι} {m : ManagedTenant}

theorem of_managed {newV4 : String} {now : Clock} {request : CreateTenantRequest}
    (hop : calls i = .create newV4 now request) :
    Sourced calls (request.managed newV4 (now 0)) := by
  have target : (calls i).target = (request.managed newV4 (now 0)).tenant.id := by
    rw [hop, request.managed_id]
    rfl
  have supplied {β : Type} {sets : ManagerOp → Option β} {value : β}
      (h : sets (.create newV4 now request) = some value) :
      Supplied calls (request.managed newV4 (now 0)).tenant.id sets value :=
    ⟨i, target, hop ▸ h⟩
  have htenant : (request.managed newV4 (now 0)).tenant = _ := request.tenant_eq newV4
  constructor
  · exact ⟨i, newV4, now, request, hop, rfl⟩
  · intro name hname
    rw [htenant] at hname
    exact supplied hname
  · intro name hname
    rw [htenant] at hname
    exact supplied hname
  · intro key value hvalue
    rw [htenant] at hvalue
    apply supplied
    simpa [lookup_extend, ManagerOp.setsMetadata] using hvalue
  · rw [htenant]
    exact ⟨rfl, rfl⟩
  · exact supplied rfl
  · cases hlimits : request.customLimits with
    | none => exact .inl (by simp [CreateTenantRequest.managed, ManagedTenant.fromTenant, hlimits])
    | some limits =>
      refine .inr (supplied ?_)
      simp [CreateTenantRequest.managed, hlimits, ManagerOp.setsCustomLimits]
  · exact ⟨.default, supplied rfl, rfl⟩
  · intro reason hreason
    cases hreason
  · intro _
    exact ⟨request.managed_active newV4 (now 0), rfl⟩
  · rintro (h | h) <;> cases h

theorem apply (h : Sourced calls m) {now : Clock} {request : UpdateTenantRequest}
    (hop : calls i = .update m.tenant.id now request) :
    Sourced calls (m.apply request (now 0)) := by
  have supplied {β : Type} {sets : ManagerOp → Option β} {value : β}
      (h : sets (.update m.tenant.id now request) = some value) :
      Supplied calls m.tenant.id sets value := ⟨i, by rw [hop]; rfl, hop ▸ h⟩
  refine { h with displayName := ?_, domain := ?_, metadata := ?_, plan := ?_, limits := ?_ }
  · intro name hname
    cases hrequest : request.displayName with
    | none =>
      rw [ManagedTenant.apply, hrequest] at hname
      exact h.displayName name hname
    | some given =>
      rw [ManagedTenant.apply, hrequest] at hname
      exact supplied (hrequest.trans hname)
  · intro name hname
    cases hrequest : request.domain with
    | none =>
      rw [ManagedTenant.apply, hrequest] at hname
      exact h.domain name hname
    | some given =>
      rw [ManagedTenant.apply, hrequest] at hname
      exact supplied ((congrArg Option.join hrequest).trans hname)
  · intro key value hvalue
    cases hrequest : request.metadata with
    | none =>
      rw [ManagedTenant.apply, hrequest] at hvalue
      exact h.metadata key value hvalue
    | some given =>
      rw [ManagedTenant.apply, hrequest] at hvalue
      rw [lookup_extend] at hvalue
      rcases Option.or_eq_some_iff.mp hvalue with hnew | ⟨-, hold⟩
      · exact supplied (by rw [ManagerOp.setsMetadata, hrequest]; exact hnew)
      · exact h.metadata key value hold
  · cases hrequest : request.plan with
    | none =>
      rw [ManagedTenant.apply, hrequest]
      exact h.plan
    | some plan =>
      rw [ManagedTenant.apply, hrequest]
      exact supplied hrequest
  · cases hlimits : request.limits with
    | some limits =>
      rw [ManagedTenant.apply, hlimits]
      exact .inr (supplied hlimits)
    | none =>
      cases hplan : request.plan with
      | none =>
        rw [ManagedTenant.apply, hlimits, hplan]
        exact h.limits
      | some plan =>
        rw [ManagedTenant.apply, hlimits, hplan]
        exact .inl rfl

theorem markSuspended (h : Sourced calls m) {reason : String} {now : Clock}
    (hop : calls i = .suspend m.tenant.id reason now) :
    Sourced calls (m.markSuspended reason (now 0)) := by
  refine { h with reason := ?_, serving := ?_, refused := ?_ }
  · intro given hgiven
    cases hgiven
    exact ⟨i, by rw [hop]; rfl, by rw [hop]; rfl⟩
  · rintro (hstatus | hstatus) <;> cases hstatus
  · exact fun _ => ⟨rfl, Option.some_ne_none reason⟩

theorem markActive (h : Sourced calls m) {now : DateTime} : Sourced calls (m.markActive now) := by
  refine { h with reason := ?_, serving := ?_, refused := ?_ }
  · intro given hgiven
    cases hgiven
  · exact fun _ => ⟨rfl, rfl⟩
  · rintro (hstatus | hstatus) <;> cases hstatus

theorem markTerminating (h : Sourced calls m) {now : DateTime} :
    Sourced calls (m.markTerminating now) := by
  refine { h with serving := ?_, refused := ?_ }
  · rintro (hstatus | hstatus) <;> cases hstatus
  · rintro (hstatus | hstatus) <;> cases hstatus

theorem markTerminated (h : Sourced calls m) {reason : String} {now : Clock}
    (hop : calls i = .terminate m.tenant.id reason now) :
    Sourced calls (m.markTerminated reason (now 1)) := by
  refine { h with reason := ?_, serving := ?_, refused := ?_ }
  · intro given hgiven
    cases hgiven
    exact ⟨i, by rw [hop]; rfl, by rw [hop]; rfl⟩
  · rintro (hstatus | hstatus) <;> cases hstatus
  · exact fun _ => ⟨rfl, Option.some_ne_none reason⟩

theorem recordUsage (h : Sourced calls m) {usage : TenantUsage} {now : DateTime}
    (hop : calls i = .updateUsage m.tenant.id usage) : Sourced calls (m.recordUsage usage now) :=
  { h with usage := ⟨usage, ⟨i, by rw [hop]; rfl, by rw [hop]; rfl⟩, rfl⟩ }

theorem markProvisioned {newV4 : String} {now : Clock} {request : CreateTenantRequest}
    (hop : calls i = .create newV4 now request) :
    Sourced calls ((request.managed newV4 (now 0)).markProvisioned (now 1)) := by
  have h := of_managed hop
  refine { h with serving := ?_, refused := ?_ }
  · exact fun _ => h.serving (.inl rfl)
  · rintro (hstatus | hstatus) <;> cases hstatus

theorem of_creates (hm : (calls i).Creates m) : Sourced calls m := by
  cases hop : calls i with
  | create newV4 now request =>
    rw [hop] at hm
    rcases hm with rfl | rfl
    · exact of_managed hop
    · exact markProvisioned hop
  | _ =>
    rw [hop] at hm
    exact False.elim hm

theorem of_writes {m' : ManagedTenant} (h : Sourced calls m) (hm : (calls i).Writes m m') :
    Sourced calls m' := by
  cases hop : calls i with
  | update id now request =>
    rw [hop] at hm
    obtain ⟨rfl, rfl⟩ := hm
    exact h.apply hop
  | suspend id reason now =>
    rw [hop] at hm
    obtain ⟨rfl, -, rfl⟩ := hm
    exact h.markSuspended hop
  | activate id now =>
    rw [hop] at hm
    obtain ⟨-, -, rfl⟩ := hm
    exact h.markActive
  | terminate id reason now =>
    rw [hop] at hm
    obtain ⟨rfl, -, rfl | rfl⟩ := hm
    · exact h.markTerminating
    · exact h.markTerminating.markTerminated hop
  | updateUsage id usage =>
    rw [hop] at hm
    obtain ⟨rfl, now, rfl⟩ := hm
    exact h.recordUsage hop
  | _ =>
    rw [hop] at hm
    exact False.elim hm

end Sourced

section Interleaved

variable [DecidableEq ι] {calls : ι → ManagerOp}

/-- However the operations are interleaved and whatever the provisioner answers, every
record that is stored, returned or handed to the provisioner is what some of the calls,
each once and one after another, make of the record that one of them created. -/
theorem records_never_mixed (calls : ι → ManagerOp) (schedule : List (ι × ManagerChoice))
    (m : ManagedTenant)
    (shows : ManagerConfig.Shows ((managerSystem calls).run memory schedule) m) :
    ∃ past, past.Nodup ∧ RecordChain calls past m := by
  obtain ⟨past, hchain⟩ := chained_of_shows shows
  exact ⟨past, hchain.nodup, hchain⟩

/-- However the operations are interleaved, every value in such a record was given by a
call about its tenant, the limits are those of the plan unless a call gave others, and
the active flag and the suspension reason agree with a status that serves or refuses. -/
theorem record_values_supplied (calls : ι → ManagerOp) (schedule : List (ι × ManagerChoice))
    (m : ManagedTenant)
    (shows : ManagerConfig.Shows ((managerSystem calls).run memory schedule) m) :
    Sourced calls m := by
  obtain ⟨past, hchain⟩ := chained_of_shows shows
  apply hchain.invariant
  · intro i m hm
    exact Sourced.of_creates hm
  · intro i m m' h hm
    exact h.of_writes hm

end Interleaved

def upgradeWhileSuspending : Fin 3 → ManagerOp :=
  ![.create "t-1" (fun _ => 0) (.new "acme"),
    .update "t-1" (fun _ => 1) { UpdateTenantRequest.new with plan := some .starter },
    .suspend "t-1" "unpaid" (fun _ => 2)]

/-- The suspension overwrites the upgrade as a whole: plan and limits. -/
theorem records_never_mixed_overwritten :
    let now := (managerSystem upgradeWhileSuspending).run memory [(0, default), (0, default),
      (0, default), (0, default), (1, default), (2, default), (1, default), (2, default),
      (2, default)]
    ∃ m past, now.state.get "t-1" = some m ∧ m.status = .suspended ∧ m.plan = .free ∧
      past.Nodup ∧ RecordChain upgradeWhileSuspending past m := by
  intro now
  have stored : now.state.get "t-1" = some _ := rfl
  obtain ⟨past, hnodup, hchain⟩ := records_never_mixed upgradeWhileSuspending _ _ (.stored stored)
  exact ⟨_, past, stored, rfl, rfl, hnodup, hchain⟩

theorem record_values_supplied_overwritten :
    let now := (managerSystem upgradeWhileSuspending).run memory [(0, default), (0, default),
      (0, default), (0, default), (1, default), (2, default), (1, default), (2, default),
      (2, default)]
    ∃ m, now.program 1 = .pure (.ok (some m)) ∧ m.plan = .starter ∧
      Sourced upgradeWhileSuspending m := by
  intro now
  have returned : now.program 1 = .pure (.ok (some _)) := rfl
  exact ⟨_, returned, rfl, record_values_supplied upgradeWhileSuspending _ _ (.returned returned)⟩

end ArmatureTenancy

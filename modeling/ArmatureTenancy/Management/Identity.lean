import ArmatureTenancy.Management.Unfolding
import Mathlib.Data.Fin.VecNotation

/-!
# Identity of records under interleaving

An operation in flight holds a copy of a record and later writes it back whole.
The copy can be out of date in every field but those that say which record it
is: these are given when the record is created and no operation changes them.
Since a fresh id is used for one creation only, an id once removed stays unused.
-/

namespace ArmatureTenancy

open Foundations InMemoryManagedTenantStore

variable {ι : Type*}

def recordRead : Exchange ManagerCall ManagerCall.Answer → Option ManagedTenant
  | ⟨.storeGet _, .ok (some m)⟩ => some m
  | _ => none

def lastRead [DecidableEq ι] (i : ι) (h : ManagerHistory ι) : Option ManagedTenant :=
  lastOwn i recordRead h

/-- A record with this identity was inserted. -/
def Born (h : ManagerHistory ι) (ident : Identity) : Prop :=
  ∃ i m, (i, ⟨.storeCreate m, .ok ()⟩) ∈ h ∧ m.identity = ident

theorem Born.mono {h h' : ManagerHistory ι} {ident : Identity} (hborn : Born h ident)
    (hsub : h ⊆ h') : Born h' ident := by
  obtain ⟨i, m, hmem, hm⟩ := hborn
  exact ⟨i, m, hsub hmem, hm⟩

/-- Different calls generate different ids. -/
def FreshCalls (calls : ι → ManagerOp) : Prop :=
  ∀ i j id, (calls i).newId? = some id → (calls j).newId? = some id → i = j

def NotCreated (i : ι) (h : ManagerHistory ι) : Prop :=
  ∀ m answer, (i, ⟨.storeCreate m, answer⟩) ∉ h

/-- Insert only once, under the generated id and after a search that did not find the slug;
write back and delete only what was inserted; rely on reads returning records that were
inserted. -/
def identityDiscipline (calls : ι → ManagerOp) :
    Discipline ι ManagerCall ManagerCall.Answer ManagerResult where
  allowed h i
    | .storeCreate m => (calls i).newId? = some m.tenant.id ∧ NotCreated i h ∧
      (i, ⟨.storeGetBySlug m.tenant.name, .ok none⟩) ∈ h
    | .storeUpdate m => Born h m.identity
    | .storeDelete id => ∃ ident, Born h ident ∧ ident.id = id
    | _ => True
  answers h _
    | .storeGet id, answer => ∀ m, answer = .ok (some m) → m.tenant.id = id ∧ Born h m.identity
    | _, _ => True
  post _ _ _ := True
  allowed_stable := by
    intro h h' i e moved hallowed
    cases e with
    | storeCreate m =>
      obtain ⟨hnew, hfirst, hsearched⟩ := hallowed
      exact ⟨hnew, fun m' answer hmem => hfirst m' answer (moved.mem_own hmem),
        moved.subset hsearched⟩
    | storeUpdate m => exact Born.mono hallowed moved.subset
    | storeDelete id =>
      obtain ⟨ident, hborn, hid⟩ := hallowed
      exact ⟨ident, hborn.mono moved.subset, hid⟩
    | _ => trivial
  post_stable _ _ := trivial

section Programs

open ManagerProgram

variable {calls : ι → ManagerOp} {i : ι} {h : ManagerHistory ι} {m : ManagedTenant} {id : String}

theorem identity_mayFail : MayFail (identityDiscipline calls) := fun _ _ _ => trivial

theorem born_of_read {h' : ManagerHistory ι} {m : ManagedTenant}
    (hanswer : (identityDiscipline calls).answers h' i (.storeGet id) (.ok (some m))) :
    Born ((i, ⟨.storeGet id, .ok (some m)⟩) :: h') m.identity :=
  (hanswer m rfl).2.mono (List.subset_cons_self _ _)

theorem Born.next {ident : Identity} {h' : ManagerHistory ι} (hborn : Born h ident)
    (moved : OthersMoved i h h') (x : ι × Exchange ManagerCall ManagerCall.Answer) :
    Born (x :: h') ident :=
  (hborn.mono moved.subset).mono (List.subset_cons_self _ _)

theorem Born.follows_finish (hborn : Born h m.identity) {m' : ManagedTenant}
    (same : m'.identity = m.identity) : (finish m').Follows (identityDiscipline calls) i h := by
  rw [← same] at hborn
  exact follows_updateThen identity_mayFail hborn fun _ _ => trivial

theorem Born.follows_provisioner_finish (hborn : Born h m.identity) {method : ProvisionerMethod}
    {r m' : ManagedTenant} (same : m'.identity = m.identity) :
    (provisionerThen method r (finish m')).Follows (identityDiscipline calls) i h := by
  apply follows_provisionerThen identity_mayFail trivial
  intro h' moved
  exact (hborn.next moved _).follows_finish same

theorem Born.follows_provisionNew {now : DateTime} (hborn : Born h m.identity) :
    (provisionNew m now).Follows (identityDiscipline calls) i h := by
  apply ManagerProgram.follows_provisionNew identity_mayFail trivial
  · intro h' moved
    exact (hborn.next moved _).follows_finish (m.identity_markProvisioned now)
  · intro h' e moved
    exact ⟨m.identity, hborn.next moved _, rfl⟩

theorem ManagerOp.program_follows (op : ManagerOp) (hop : calls i = op) (hfirst : NotCreated i h) :
    op.program.Follows (identityDiscipline calls) i h := by
  cases op with
  | create newV4 now request =>
    apply follows_create identity_mayFail trivial
    · intro h' moved
      refine ⟨by simp [hop, newId?], ?_, by simp⟩
      intro m answer hmem
      rcases List.mem_cons.mp hmem with hmem | hmem
      · cases hmem
      · exact hfirst m answer (moved.mem_own hmem)
    · intro h' h'' _ _
      have hborn : Born ((i, ⟨.storeCreate (request.managed newV4 (now 0)), .ok ()⟩) :: h'')
          (request.managed newV4 (now 0)).identity := ⟨i, _, List.mem_cons_self, rfl⟩
      exact hborn.follows_provisionNew
  | update id now request =>
    rw [program_update]
    apply follows_orNotFound identity_mayFail trivial
    intro h' m _ hanswer
    exact (born_of_read hanswer).follows_finish (m.identity_apply request (now 0))
  | suspend id reason now =>
    rw [program_suspend]
    apply follows_unlessTerminated identity_mayFail trivial
    intro h' m _ hanswer _
    have hborn := born_of_read hanswer
    exact hborn.follows_provisioner_finish (m.identity_markSuspended reason (now 0))
  | activate id now =>
    rw [program_activate]
    apply follows_unlessTerminated identity_mayFail trivial
    intro h' m _ hanswer _
    have hborn := born_of_read hanswer
    exact hborn.follows_provisioner_finish (m.identity_markActive (now 0))
  | terminate id reason now =>
    rw [program_terminate]
    apply follows_unlessTerminated identity_mayFail trivial
    intro h' m _ hanswer _
    have hborn := born_of_read hanswer
    rw [← m.identity_markTerminating (now 0)] at hborn
    apply follows_updateThen identity_mayFail hborn
    intro h'' moved
    exact (hborn.next moved _).follows_provisioner_finish
      ((m.markTerminating (now 0)).identity_markTerminated reason (now 1))
  | delete id =>
    apply follows_delete identity_mayFail (fun _ => trivial) trivial
    intro h' m _ hanswer
    exact ⟨m.identity, born_of_read hanswer, (hanswer m rfl).1⟩
  | updateUsage id usage =>
    exact follows_updateUsage identity_mayFail trivial fun _ _ => trivial

end Programs

/-- What the history says about the records in the store. -/
structure IdentityInvariant (calls : ι → ManagerOp)
    (now : Moment ι InMemoryManagedTenantStore ManagerCall ManagerCall.Answer) : Prop where
  stored : ∀ id m, now.state.get id = some m → Born now.history m.identity
  creators : ∀ i m answer, (i, ⟨.storeCreate m, answer⟩) ∈ now.history →
    (calls i).newId? = some m.tenant.id
  unique : ∀ a b, Born now.history a → Born now.history b → a.id = b.id → a = b
  removed : ∀ i id answer, (i, ⟨.storeDelete id, answer⟩) ∈ now.history →
    now.state.get id = none ∧ ∃ ident, Born now.history ident ∧ ident.id = id

theorem born_cons_iff {h : ManagerHistory ι} {x : ι × Exchange ManagerCall ManagerCall.Answer}
    (hx : ∀ i m, x ≠ (i, ⟨.storeCreate m, .ok ()⟩)) (ident : Identity) :
    Born (x :: h) ident ↔ Born h ident := by
  constructor
  · intro hborn
    obtain ⟨i, m, hmem, hm⟩ := hborn
    rcases List.mem_cons.mp hmem with hmem | hmem
    · exact absurd hmem.symm (hx i m)
    · exact ⟨i, m, hmem, hm⟩
  · intro hborn
    exact hborn.mono (List.subset_cons_self _ _)

namespace IdentityInvariant

variable {calls : ι → ManagerOp}
  {now : Moment ι InMemoryManagedTenantStore ManagerCall ManagerCall.Answer} {i : ι}

theorem unborn (hinv : IdentityInvariant calls now) (fresh : FreshCalls calls) {id : String}
    (hnew : (calls i).newId? = some id) (hfirst : NotCreated i now.history) (ident : Identity)
    (hborn : Born now.history ident) : ident.id ≠ id := by
  intro hid
  obtain ⟨j, m, hmem, rfl⟩ := hborn
  have hj := hinv.creators j m _ hmem
  have hij : j = i := fresh j i id (by rw [hj]; exact congrArg some hid) hnew
  subst hij
  exact hfirst m _ hmem

theorem keeps_quiet (hinv : IdentityInvariant calls now) {e : ManagerCall} {answer : e.Answer}
    {s' : InMemoryManagedTenantStore}
    (hcreate : ∀ m, e = .storeCreate m → (calls i).newId? = some m.tenant.id)
    (hbirth : ∀ m, (⟨e, answer⟩ : Exchange ManagerCall ManagerCall.Answer) ≠
      ⟨.storeCreate m, .ok ()⟩)
    (hdelete : ∀ id, e ≠ .storeDelete id)
    (hstored : ∀ id m, s'.get id = some m → Born now.history m.identity)
    (hnone : ∀ id, now.state.get id = none → s'.get id = none) :
    IdentityInvariant calls ⟨s', (i, ⟨e, answer⟩) :: now.history⟩ := by
  have hborn := born_cons_iff (h := now.history) (x := (i, ⟨e, answer⟩))
    fun j m heq => hbirth m (Prod.mk.inj heq).2
  constructor
  · intro id m hm
    exact (hborn _).mpr (hstored id m hm)
  · intro j m answer' hmem
    rcases List.mem_cons.mp hmem with hmem | hmem
    · cases hmem
      exact hcreate m rfl
    · exact hinv.creators j m answer' hmem
  · intro a b ha hb
    exact hinv.unique a b ((hborn a).mp ha) ((hborn b).mp hb)
  · intro j id answer' hmem
    rcases List.mem_cons.mp hmem with hmem | hmem
    · cases hmem
      exact absurd rfl (hdelete id)
    · obtain ⟨hget, ident, hident, hid⟩ := hinv.removed j id answer' hmem
      exact ⟨hnone id hget, ident, (hborn ident).mpr hident, hid⟩

theorem keeps_created (fresh : FreshCalls calls) (hinv : IdentityInvariant calls now)
    {m : ManagedTenant} (hnew : (calls i).newId? = some m.tenant.id)
    (hfirst : NotCreated i now.history) :
    IdentityInvariant calls
      ⟨now.state.put m, (i, ⟨.storeCreate m, .ok ()⟩) :: now.history⟩ := by
  have hunborn := hinv.unborn fresh hnew hfirst
  have hcases (ident : Identity) (h : Born ((i, ⟨.storeCreate m, .ok ()⟩) :: now.history) ident) :
      ident = m.identity ∨ Born now.history ident := by
    obtain ⟨j, m', hmem, rfl⟩ := h
    rcases List.mem_cons.mp hmem with hmem | hmem
    · cases hmem
      exact .inl rfl
    · exact .inr ⟨j, m', hmem, rfl⟩
  constructor
  · intro id m' hm'
    rw [get_put] at hm'
    split at hm'
    · cases hm'
      exact ⟨i, m, List.mem_cons_self, rfl⟩
    · exact (hinv.stored id m' hm').mono (List.subset_cons_self _ _)
  · intro j m' answer hmem
    rcases List.mem_cons.mp hmem with hmem | hmem
    · cases hmem
      exact hnew
    · exact hinv.creators j m' answer hmem
  · intro a b ha hb hab
    rcases hcases a ha with rfl | ha <;> rcases hcases b hb with rfl | hb
    · rfl
    · exact absurd hab.symm (hunborn b hb)
    · exact absurd hab (hunborn a ha)
    · exact hinv.unique a b ha hb hab
  · intro j id answer hmem
    rcases List.mem_cons.mp hmem with hmem | hmem
    · cases hmem
    · obtain ⟨hget, ident, hident, hid⟩ := hinv.removed j id answer hmem
      have hne : id ≠ m.tenant.id := hid ▸ hunborn ident hident
      rw [get_put, if_neg hne]
      exact ⟨hget, ident, hident.mono (List.subset_cons_self _ _), hid⟩

theorem keeps_deleted (hinv : IdentityInvariant calls now) {id : String}
    (hid : ∃ ident, Born now.history ident ∧ ident.id = id) :
    IdentityInvariant calls
      ⟨now.state.remove id, (i, ⟨.storeDelete id, .ok ()⟩) :: now.history⟩ := by
  have hborn := born_cons_iff (h := now.history)
    (x := (i, ⟨.storeDelete id, .ok ()⟩)) fun j m heq => by cases heq
  constructor
  · intro k m hm
    rw [get_remove] at hm
    split at hm
    · cases hm
    · exact (hborn _).mpr (hinv.stored k m hm)
  · intro j m answer hmem
    rcases List.mem_cons.mp hmem with hmem | hmem
    · cases hmem
    · exact hinv.creators j m answer hmem
  · intro a b ha hb
    exact hinv.unique a b ((hborn a).mp ha) ((hborn b).mp hb)
  · intro j k answer hmem
    rw [get_remove]
    rcases List.mem_cons.mp hmem with hmem | hmem
    · cases hmem
      obtain ⟨ident, hident, rfl⟩ := hid
      exact ⟨if_pos rfl, ident, (hborn ident).mpr hident, rfl⟩
    · obtain ⟨hget, ident, hident, hk⟩ := hinv.removed j k answer hmem
      refine ⟨?_, ident, (hborn ident).mpr hident, hk⟩
      split
      · rfl
      · exact hget

theorem keeps (fresh : FreshCalls calls) (hinv : IdentityInvariant calls now) {e : ManagerCall}
    {answer : e.Answer} {s' : InMemoryManagedTenantStore}
    (hallowed : (identityDiscipline calls).allowed now.history i e)
    (hstep : MemoryStep now.state e answer s') :
    IdentityInvariant calls ⟨s', (i, ⟨e, answer⟩) :: now.history⟩ := by
  have free {m r : ManagedTenant} (stored : now.state.get m.tenant.id = some r) (k : String)
      (hk : now.state.get k = none) : (now.state.put m).get k = none := by
    have hne : k ≠ m.tenant.id := by
      intro heq
      rw [heq, stored] at hk
      cases hk
    rw [get_put, if_neg hne, hk]
  have written {m : ManagedTenant} (hborn : Born now.history m.identity) (k : String)
      (r : ManagedTenant) (hr : (now.state.put m).get k = some r) :
      Born now.history r.identity := by
    rw [get_put] at hr
    split at hr
    · cases hr
      exact hborn
    · exact hinv.stored k r hr
  cases hstep with
  | created hfree => exact hinv.keeps_created fresh hallowed.1 hallowed.2.1
  | deleted => exact hinv.keeps_deleted hallowed
  | @updated m old stored =>
    exact hinv.keeps_quiet (by simp) (by simp) (by simp) (written hallowed) (free stored)
  | @usageUpdated id usage m time stored =>
    have hown := get_of_identity stored (m.identity_recordUsage time usage)
    exact hinv.keeps_quiet (by simp) (by simp) (by simp) (written (hinv.stored id m stored))
      (free hown)
  | createRefused taken =>
    refine hinv.keeps_quiet ?_ (by simp) (by simp) hinv.stored fun _ hk => hk
    intro m' heq
    cases heq
    exact hallowed.1
  | _ => exact hinv.keeps_quiet (by simp) (by simp) (by simp) hinv.stored fun _ hk => hk

theorem stored_before (hinv : IdentityInvariant calls now) {e : ManagerCall} {answer : e.Answer}
    {s' : InMemoryManagedTenantStore}
    (hallowed : (identityDiscipline calls).allowed now.history i e)
    (hstep : MemoryStep now.state e answer s') {k : String} {r : ManagedTenant}
    (hr : s'.get k = some r) :
    (⟨e, answer⟩ : Exchange ManagerCall ManagerCall.Answer) = ⟨.storeCreate r, .ok ()⟩ ∨
      ∃ old, now.state.get k = some old ∧ r.identity = old.identity := by
  cases hstep with
  | created free =>
    rw [get_put] at hr
    split at hr
    · cases hr
      exact .inl rfl
    · exact .inr ⟨r, hr, rfl⟩
  | @updated m old stored =>
    rw [get_put] at hr
    split at hr
    · next hk =>
      cases hr
      have hid : r.identity.id = old.identity.id := (id_of_get stored).symm
      exact .inr ⟨old, hk ▸ stored, hinv.unique _ _ hallowed (hinv.stored _ _ stored) hid⟩
    · exact .inr ⟨r, hr, rfl⟩
  | @usageUpdated id usage m time stored =>
    rw [get_put] at hr
    split at hr
    · next hk =>
      cases hr
      have hown := get_of_identity stored (m.identity_recordUsage time usage)
      exact .inr ⟨m, hk ▸ hown, m.identity_recordUsage time usage⟩
    · exact .inr ⟨r, hr, rfl⟩
  | deleted =>
    rw [get_remove] at hr
    split at hr
    · cases hr
    · exact .inr ⟨r, hr, rfl⟩
  | _ => exact .inr ⟨r, hr, rfl⟩

end IdentityInvariant

section Interleaved

variable [DecidableEq ι] (calls : ι → ManagerOp)

abbrev ManagerConfig (ι : Type*) :=
  Config ι InMemoryManagedTenantStore ManagerCall ManagerCall.Answer ManagerResult

/-- All calls before any of them has moved, over an empty store. -/
def managerSystem : ManagerConfig ι where
  state := .new
  history := []
  program := fun i => (calls i).program

theorem get_step_cases (cfg : ManagerConfig ι) (turn : ι × ManagerChoice) (id : String) :
    (cfg.step memory turn).state.get id = cfg.state.get id ∨
    (∃ m rest, cfg.program turn.1 = .call (.storeCreate m) rest ∧ m.tenant.id = id ∧
      cfg.state.get id = none) ∨
    (∃ m rest r, cfg.program turn.1 = .call (.storeUpdate m) rest ∧ m.tenant.id = id ∧
      cfg.state.get id = some r ∧ (cfg.step memory turn).state.get id = some m) ∨
    (cfg.step memory turn).state.get id = none ∨
    ∃ usage r now, cfg.state.get id = some r ∧
      (cfg.step memory turn).state.get id = some (r.recordUsage usage now) := by
  rcases cfg.step_cases memory turn with heq | ⟨e, rest, answer, s, hp, hanswer, heq⟩
  · rw [heq]
    exact .inl rfl
  · rw [heq]
    rcases (memory_step hanswer).get_cases id with hsame | ⟨m, rfl, hid, hnone, -⟩ |
      ⟨m, r, rfl, hid, hr, hm⟩ | ⟨-, hgone⟩ | ⟨usage, r, now, -, hr, husage⟩
    · exact .inl hsame
    · exact .inr (.inl ⟨m, rest, hp, hid, hnone⟩)
    · exact .inr (.inr (.inl ⟨m, rest, r, hp, hid, hr, hm⟩))
    · exact .inr (.inr (.inr (.inl hgone)))
    · exact .inr (.inr (.inr (.inr ⟨usage, r, now, hr, husage⟩)))

theorem get_step_update {cfg : ManagerConfig ι} {turn : ι × ManagerChoice} {m r : ManagedTenant}
    {rest : Except TenantError Unit → ManagerProgram ManagerResult}
    (hp : cfg.program turn.1 = .call (.storeUpdate m) rest)
    (stored : cfg.state.get m.tenant.id = some r) :
    (cfg.step memory turn).state.get m.tenant.id = some m := by
  obtain ⟨answer, s, hanswer⟩ := memory_answers turn.2 cfg.state (.storeUpdate m)
  rw [cfg.step_call memory hp hanswer]
  cases memory_step hanswer with
  | updated => exact get_put_self _ _
  | updateRefused missing =>
    rw [missing] at stored
    cases stored

/-- The records in the store and all calls still to be made go by the identities
the records were created with. -/
def IdentityHolds (cfg : ManagerConfig ι) : Prop :=
  IdentityInvariant calls cfg.toMoment ∧
    ∀ i, (cfg.program i).Follows (identityDiscipline calls) i cfg.history

variable {calls}

theorem IdentityHolds.run (fresh : FreshCalls calls) {cfg : ManagerConfig ι}
    (holds : IdentityHolds calls cfg) (schedule : List (ι × ManagerChoice)) :
    IdentityHolds calls (cfg.run memory schedule) := by
  refine Config.run_follows ?_ holds.1 holds.2 schedule
  intro c now i e answer s' hinv hallowed hstep
  have hmem := memory_step hstep
  refine ⟨?_, hinv.keeps fresh hallowed hmem⟩
  cases hmem with
  | @read id =>
    intro m hm
    have hget : now.state.get id = some m := Except.ok.inj hm
    exact ⟨id_of_get hget, hinv.stored id m hget⟩
  | _ => trivial

theorem managerSystem_identity (fresh : FreshCalls calls) (schedule : List (ι × ManagerChoice)) :
    IdentityHolds calls ((managerSystem calls).run memory schedule) := by
  apply IdentityHolds.run fresh
  constructor
  · constructor
    · intro id m hm
      cases hm
    · intro i m answer hmem
      cases hmem
    · intro a b ha
      obtain ⟨i, m, hmem, -⟩ := ha
      cases hmem
    · intro i id answer hmem
      cases hmem
  · intro i
    apply ManagerOp.program_follows (calls i) rfl
    intro m answer hmem
    cases hmem

section Runs

variable {cfg : ManagerConfig ι} {ident : Identity}

theorem Born.run (hborn : Born cfg.history ident) (schedule : List (ι × ManagerChoice)) :
    Born (cfg.run memory schedule).history ident :=
  hborn.mono (cfg.history_suffix memory schedule).subset

/-- An id that was used and has no record gets none: no insertion uses it again,
and no write puts back a record that is not there. -/
theorem unused_step (fresh : FreshCalls calls) (holds : IdentityHolds calls cfg)
    (hborn : Born cfg.history ident) (hget : cfg.state.get ident.id = none)
    (turn : ι × ManagerChoice) : (cfg.step memory turn).state.get ident.id = none := by
  rcases get_step_cases cfg turn ident.id with hsame | ⟨m, rest, hp, hid, -⟩ |
    ⟨m, rest, r, -, -, hr, -⟩ | hgone | ⟨usage, r, time, hr, -⟩
  · rw [hsame, hget]
  · have hfollow := holds.2 turn.1
    rw [hp] at hfollow
    obtain ⟨hnew, hfirst, -⟩ := hfollow.1
    exact absurd hid.symm (holds.1.unborn fresh hnew hfirst ident hborn)
  · rw [hget] at hr
    cases hr
  · exact hgone
  · rw [hget] at hr
    cases hr

theorem unused_run (fresh : FreshCalls calls) (holds : IdentityHolds calls cfg)
    (hborn : Born cfg.history ident) (hget : cfg.state.get ident.id = none)
    (schedule : List (ι × ManagerChoice)) :
    (cfg.run memory schedule).state.get ident.id = none := by
  refine Config.run_invariant memory cfg (P := fun cfg => cfg.state.get ident.id = none)
    (G := fun cfg => IdentityHolds calls cfg ∧ Born cfg.history ident) ?_ hget ?_ schedule
  · intro schedule
    exact ⟨holds.run fresh schedule, hborn.run schedule⟩
  · intro cfg turn hinv hnone
    exact unused_step fresh hinv.1 hinv.2 hnone turn

theorem identity_run (fresh : FreshCalls calls) (holds : IdentityHolds calls cfg) {k : String}
    {m m' : ManagedTenant} (hm : cfg.state.get k = some m) (schedule : List (ι × ManagerChoice))
    (hm' : (cfg.run memory schedule).state.get k = some m') : m'.identity = m.identity := by
  have hafter := (holds.run fresh schedule).1
  have hborn : Born (cfg.run memory schedule).history m.identity :=
    (holds.1.stored k m hm).run schedule
  exact hafter.unique _ _ (hafter.stored k m' hm') hborn ((id_of_get hm').trans (id_of_get hm).symm)

end Runs

/-- In every interleaving of manager calls with fresh ids, a key holds a record
of its own id, which keeps its slug, owner, creation time, schema and database;
and once the record is gone, no call puts the key back. -/
theorem record_identity_stable (fresh : FreshCalls calls)
    {before later further : List (ι × ManagerChoice)} (first : before <+: later)
    (second : later <+: further) (k : String) :
    (∀ m, ((managerSystem calls).run memory before).state.tenants.lookup k = some m →
      m.tenant.id = k) ∧
    (∀ m m', ((managerSystem calls).run memory before).state.get k = some m →
      ((managerSystem calls).run memory later).state.get k = some m' →
      m'.tenant.name = m.tenant.name ∧ m'.ownerId = m.ownerId ∧ m'.createdAt = m.createdAt ∧
        m'.tenant.schema = m.tenant.schema ∧ m'.tenant.database = m.tenant.database) ∧
    (((managerSystem calls).run memory before).state.get k ≠ none →
      ((managerSystem calls).run memory later).state.get k = none →
      ((managerSystem calls).run memory further).state.get k = none) := by
  obtain ⟨middle, rfl⟩ := first
  obtain ⟨rest, rfl⟩ := second
  have hbefore := managerSystem_identity fresh before
  refine ⟨fun m hm => id_of_get hm, ?_, ?_⟩
  · intro m m' hm hm'
    rw [Config.run_append] at hm'
    have hsame := identity_run fresh hbefore hm middle hm'
    exact ⟨congrArg Identity.slug hsame, congrArg Identity.ownerId hsame,
      congrArg Identity.createdAt hsame, congrArg Identity.schema hsame,
      congrArg Identity.database hsame⟩
  · intro hsome hnone
    obtain ⟨m, hm⟩ := Option.ne_none_iff_exists'.mp hsome
    have hborn := (hbefore.1.stored k m hm).run middle
    rw [← Config.run_append] at hborn
    rw [← id_of_get hm] at hnone ⊢
    rw [Config.run_append]
    exact unused_run fresh (managerSystem_identity fresh _) hborn hnone rest

end Interleaved

def updateWhileDeleting : Fin 4 → ManagerOp :=
  ![.create "t-1" (fun _ => 0) (.new "acme"), .update "t-1" (fun _ => 1) .new,
    .terminate "t-1" "closing" (fun _ => 2), .delete "t-1"]

theorem updateWhileDeleting_fresh : FreshCalls updateWhileDeleting := by
  intro i j id hi hj
  match i, j with
  | 0, 0 => rfl
  | 0, 1 => cases hj
  | 0, 2 => cases hj
  | 0, 3 => cases hj
  | 1, _ => cases hi
  | 2, _ => cases hi
  | 3, _ => cases hi

theorem record_identity_stable_deleted :
    let created : List (Fin 4 × ManagerChoice) :=
      [(0, default), (0, default), (0, default), (0, default), (1, default)]
    let deleted : List (Fin 4 × ManagerChoice) := created ++ [(2, default), (2, default),
      (2, default), (2, default), (3, default), (3, default)]
    let written : List (Fin 4 × ManagerChoice) := deleted ++ [(1, default)]
    ((managerSystem updateWhileDeleting).run memory written).state.get "t-1" = none :=
  (record_identity_stable updateWhileDeleting_fresh (List.prefix_append _ _)
    (List.prefix_append _ _) "t-1").2.2 (by rintro ⟨⟩) rfl

end ArmatureTenancy

import ArmatureTenancy.Management.Queries

/-!
# Limits and usage over sequential runs

Usage and limits of a record are written by different operations: usage by
`update_usage`, limits by `create` and by those updates that name a plan or
limits of their own. Every other operation writes the whole record back with
both as they were, so what `check_limits` reports is a function of the last
successful operation of either kind.
-/

namespace ArmatureTenancy

open Foundations InMemoryManagedTenantStore

inductive LimitDimension where
  | users
  | storage
  | apiRequests
  | connections
  deriving DecidableEq

namespace LimitDimension

def all : List LimitDimension := [.users, .storage, .apiRequests, .connections]

def used (usage : TenantUsage) : LimitDimension → ℕ
  | .users => usage.users.toNat
  | .storage => usage.storageBytes.toNat
  | .apiRequests => usage.apiRequests.toNat
  | .connections => usage.activeConnections.toNat

def limit (limits : TenantLimits) : LimitDimension → Option ℕ
  | .users => limits.maxUsers.map UInt32.toNat
  | .storage => limits.maxStorageBytes.map UInt64.toNat
  | .apiRequests => limits.maxApiRequests.map UInt64.toNat
  | .connections => limits.maxConnections.map UInt32.toNat

def label : LimitDimension → String
  | .users => "Users"
  | .storage => "Storage"
  | .apiRequests => "API Requests"
  | .connections => "Connections"

def unit : LimitDimension → String
  | .storage => " bytes"
  | _ => ""

def Exceeded (usage : TenantUsage) (limits : TenantLimits) (d : LimitDimension) : Prop :=
  ∃ max ∈ d.limit limits, max < d.used usage

instance (usage : TenantUsage) (limits : TenantLimits) : DecidablePred (Exceeded usage limits) :=
  fun d => inferInstanceAs (Decidable (∃ max ∈ d.limit limits, max < d.used usage))

def report (usage : TenantUsage) (limits : TenantLimits) (d : LimitDimension) : String :=
  d.label ++ ": " ++ toString (d.used usage) ++ " / " ++ toString ((d.limit limits).getD 0) ++
    d.unit

end LimitDimension

namespace TenantUsage

open LimitDimension

theorem pushExceeded_report {α : Type} [LT α] [DecidableLT α] [ToString α] (toNat : α → ℕ)
    (hlt : ∀ a b : α, a < b ↔ toNat a < toNat b) (htext : ∀ a : α, toString a = toString (toNat a))
    (usage : TenantUsage) (limits : TenantLimits) (d : LimitDimension) {used : α}
    {limit : Option α} (hused : d.used usage = toNat used)
    (hlimit : d.limit limits = limit.map toNat) (before : List LimitDimension) :
    pushExceeded d.label d.unit used limit
        ((before.filter fun d => d.Exceeded usage limits).map (report usage limits)) =
      ((before ++ [d]).filter fun d => d.Exceeded usage limits).map (report usage limits) := by
  rw [List.filter_append, List.map_append]
  cases limit with
  | none => simp [pushExceeded, Exceeded, hlimit]
  | some max =>
    by_cases h : used > max
    · have hexceeded : d.Exceeded usage limits := ⟨toNat max, by simp [hlimit], by
        rw [hused]; exact (hlt _ _).mp h⟩
      simp [pushExceeded, h, hexceeded, report, hused, hlimit, htext]
    · have hwithin : ¬ d.Exceeded usage limits := by
        rintro ⟨max', hmax', hless⟩
        simp only [hlimit, Option.map_some, Option.mem_some_iff] at hmax'
        rw [← hmax', hused] at hless
        exact h ((hlt _ _).mpr hless)
      simp [pushExceeded, h, hwithin]

theorem exceedsLimits_eq (usage : TenantUsage) (limits : TenantLimits) :
    usage.exceedsLimits limits =
      (LimitDimension.all.filter fun d => d.Exceeded usage limits).map (report usage limits) := by
  have husers := pushExceeded_report UInt32.toNat (fun _ _ => Iff.rfl) (fun _ => rfl) usage limits
    .users rfl rfl []
  have hstorage := pushExceeded_report UInt64.toNat (fun _ _ => Iff.rfl) (fun _ => rfl) usage limits
    .storage rfl rfl [.users]
  have hapi := pushExceeded_report UInt64.toNat (fun _ _ => Iff.rfl) (fun _ => rfl) usage limits
    .apiRequests rfl rfl [.users, .storage]
  have hconnections := pushExceeded_report UInt32.toNat (fun _ _ => Iff.rfl) (fun _ => rfl) usage
    limits .connections rfl rfl [.users, .storage, .apiRequests]
  simp only [List.filter_nil, List.map_nil, List.nil_append] at husers
  simp only [List.cons_append, List.nil_append] at hstorage hapi hconnections
  change pushExceeded (label .connections) (unit .connections) _ _
    (pushExceeded (label .apiRequests) (unit .apiRequests) _ _
      (pushExceeded (label .storage) (unit .storage) _ _
        (pushExceeded (label .users) (unit .users) _ _ _))) = _
  rw [husers, hstorage, hapi, hconnections]
  rfl

end TenantUsage

/-- The limits an update sets: its own, or those of the plan it names. -/
def UpdateTenantRequest.setsLimits (request : UpdateTenantRequest) : Option TenantLimits :=
  request.limits.or (request.plan.map TenantLimits.forPlan)

namespace ManagerOp

/-- The limits an operation sets when it succeeds. -/
def setsLimits : ManagerOp → Option TenantLimits
  | .create _ _ request => some (request.customLimits.getD (TenantLimits.forPlan request.plan))
  | .update _ _ request => request.setsLimits
  | _ => none

/-- The usage an operation sets when it succeeds; a new record has used nothing. -/
def setsUsage : ManagerOp → Option TenantUsage
  | .create .. => some .default
  | .updateUsage _ usage => some usage
  | _ => none

def reportsUsage : ManagerOp → Option TenantUsage
  | .updateUsage _ usage => some usage
  | _ => none

/-- Operations that are to leave usage and limits alone. -/
def Neutral : ManagerOp → Prop
  | .suspend .. | .activate .. | .terminate .. => True
  | .update _ _ request => request.plan = none ∧ request.limits = none
  | _ => False

end ManagerOp

def TenantUsage.counts (usage : TenantUsage) : TenantUsage := { usage with lastUpdated := none }

theorem ManagedTenant.limits_apply (m : ManagedTenant) (request : UpdateTenantRequest)
    (now : DateTime) : (m.apply request now).limits = request.setsLimits.getD m.limits := by
  unfold apply UpdateTenantRequest.setsLimits
  cases request.limits <;> cases request.plan <;> rfl

namespace Effect

variable {s s' : InMemoryManagedTenantStore} {op : ManagerOp} {events : List ProvisionerEvent}
  {a : ManagerResult}

/-- What an operation makes of the usage and the limits of its record: on success
it sets those it names, and otherwise both are as they were. -/
theorem quotas (h : Effect s op events a s') {m' : ManagedTenant}
    (hm' : s'.get op.target = some m') :
    some m'.limits = (if a.isOk then op.setsLimits else none).or
        ((s.get op.target).map ManagedTenant.limits) ∧
      some m'.usage.counts = ((if a.isOk then op.setsUsage else none).map TenantUsage.counts).or
        ((s.get op.target).map fun m => m.usage.counts) := by
  have written {m u : ManagedTenant} {id : String} (stored : s.get id = some m)
      (hput : (s.put u).get id = some m') (same : u.identity = m.identity) : m' = u :=
    Option.some.inj (hput.symm.trans (get_put_of_identity stored same))
  have kept {m u : ManagedTenant} {id : String} (stored : s.get id = some m)
      (hput : (s.put u).get id = some m') (same : u.identity = m.identity)
      (hlimits : u.limits = m.limits) (husage : u.usage = m.usage) :
      some m'.limits = (none : Option TenantLimits).or ((s.get id).map ManagedTenant.limits) ∧
        some m'.usage.counts = (none : Option TenantUsage).or
          ((s.get id).map fun m => m.usage.counts) := by
    obtain rfl := written stored hput same
    rw [stored, hlimits, husage]
    exact ⟨rfl, rfl⟩
  cases h with
  | @created newV4 now request slug fresh =>
    have same := (request.managed newV4 (now 0)).identity_markProvisioned (now 1)
    rw [get_put_put s same, ManagerOp.target, get_put, ManagedTenant.id_eq_of_identity same,
      request.managed_id, if_pos rfl] at hm'
    cases hm'
    exact ⟨rfl, rfl⟩
  | @provisionFailed newV4 now request e slug fresh =>
    rw [ManagerOp.target, get_remove, if_pos rfl] at hm'
    cases hm'
  | @updated id now request m stored =>
    obtain rfl := written stored hm' rfl
    rw [ManagerOp.target, stored, ManagedTenant.limits_apply]
    refine ⟨?_, rfl⟩
    cases hset : request.setsLimits <;>
      simp [Except.isOk, Except.toBool, ManagerOp.setsLimits, hset]
  | suspended stored guard => exact kept stored hm' rfl rfl rfl
  | activated stored guard => exact kept stored hm' rfl rfl rfl
  | deprovisionFailed stored guard => exact kept stored hm' rfl rfl rfl
  | @terminated id reason now m stored guard =>
    rw [get_put_put s ((m.markTerminating (now 0)).identity_markTerminated reason (now 1))] at hm'
    exact kept stored hm' rfl rfl rfl
  | @deleted id m stored terminated =>
    rw [ManagerOp.target, get_remove, if_pos rfl] at hm'
    cases hm'
  | usageUpdated stored =>
    obtain rfl := written stored hm' rfl
    rw [ManagerOp.target, stored]
    exact ⟨rfl, rfl⟩
  | deleteMissing missing =>
    rw [ManagerOp.target, missing] at hm'
    cases hm'
  | _ =>
    rw [hm']
    exact ⟨rfl, rfl⟩

theorem quotas_unchanged (h : Effect s op events a s') (hop : op.Neutral ∨ ∃ e, a = .error e)
    (k : String) :
    (s'.get k).map (fun m => (m.usage, m.limits)) = (s.get k).map fun m => (m.usage, m.limits) := by
  by_cases hk : k = op.target
  · subst hk
    have written {u m : ManagedTenant} {id : String} (stored : s.get id = some m)
        (same : u.identity = m.identity) (husage : u.usage = m.usage)
        (hlimits : u.limits = m.limits) :
        ((s.put u).get id).map (fun m => (m.usage, m.limits)) =
          (s.get id).map fun m => (m.usage, m.limits) := by
      rw [get_put_of_identity stored same, stored, Option.map_some, Option.map_some, husage,
        hlimits]
    cases h with
    | created slug fresh => simp [ManagerOp.Neutral] at hop
    | @provisionFailed newV4 now request e slug fresh =>
      rw [ManagerOp.target, get_put_remove fresh (request.managed_id newV4 (now 0))]
    | @updated id now request m stored =>
      obtain ⟨hplan, hlimits⟩ : request.plan = none ∧ request.limits = none := by
        simpa [ManagerOp.Neutral] using hop
      refine written stored rfl rfl ?_
      simp [ManagedTenant.limits_apply, UpdateTenantRequest.setsLimits, hplan, hlimits]
    | suspended stored guard => exact written stored rfl rfl rfl
    | activated stored guard => exact written stored rfl rfl rfl
    | deprovisionFailed stored guard => exact written stored rfl rfl rfl
    | @terminated id reason now m stored guard =>
      rw [get_put_put s ((m.markTerminating (now 0)).identity_markTerminated reason (now 1))]
      exact written stored rfl rfl rfl
    | deleted stored terminated => simp [ManagerOp.Neutral] at hop
    | usageUpdated stored => simp [ManagerOp.Neutral] at hop
    | _ => rfl
  · rw [h.frame hk]

end Effect

/-- What the last successful operation on the id that sets a value set it to; the
most recent operation comes first. -/
def lastValueSet {β : Type} (sets : ManagerOp → Option β) (id : String) (past : List ManagerDone) :
    Option β :=
  past.findSome? fun done => if done.op.target = id ∧ done.result.isOk then sets done.op else none

section Runs

variable {β : Type} {sets : ManagerOp → Option β} {id : String} {done : ManagerDone}
  {past : List ManagerDone} {s : InMemoryManagedTenantStore}

theorem lastValueSet_cons (sets : ManagerOp → Option β) (id : String) (done : ManagerDone)
    (past : List ManagerDone) : lastValueSet sets id (done :: past) =
      (if done.op.target = id ∧ done.result.isOk then sets done.op else none).or
        (lastValueSet sets id past) := by
  rw [lastValueSet, List.findSome?_cons]
  cases (if done.op.target = id ∧ done.result.isOk then sets done.op else none) <;> rfl

theorem lastValueSet_cons_other (hid : id ≠ done.op.target) :
    lastValueSet sets id (done :: past) = lastValueSet sets id past := by
  rw [lastValueSet_cons, if_neg fun h => hid h.1.symm]
  rfl

theorem lastValueSet_cons_target (sets : ManagerOp → Option β) (done : ManagerDone)
    (past : List ManagerDone) :
    lastValueSet sets done.op.target (done :: past) =
      (if done.result.isOk then sets done.op else none).or
        (lastValueSet sets done.op.target past) := by
  rw [lastValueSet_cons]
  simp only [true_and]

theorem quotas_of_run (run : ManagerRun past s) {m : ManagedTenant} (stored : s.get id = some m) :
    lastValueSet ManagerOp.setsLimits id past = some m.limits ∧
      (lastValueSet ManagerOp.setsUsage id past).map TenantUsage.counts = some m.usage.counts := by
  induction run generalizing m with
  | nil => cases stored
  | @step past op s s' log a earlier runs ih =>
    have heffect := effect_of_runs runs
    by_cases hid : id = op.target
    · subst hid
      have carry {γ : Type} {set last : Option γ} {read : ManagedTenant → γ} {v : γ}
          (hv : some v = set.or ((s.get op.target).map read))
          (hlast : ∀ r, s.get op.target = some r → last = some (read r)) :
          set.or last = some v := by
        cases set with
        | some value => exact hv.symm
        | none =>
          obtain ⟨r, hr, rfl⟩ := Option.map_eq_some_iff.mp hv.symm
          exact hlast r hr
      obtain ⟨hlimits, husage⟩ := heffect.quotas stored
      have hcons {β : Type} (sets : ManagerOp → Option β) :=
        lastValueSet_cons_target sets ⟨op, s, log, a, s'⟩ past
      constructor
      · rw [hcons]
        exact carry hlimits fun r hr => (ih hr).1
      · rw [hcons, Option.map_or]
        exact carry husage fun r hr => (ih hr).2
    · rw [lastValueSet_cons_other hid, lastValueSet_cons_other hid]
      exact ih ((heffect.frame hid).symm.trans stored)

theorem lastValueSet_reportsUsage_unseen (run : ManagerRun past s) (hid : id ∉ newIds past) :
    lastValueSet ManagerOp.reportsUsage id past = none := by
  induction run with
  | nil => rfl
  | @step past op s s' log a earlier runs ih =>
    rw [newIds_cons, List.mem_append, not_or] at hid
    have hearlier := ih hid.2
    by_cases htarget : id = op.target
    · subst htarget
      have hget := get_of_notMem_newIds earlier hid.2
      rw [lastValueSet_cons_target _ ⟨op, s, log, a, s'⟩, hearlier, Option.or_none]
      have heffect := effect_of_runs runs
      generalize provisionerEvents log = events at heffect
      cases heffect with
      | usageUpdated stored =>
        rw [ManagerOp.target, stored] at hget
        cases hget
      | _ => rfl
    · rw [lastValueSet_cons_other htarget]
      exact hearlier

theorem lastValueSet_setsUsage_of_fresh (run : ManagerRun past s) (fresh : FreshIds past)
    {usage : TenantUsage} (hset : lastValueSet ManagerOp.setsUsage id past = some usage) :
    usage = (lastValueSet ManagerOp.reportsUsage id past).getD .default := by
  induction run with
  | nil => cases hset
  | @step past op s s' log a earlier runs ih =>
    unfold FreshIds at fresh
    rw [newIds_cons] at fresh
    by_cases hid : id = op.target
    · subst hid
      rw [lastValueSet_cons_target _ ⟨op, s, log, a, s'⟩] at hset ⊢
      cases hok : a.isOk with
      | false =>
        rw [hok] at hset
        exact ih fresh.of_append_right hset
      | true =>
        simp only [hok, if_true] at hset ⊢
        cases op with
        | create newV4 now request =>
          have hunseen : newV4 ∉ newIds past := (List.nodup_cons.mp fresh).1
          rw [ManagerOp.target, lastValueSet_reportsUsage_unseen earlier hunseen]
          exact (Option.some.inj hset).symm
        | updateUsage k reported => exact (Option.some.inj hset).symm
        | _ => exact ih fresh.of_append_right hset
    · rw [lastValueSet_cons_other hid] at hset ⊢
      exact ih fresh.of_append_right hset

theorem getUsage_of_run (run : ManagerRun past s) {m : ManagedTenant} (stored : s.get id = some m)
    {s' : InMemoryManagedTenantStore} {log : List (Exchange ManagerCall ManagerCall.Answer)}
    {a : Except TenantError TenantUsage}
    (runs : (TenantManager.getUsage id).run.Runs memory s log a s') :
    ∃ returned usage, a = .ok returned ∧ lastValueSet ManagerOp.setsUsage id past = some usage ∧
      returned.counts = usage.counts := by
  obtain ⟨usage, hset, hcounts⟩ := Option.map_eq_some_iff.mp (quotas_of_run run stored).2
  obtain ⟨-, ⟨hnone, -⟩ | ⟨m', hm', rfl⟩⟩ := runs_read runs
  · rw [stored] at hnone
    cases hnone
  · rw [stored] at hm'
    cases hm'
    exact ⟨m.usage, usage, rfl, hset, hcounts.symm⟩

end Runs

/-- After every sequential run, `check_limits` reports of a stored id exactly the
dimensions in which the usage last set exceeds the limits last set. A creation
sets no usage, so with fresh ids that is the usage last reported. Operations that
fail, change the status only, or update neither plan nor limits leave usage and
limits of every record as they were. -/
theorem check_limits_follow_history {past : List ManagerDone} {s s' : InMemoryManagedTenantStore}
    (run : ManagerRun past s) {id : String} {m : ManagedTenant} (stored : s.get id = some m)
    {log : List (Exchange ManagerCall ManagerCall.Answer)} {a : Except TenantError (List String)}
    (runs : (TenantManager.checkLimits id).run.Runs memory s log a s') :
    (∃ limits usage, lastValueSet ManagerOp.setsLimits id past = some limits ∧
      lastValueSet ManagerOp.setsUsage id past = some usage ∧
      (FreshIds past → usage = (lastValueSet ManagerOp.reportsUsage id past).getD .default) ∧
      a = .ok ((LimitDimension.all.filter fun d => d.Exceeded usage limits).map
        (LimitDimension.report usage limits)) ∧ s' = s) ∧
    ∀ (op : ManagerOp) (log : List (Exchange ManagerCall ManagerCall.Answer)) (a : ManagerResult)
      (s' : InMemoryManagedTenantStore), op.program.Runs memory s log a s' →
      (op.Neutral ∨ ∃ e, a = .error e) → ∀ k,
        (s'.get k).map (fun m => (m.usage, m.limits)) =
          (s.get k).map fun m => (m.usage, m.limits) := by
  constructor
  · obtain ⟨hlimits, husage⟩ := quotas_of_run run stored
    obtain ⟨usage, hset, hcounts⟩ := Option.map_eq_some_iff.mp husage
    refine ⟨m.limits, usage, hlimits, hset,
      fun fresh => lastValueSet_setsUsage_of_fresh run fresh hset, ?_⟩
    obtain ⟨rfl, ⟨hnone, -⟩ | ⟨m', hm', rfl⟩⟩ := runs_read runs
    · rw [stored] at hnone
      cases hnone
    · rw [stored] at hm'
      cases hm'
      have hcount (u : TenantUsage) : u.counts.exceedsLimits m.limits = u.exceedsLimits m.limits :=
        rfl
      rw [ManagedTenant.getViolations, ← TenantUsage.exceedsLimits_eq, ← hcount usage, hcounts,
        hcount]
      exact ⟨rfl, rfl⟩
  · intro op log a s' hrun hop k
    exact (effect_of_runs hrun).quotas_unchanged hop k

def sixUsers : List (ManagerOp × List ManagerChoice) :=
  [(.create "t-1" (fun _ => 0) (.new "acme"), [default, default, default, default]),
    (.updateUsage "t-1" { TenantUsage.default with users := 6 }, [default]),
    (.suspend "t-1" "too many users" (fun _ => 1), [default, default, default])]

theorem check_limits_follow_history_sixUsers :
    ∃ past s log a, sequence memory ManagerOp.program sixUsers [] .new = some (past, s) ∧
      (TenantManager.checkLimits "t-1").run.Runs memory s log a s ∧ a = .ok ["Users: 6 / 5"] ∧
      ∃ limits usage, lastValueSet ManagerOp.setsLimits "t-1" past = some limits ∧
        usage = (lastValueSet ManagerOp.reportsUsage "t-1" past).getD .default ∧
        a = .ok ((LimitDimension.all.filter fun d => d.Exceeded usage limits).map
          (LimitDimension.report usage limits)) := by
  refine ⟨_, _, _, _, rfl, .call (c := default) rfl (.pure _ _), rfl, ?_⟩
  have hrun : ManagerRun _ _ := sequential_of_sequence .nil
    (rfl : sequence memory ManagerOp.program sixUsers [] .new = some _)
  obtain ⟨limits, usage, hlimits, -, husage, ha, -⟩ :=
    (@check_limits_follow_history _ _ _ hrun "t-1" _ rfl _ _
      (.call (c := default) rfl (.pure _ _))).1
  exact ⟨limits, usage, hlimits, husage (by decide), ha⟩

end ArmatureTenancy

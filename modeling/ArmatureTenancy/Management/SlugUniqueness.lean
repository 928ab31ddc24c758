import ArmatureTenancy.Management.Identity
import Mathlib.Data.Fin.VecNotation

/-!
# Unique slugs under interleaving

A creation looks its slug up in one step and inserts its record in a later one.
Nothing else can put a slug into the store, and a slug once there stays with its
record. A record of the slug that the insertion finds must have been inserted since
the lookup, so slugs are unique exactly as long as no other insertion comes between.
-/

namespace ArmatureTenancy

open Foundations InMemoryManagedTenantStore

/-- No two ids have records of one slug. -/
def SlugsUnique (s : InMemoryManagedTenantStore) : Prop :=
  ∀ a b ra rb, s.get a = some ra → s.get b = some rb → ra.tenant.name = rb.tenant.name → a = b

def SlugFree (s : InMemoryManagedTenantStore) (slug : String) : Prop :=
  ∀ k r, s.get k = some r → r.tenant.name ≠ slug

section Store

variable {s : InMemoryManagedTenantStore} {m old : ManagedTenant}

theorem SlugsUnique.put_iff (h : SlugsUnique s) (free : s.get m.tenant.id = none) :
    SlugsUnique (s.put m) ↔ SlugFree s m.tenant.name := by
  have hkept {k : String} {r : ManagedTenant} (hr : s.get k = some r) :
      k ≠ m.tenant.id ∧ (s.put m).get k = some r := by
    have hne : k ≠ m.tenant.id := by
      intro heq
      rw [heq, free] at hr
      cases hr
    exact ⟨hne, by rw [get_put, if_neg hne, hr]⟩
  constructor
  · intro hput k r hr hslug
    obtain ⟨hne, hget⟩ := hkept hr
    exact hne (hput k m.tenant.id r m hget (get_put_self s m) hslug)
  · intro hfree a b ra rb ha hb hslug
    rw [get_put] at ha hb
    split at ha <;> split at hb
    · next hka hkb => rw [hka, hkb]
    · cases ha
      exact absurd hslug.symm (hfree b rb hb)
    · cases hb
      exact absurd hslug (hfree a ra ha)
    · exact h a b ra rb ha hb hslug

theorem SlugsUnique.put (h : SlugsUnique s) (stored : s.get m.tenant.id = some old)
    (slug : m.tenant.name = old.tenant.name) : SlugsUnique (s.put m) := by
  have hslug {k : String} {r : ManagedTenant} (hr : (s.put m).get k = some r) :
      ∃ r', s.get k = some r' ∧ r'.tenant.name = r.tenant.name := by
    rw [get_put] at hr
    split at hr
    · next hk =>
      cases hr
      exact ⟨old, by rw [hk]; exact stored, slug.symm⟩
    · exact ⟨r, hr, rfl⟩
  intro a b ra rb ha hb hab
  obtain ⟨ra', ha', hra⟩ := hslug ha
  obtain ⟨rb', hb', hrb⟩ := hslug hb
  exact h a b ra' rb' ha' hb' (by rw [hra, hrb, hab])

theorem SlugsUnique.remove (h : SlugsUnique s) (id : String) : SlugsUnique (s.remove id) := by
  intro a b ra rb ha hb hab
  rw [get_remove] at ha hb
  split at ha
  · cases ha
  · split at hb
    · cases hb
    · exact h a b ra rb ha hb hab

end Store

section Interleaved

variable {ι : Type*} [DecidableEq ι] {calls : ι → ManagerOp}

/-- If the program's next call is an insertion, its slug is free. -/
def InsertsFreeSlug (cfg : ManagerConfig ι) (turn : ι × ManagerChoice) : Prop :=
  ∀ m rest, cfg.program turn.1 = .call (.storeCreate m) rest → SlugFree cfg.state m.tenant.name

/-- One turn keeps slugs unique exactly if it does not insert a taken slug. -/
theorem slugsUnique_step_iff (fresh : FreshCalls calls) {cfg : ManagerConfig ι}
    (hidentity : IdentityHolds calls cfg) (hunique : SlugsUnique cfg.state)
    (turn : ι × ManagerChoice) :
    SlugsUnique (cfg.step memory turn).state ↔ InsertsFreeSlug cfg turn := by
  obtain ⟨hinv, hfollows⟩ := hidentity
  have hfollow := hfollows turn.1
  unfold InsertsFreeSlug
  cases hp : cfg.program turn.1 with
  | pure a =>
    rw [cfg.step_pure memory hp]
    exact iff_of_true hunique (by simp)
  | call e rest =>
    rw [hp] at hfollow
    obtain ⟨answer, s, hanswer⟩ := memory_answers turn.2 cfg.state e
    rw [cfg.step_call memory hp hanswer]
    have hquiet (hkeeps : SlugsUnique s) (hcall : ∀ m, e ≠ .storeCreate m) :
        SlugsUnique (cfg.advance turn.1 e answer s (rest answer)).state ↔
          ∀ m rest', Program.call e rest = .call (.storeCreate m) rest' →
            SlugFree cfg.state m.tenant.name := by
      refine iff_of_true hkeeps ?_
      intro m rest' heq
      exact absurd (Program.call.inj heq).1 (hcall m)
    cases memory_step hanswer with
    | @created m free =>
      have hput := hunique.put_iff free
      refine hput.trans ⟨fun hfree m' rest' heq => ?_, fun hall => hall m rest rfl⟩
      cases heq
      exact hfree
    | @createRefused m err taken =>
      obtain ⟨hnew, hfirst, -⟩ := hfollow.1
      obtain ⟨r, hr⟩ := Option.ne_none_iff_exists'.mp taken
      have hid : r.identity.id = m.tenant.id := id_of_get hr
      exact absurd hid (hinv.unborn fresh hnew hfirst _ (hinv.stored _ r hr))
    | @updated m old stored =>
      have hborn : Born cfg.history m.identity := hfollow.1
      have hsame := hinv.unique _ _ hborn (hinv.stored _ _ stored) (id_of_get stored).symm
      exact hquiet (hunique.put stored (ManagedTenant.slug_eq_of_identity hsame)) (by simp)
    | deleted => exact hquiet (hunique.remove _) (by simp)
    | @usageUpdated id usage m time stored =>
      have hown := get_of_identity stored (m.identity_recordUsage time usage)
      exact hquiet (hunique.put hown rfl) (by simp)
    | _ => exact hquiet hunique (by simp)

/-- The records of the slug that were inserted since call `i` looked the slug up are not stored
any more. -/
def NoneInsertedSinceLookup (cfg : ManagerConfig ι) (i : ι) (slug : String) : Prop :=
  ∀ later earlier answer, cfg.history = later ++ (i, ⟨.storeGetBySlug slug, answer⟩) :: earlier →
    ∀ j r, (j, ⟨.storeCreate r, .ok ()⟩) ∈ later → r.tenant.name = slug →
      cfg.state.get r.tenant.id = none

/-- If the program's next call is an insertion, no stored record of its slug was inserted since
its own lookup. -/
def InsertsUnraced (cfg : ManagerConfig ι) (turn : ι × ManagerChoice) : Prop :=
  ∀ m rest, cfg.program turn.1 = .call (.storeCreate m) rest →
    NoneInsertedSinceLookup cfg turn.1 m.tenant.name

/-- Stored records of a slug that was once looked up in vain were inserted since. -/
def InsertedSinceLookups (cfg : ManagerConfig ι) : Prop :=
  ∀ later i slug earlier,
    cfg.history = later ++ (i, ⟨.storeGetBySlug slug, .ok none⟩) :: earlier →
      ∀ k r, cfg.state.get k = some r → r.tenant.name = slug → Born later r.identity

theorem InsertedSinceLookups.step {cfg : ManagerConfig ι} (holds : IdentityHolds calls cfg)
    (since : InsertedSinceLookups cfg) (turn : ι × ManagerChoice) :
    InsertedSinceLookups (cfg.step memory turn) := by
  rcases cfg.step_cases memory turn with heq | ⟨e, rest, answer, s, hp, hanswer, heq⟩
  · rw [heq]
    exact since
  · rw [heq]
    intro later i slug earlier hsplit k r hr hslug
    change (turn.1, ⟨e, answer⟩) :: cfg.history = _ at hsplit
    change s.get k = some r at hr
    cases later with
    | nil =>
      cases (List.cons.inj hsplit).1
      obtain ⟨hnone, rfl⟩ := Prod.mk.inj (Option.some.inj hanswer)
      exact absurd hslug (getBySlug_eq_none_iff.mp (Except.ok.inj hnone) k r hr)
    | cons x later =>
      obtain ⟨rfl, hrest⟩ := List.cons.inj hsplit
      have hfollow := holds.2 turn.1
      rw [hp] at hfollow
      rcases holds.1.stored_before hfollow.1 (memory_step hanswer) hr with hnew | ⟨old, hold, hsame⟩
      · rw [hnew]
        exact ⟨turn.1, r, List.mem_cons_self, rfl⟩
      · have hslug' : old.tenant.name = slug :=
          (ManagedTenant.slug_eq_of_identity hsame).symm.trans hslug
        rw [hsame]
        exact (since later i slug earlier hrest k old hold hslug').mono (List.subset_cons_self _ _)

theorem managerSystem_insertedSince (fresh : FreshCalls calls)
    (schedule : List (ι × ManagerChoice)) :
    InsertedSinceLookups ((managerSystem calls).run memory schedule) := by
  refine Config.run_invariant memory (managerSystem calls) (managerSystem_identity fresh) ?_ ?_
    schedule
  · intro later i slug earlier hsplit k r hr
    cases hr
  · intro cfg turn holds since
    exact since.step holds turn

omit [DecidableEq ι] in
/-- A call that found its slug free finds it taken later exactly if a record of the slug was
inserted in between and is still there. -/
theorem slugFree_iff {cfg : ManagerConfig ι} (holds : IdentityHolds calls cfg)
    (since : InsertedSinceLookups cfg) {i : ι} {slug : String}
    (searched : (i, ⟨.storeGetBySlug slug, .ok none⟩) ∈ cfg.history) :
    SlugFree cfg.state slug ↔ NoneInsertedSinceLookup cfg i slug := by
  constructor
  · intro hfree later earlier answer hsplit j r hmem hslug
    have hborn : Born cfg.history r.identity := by
      rw [hsplit]
      exact ⟨j, r, List.mem_append_left _ hmem, rfl⟩
    by_contra hsome
    obtain ⟨stored, hstored⟩ := Option.ne_none_iff_exists'.mp hsome
    have hsame := holds.1.unique _ _ (holds.1.stored _ _ hstored) hborn (id_of_get hstored)
    have hslug' := ManagedTenant.slug_eq_of_identity hsame
    exact hfree _ stored hstored (hslug'.trans hslug)
  · intro hnone k r hr hslug
    obtain ⟨later, earlier, hsplit⟩ := List.append_of_mem searched
    obtain ⟨j, m, hmem, hm⟩ := since later i slug earlier hsplit k r hr hslug
    have hid : m.tenant.id = k := (ManagedTenant.id_eq_of_identity hm).trans (id_of_get hr)
    have hgone := hnone later earlier _ hsplit j m hmem
      ((ManagedTenant.slug_eq_of_identity hm).trans hslug)
    rw [hid, hr] at hgone
    cases hgone

omit [DecidableEq ι] in
theorem insertsFreeSlug_iff {cfg : ManagerConfig ι} (holds : IdentityHolds calls cfg)
    (since : InsertedSinceLookups cfg) (turn : ι × ManagerChoice) :
    InsertsFreeSlug cfg turn ↔ InsertsUnraced cfg turn := by
  have hinsertion (m : ManagedTenant)
      (rest : Except TenantError Unit → ManagerProgram ManagerResult)
      (hp : cfg.program turn.1 = .call (.storeCreate m) rest) :
      SlugFree cfg.state m.tenant.name ↔
        NoneInsertedSinceLookup cfg turn.1 m.tenant.name := by
    have hfollow := holds.2 turn.1
    rw [hp] at hfollow
    exact slugFree_iff holds since hfollow.1.2.2
  constructor
  · intro hfree m rest hp
    exact (hinsertion m rest hp).mp (hfree m rest hp)
  · intro hunraced m rest hp
    exact (hinsertion m rest hp).mpr (hunraced m rest hp)

/-- In every interleaving of manager calls with fresh ids, slugs are unique in every state
reached exactly if at every insertion no stored record of the slug was inserted since the
call's own lookup. -/
theorem slugs_unique_iff (fresh : FreshCalls calls) (schedule : List (ι × ManagerChoice)) :
    (∀ before, before <+: schedule →
        SlugsUnique ((managerSystem calls).run memory before).state) ↔
      ∀ before turn, before ++ [turn] <+: schedule →
        InsertsUnraced ((managerSystem calls).run memory before) turn := by
  refine Config.always_iff memory (managerSystem calls) (P := fun cfg => SlugsUnique cfg.state)
    (G := fun cfg => IdentityHolds calls cfg ∧ InsertedSinceLookups cfg) ?_ ?_ ?_ schedule
  · intro schedule
    exact ⟨managerSystem_identity fresh schedule, managerSystem_insertedSince fresh schedule⟩
  · intro a b ra rb ha
    cases ha
  · rintro cfg turn ⟨holds, since⟩ hunique
    rw [slugsUnique_step_iff fresh holds hunique turn]
    exact insertsFreeSlug_iff holds since turn

end Interleaved

def acmeTwice : Fin 2 → ManagerOp :=
  ![.create "t-1" (fun _ => 0) (.new "acme"), .create "t-2" (fun _ => 0) (.new "acme")]

theorem acmeTwice_fresh : FreshCalls acmeTwice := by
  intro i j id hi hj
  match i, j with
  | 0, 0 => rfl
  | 0, 1 => exact absurd (hi.trans hj.symm) (by decide)
  | 1, 0 => exact absurd (hi.trans hj.symm) (by decide)
  | 1, 1 => rfl

theorem slugs_unique_iff_serial :
    let serial : List (Fin 2 × ManagerChoice) :=
      [(0, default), (0, default), (0, default), (0, default), (1, default)]
    ∀ before, before <+: serial →
      SlugsUnique ((managerSystem acmeTwice).run memory before).state := by
  intro serial
  refine (slugs_unique_iff acmeTwice_fresh serial).mpr ?_
  simp only [serial, forall_turns_cons]
  refine ⟨?_, ?_, ?_, ?_, ?_, forall_turns_nil⟩ <;> intro m rest hp <;> cases hp
  intro later earlier answer hsplit j r hmem
  cases later with
  | nil => cases hmem
  | cons x later => exact absurd (List.cons.inj hsplit).2 (List.append_ne_nil_of_right_ne_nil _
      (List.cons_ne_nil _ _)).symm

/-- Both creations look the slug up before either inserts its record. -/
theorem racing_creations_share_slug :
    let racing : List (Fin 2 × ManagerChoice) :=
      [(0, default), (1, default), (0, default), (1, default)]
    ∃ ra rb, ((managerSystem acmeTwice).run memory racing).state.get "t-1" = some ra ∧
      ((managerSystem acmeTwice).run memory racing).state.get "t-2" = some rb ∧
      ra.tenant.name = "acme" ∧ rb.tenant.name = "acme" :=
  ⟨_, _, rfl, rfl, rfl, rfl⟩

end ArmatureTenancy

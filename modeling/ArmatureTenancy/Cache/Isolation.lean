import ArmatureTenancy.Cache.TenantCache
import Mathlib.Data.Fin.VecNotation

/-!
# Cross-tenant isolation of the cache

Every provider call made on behalf of a tenant names a key that starts with the
tenant's own prefix, also when `clear_tenant` deletes the keys of an earlier
scan. Prefixes of different ids never overlap, so the restriction of the store
to one tenant's keys is changed by that tenant's calls only, and a run with the
turns of all other tenants deleted gives the tenant the same answers.
-/

namespace ArmatureTenancy

open Foundations

def ownKey (id key : String) : Bool := key.startsWith (Tenant.cachePrefix id)

theorem ownKey_cacheKey_iff (id : String) (t : Tenant) (key : String) :
    ownKey id (t.cacheKey key) = true ↔ id = t.id := by
  rw [ownKey, t.cacheKey_eq]
  exact Tenant.cachePrefix_prefixFree.startsWith_iff id t.id key

theorem ownKey_disjoint {a b key : String} (hne : a ≠ b) (ha : ownKey a key = true) :
    ownKey b key = false := by
  unfold ownKey at ha ⊢
  rw [String.startsWith_string_iff] at ha
  obtain ⟨rest, hrest⟩ := ha
  have hkey : key = Tenant.cachePrefix a ++ String.ofList rest := by
    rw [← String.toList_inj]
    simpa using hrest.symm
  rw [hkey, Bool.eq_false_iff, ne_eq, Tenant.cachePrefix_prefixFree.startsWith_iff]
  exact fun h => hne h.symm

namespace CacheCall

/-- The provider calls that stay inside the keyspace of a tenant id. -/
def Owned (id : String) : CacheCall → Prop
  | .get key => ownKey id key = true
  | .set key _ _ => ownKey id key = true
  | .delete key => ownKey id key = true
  | .existsKey key => ownKey id key = true
  | .keysWithPrefix keyPrefix => keyPrefix = Tenant.cachePrefix id

/-- A scan lists only keys that start with the prefix it was given. -/
def Admissible : (call : CacheCall) → call.Answer → Prop
  | .keysWithPrefix keyPrefix, answer =>
    ∀ keys, answer = .ok keys → ∀ key ∈ keys, key.startsWith keyPrefix = true
  | _, _ => True

end CacheCall

theorem mapProvider_admissible (choice : CacheChoice) (store : CacheStore) (call : CacheCall)
    (answer : call.Answer) (store' : CacheStore)
    (h : mapProvider choice store call = some (answer, store')) : call.Admissible answer := by
  cases call with
  | keysWithPrefix keyPrefix =>
    intro keys hkeys key hkey
    subst hkeys
    cases hfault : choice.fault with
    | some e => simp [mapProvider, hfault] at h
    | none =>
      simp only [mapProvider, hfault, Option.some.injEq, Prod.mk.injEq, Except.ok.injEq] at h
      rw [← h.1, IterationOrder.mem_arrange] at hkey
      exact (List.mem_filter.mp hkey).2
  | _ => trivial

section Programs

variable {id : String}

theorem deleteMany_within {keys : List String} (hkeys : ∀ key ∈ keys, ownKey id key = true) :
    (CacheProvider.deleteMany keys).run.Within CacheCall.Admissible (CacheCall.Owned id)
      fun _ => True := by
  induction keys with
  | nil => trivial
  | cons key keys ih =>
    have hdelete : (CacheProvider.delete key).run.Within CacheCall.Admissible
        (CacheCall.Owned id) fun _ => True := ⟨hkeys key (by simp), fun _ _ => trivial⟩
    exact Program.within_bind_except hdelete (fun _ _ => trivial)
      fun _ _ => ih fun k hk => hkeys k (by simp [hk])

theorem clearTenant_within (t : Tenant) :
    (TenantCache.clearTenant t).run.Within CacheCall.Admissible (CacheCall.Owned t.id)
      fun _ => True := by
  refine ⟨t.cacheKey_empty, fun answer hadm => ?_⟩
  cases answer with
  | error e => trivial
  | ok keys =>
    have hkeys : ∀ key ∈ keys, ownKey t.id key = true := by
      intro key hkey
      rw [ownKey, ← t.cacheKey_empty]
      exact hadm keys rfl key hkey
    exact Program.within_bind_except (deleteMany_within hkeys) (fun _ _ => trivial)
      fun _ _ => trivial

theorem TenantCall.program_within (call : TenantCall) :
    call.program.Within CacheCall.Admissible (CacheCall.Owned call.tenant.id) fun _ => True := by
  obtain ⟨t, op⟩ := call
  have hown (key : String) : ownKey t.id (t.cacheKey key) = true :=
    (ownKey_cacheKey_iff t.id t key).mpr rfl
  have hdone {answer : Type} (f : answer → CacheReply) (r : Except CacheError answer) :
      Program.Within (E := CacheCall) CacheCall.Admissible (CacheCall.Owned t.id)
        (fun _ => True) (f <$> ExceptT.mk (Program.pure r)).run := by
    cases r <;> trivial
  cases op with
  | get key => exact ⟨hown key, fun r _ => hdone _ r⟩
  | set key value ttl => exact ⟨hown key, fun r _ => hdone _ r⟩
  | delete key => exact ⟨hown key, fun r _ => hdone _ r⟩
  | existsKey key => exact ⟨hown key, fun r _ => hdone _ r⟩
  | clearTenant =>
    exact Program.within_bind (clearTenant_within t) fun r _ => by cases r <;> trivial

end Programs

section Provider

variable {id : String} {choice : CacheChoice} {s t s' : CacheStore} {call : CacheCall}
  {answer : call.Answer}

theorem keysStartingWith_eq (store : CacheStore) (id : String) :
    keysStartingWith store (Tenant.cachePrefix id) = (restrict (ownKey id) store).keys := by
  simp [keysStartingWith, AList.keys, List.keys, restrict, List.filter_map, Function.comp_def,
    ownKey]

theorem mapProvider_outside {other : String} (hne : other ≠ id) (hown : call.Owned other)
    (h : mapProvider choice s call = some (answer, s')) :
    restrict (ownKey id) s' = restrict (ownKey id) s := by
  cases hfault : choice.fault <;> cases call <;>
    simp only [mapProvider, hfault, Option.some.injEq, Prod.mk.injEq] at h <;>
    obtain ⟨-, rfl⟩ := h <;> try rfl
  case none.set key value ttl =>
    exact restrict_insert_outside _ (ownKey_disjoint hne hown) _ _
  case none.delete key =>
    exact restrict_erase_outside _ (ownKey_disjoint hne hown) _

theorem mapProvider_inside (hown : call.Owned id)
    (h : mapProvider choice s call = some (answer, s'))
    (hsim : restrict (ownKey id) s = restrict (ownKey id) t) :
    ∃ t', mapProvider choice t call = some (answer, t') ∧
      restrict (ownKey id) s' = restrict (ownKey id) t' := by
  cases hfault : choice.fault with
  | some e =>
    cases call <;> simp only [mapProvider, hfault, Option.some.injEq, Prod.mk.injEq] at h ⊢ <;>
      obtain ⟨rfl, rfl⟩ := h <;> exact ⟨t, ⟨rfl, rfl⟩, hsim⟩
  | none =>
    cases call with
    | get key =>
      simp only [mapProvider, hfault, Option.some.injEq, Prod.mk.injEq] at h ⊢
      obtain ⟨rfl, rfl⟩ := h
      refine ⟨t, ⟨?_, rfl⟩, hsim⟩
      rw [lookup_eq_dlookup_restrict _ hown, lookup_eq_dlookup_restrict _ hown, hsim]
    | set key value ttl =>
      simp only [mapProvider, hfault, Option.some.injEq, Prod.mk.injEq] at h ⊢
      obtain ⟨rfl, rfl⟩ := h
      refine ⟨t.insert key value, ⟨rfl, rfl⟩, ?_⟩
      rw [restrict_insert _ hown, restrict_insert _ hown, hsim]
    | delete key =>
      simp only [mapProvider, hfault, Option.some.injEq, Prod.mk.injEq] at h ⊢
      obtain ⟨rfl, rfl⟩ := h
      refine ⟨t.erase key, ⟨rfl, rfl⟩, ?_⟩
      rw [restrict_erase, restrict_erase, hsim]
    | existsKey key =>
      simp only [mapProvider, hfault, Option.some.injEq, Prod.mk.injEq] at h ⊢
      obtain ⟨rfl, rfl⟩ := h
      refine ⟨t, ⟨?_, rfl⟩, hsim⟩
      rw [lookup_eq_dlookup_restrict _ hown, lookup_eq_dlookup_restrict _ hown, hsim]
    | keysWithPrefix keyPrefix =>
      obtain rfl : keyPrefix = Tenant.cachePrefix id := hown
      simp only [mapProvider, hfault, Option.some.injEq, Prod.mk.injEq] at h ⊢
      obtain ⟨rfl, rfl⟩ := h
      refine ⟨t, ⟨?_, rfl⟩, hsim⟩
      rw [keysStartingWith_eq, keysStartingWith_eq, hsim]

end Provider

section Interleaved

variable {ι : Type*} [DecidableEq ι] (calls : ι → TenantCall) (store : CacheStore)

def cacheSystem :
    Config ι CacheStore CacheCall CacheCall.Answer (Except CacheError CacheReply) where
  state := store
  history := []
  program := fun i => (calls i).program

/-- What a tenant finds in the store, key by key. -/
def visible (b : Tenant) (store : CacheStore) (key : String) : Option Bytes :=
  store.lookup (b.cacheKey key)

theorem visible_congr {b : Tenant} {s t : CacheStore}
    (h : restrict (ownKey b.id) s = restrict (ownKey b.id) t) : visible b s = visible b t := by
  funext key
  have hown := (ownKey_cacheKey_iff b.id b key).mpr rfl
  rw [visible, visible, lookup_eq_dlookup_restrict _ hown, lookup_eq_dlookup_restrict _ hown, h]

omit [DecidableEq ι] in
theorem cache_unwinding (id : String) :
    Unwinding mapProvider (fun i => (calls i).tenant.id = id)
      (fun i => CacheCall.Owned (calls i).tenant.id)
      fun s t => restrict (ownKey id) s = restrict (ownKey id) t where
  hidden hi hown h hsim := (mapProvider_outside hi hown h).trans hsim
  blocked := by
    intro i choice s t call _ _ h _
    cases call <;> simp [mapProvider] at h
  answered := by
    intro i choice s t call answer s' hi hown h hsim
    subst hi
    exact mapProvider_inside hown h hsim

/-- Whatever calls are in flight, however they are interleaved and whichever
provider calls fail: a turn of another tenant changes nothing the tenant can
see, and the tenant's own turns alone determine its part of the store and what
every one of its calls has read or returned. -/
theorem tenant_cache_isolation (b : Tenant) (schedule : List (ι × CacheChoice)) :
    (∀ turn : ι × CacheChoice, (calls turn.1).tenant.id ≠ b.id →
      visible b ((cacheSystem calls store).run mapProvider (schedule ++ [turn])).state =
        visible b ((cacheSystem calls store).run mapProvider schedule).state) ∧
    let own := schedule.filter fun turn => (calls turn.1).tenant.id = b.id
    visible b ((cacheSystem calls store).run mapProvider schedule).state =
        visible b ((cacheSystem calls store).run mapProvider own).state ∧
      ∀ i, (calls i).tenant.id = b.id →
        ((cacheSystem calls store).run mapProvider schedule).program i =
          ((cacheSystem calls store).run mapProvider own).program i := by
  have hstart (i : ι) : ((cacheSystem calls store).program i).Within CacheCall.Admissible
      (CacheCall.Owned (calls i).tenant.id) fun _ => True := (calls i).program_within
  have hwithin := Config.run_within mapProvider_admissible hstart
  constructor
  · intro turn hother
    rw [Config.run_concat]
    apply visible_congr
    exact ((cache_unwinding calls b.id).step_other hother (hwithin schedule turn.1) rfl
      fun _ _ => rfl).1
  · have hpurge := (cache_unwinding calls b.id).run_purge mapProvider_admissible hstart
      (Eq.refl (restrict (ownKey b.id) (cacheSystem calls store).state)) (fun _ _ => rfl) schedule
    exact ⟨visible_congr hpurge.1, hpurge.2⟩

/-- Tenant `x` clearing its keys cannot touch what tenant `x:y` stored under `z`,
although the two texts agree once the colons are ignored. -/
theorem tenant_cache_isolation_colon :
    let a := Tenant.new "x" "a"
    let b := Tenant.new "x:y" "b"
    let system := cacheSystem ![⟨b, .set "z" [1] none⟩, ⟨a, .clearTenant⟩] ∅
    visible b (system.run mapProvider [(0, ⟨none, default⟩), (1, ⟨none, default⟩)]).state =
      visible b (system.run mapProvider [(0, ⟨none, default⟩)]).state :=
  (tenant_cache_isolation ![⟨Tenant.new "x:y" "b", .set "z" [1] none⟩,
    ⟨Tenant.new "x" "a", .clearTenant⟩] ∅ (Tenant.new "x:y" "b")
    [(0, ⟨none, default⟩)]).1 (1, ⟨none, default⟩) (by decide)

end Interleaved
end ArmatureTenancy

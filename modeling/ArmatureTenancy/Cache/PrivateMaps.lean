import ArmatureTenancy.Cache.Isolation

/-!
# Each tenant's cache as a map of its own

The abstract cache is a family of maps, one for each tenant id, and every method
acts on the map of its caller only. The flat keyspace refines it because a cache
key can be decoded into the id and the caller's key, and the scan of
`clear_tenant` lists exactly the keys of one id. What a tenant finds is then a
function of the earlier calls of its own id.
-/

namespace ArmatureTenancy

open Foundations

/-- A cache key starts with the prefix of exactly its own tenant id, and it
determines the id and the key it was made from. -/
theorem cacheKey_decodes (a b : Tenant) (k k' : String) :
    ((b.cacheKey k').startsWith (a.cacheKey "") = true ↔ a.id = b.id) ∧
      (a.cacheKey k = b.cacheKey k' ↔ a.id = b.id ∧ k = k') := by
  constructor
  · rw [a.cacheKey_empty]
    exact ownKey_cacheKey_iff a.id b k'
  · rw [a.cacheKey_eq, b.cacheKey_eq]
    exact Tenant.cachePrefix_prefixFree.append_eq_iff a.id b.id k k'

/-- For each tenant id, the values under its keys. -/
abbrev PrivateMaps := String → String → Option Bytes

namespace PrivateMaps

def apply (maps : PrivateMaps) (call : TenantCall) : PrivateMaps := fun id key =>
  if id = call.tenant.id then
    match call.op with
    | .set k value _ => if key = k then some value else maps id key
    | .delete k => if key = k then none else maps id key
    | .clearTenant => none
    | _ => maps id key
  else maps id key

def reply (maps : PrivateMaps) (call : TenantCall) : CacheReply :=
  match call.op with
  | .get key => .value (maps call.tenant.id key)
  | .existsKey key => .found (maps call.tenant.id key).isSome
  | _ => .done

/-- The maps a flat store stands for. -/
def contents (store : CacheStore) : PrivateMaps := fun id key =>
  store.lookup (Tenant.cachePrefix id ++ key)

theorem contents_visible (t : Tenant) (store : CacheStore) :
    contents store t.id = visible t store := by
  funext key
  rw [contents, visible, t.cacheKey_eq]

end PrivateMaps

def faulted : Exchange CacheCall CacheCall.Answer → Bool
  | ⟨.get _, answer⟩ => !answer.isOk
  | ⟨.set _ _ _, answer⟩ => !answer.isOk
  | ⟨.delete _, answer⟩ => !answer.isOk
  | ⟨.existsKey _, answer⟩ => !answer.isOk
  | ⟨.keysWithPrefix _, answer⟩ => !answer.isOk

section Calls

variable {s s' : CacheStore} {log : List (Exchange CacheCall CacheCall.Answer)}

theorem runs_call {call : CacheCall} {a : call.Answer}
    (h : (CacheProvider.call call).Runs mapProvider s log a s') :
    ∃ c, mapProvider c s call = some (a, s') ∧ log = [⟨call, a⟩] := by
  obtain ⟨c, r, s₁, tail, answered, rfl, htail⟩ := Program.runs_call_iff.mp h
  obtain ⟨rfl, rfl, rfl⟩ := Program.runs_pure_iff.mp htail
  exact ⟨c, answered, rfl⟩

theorem mapProvider_clean {c : CacheChoice} {call : CacheCall} {a : call.Answer}
    (h : mapProvider c s call = some (a, s')) (clean : faulted ⟨call, a⟩ = false) :
    mapProvider ⟨none, c.order⟩ s call = some (a, s') := by
  cases hfault : c.fault with
  | none => rw [← hfault, h]
  | some e =>
    cases call <;> simp only [mapProvider, hfault, Option.some.injEq, Prod.mk.injEq] at h <;>
      obtain ⟨rfl, rfl⟩ := h <;> cases clean

theorem runs_delete {key : String} {a : Except CacheError Unit}
    (h : (CacheProvider.delete key).run.Runs mapProvider s log a s') :
    ∃ x, log = [x] ∧
      ((a = .ok () ∧ faulted x = false ∧ s' = s.erase key) ∨
        ((∃ e, a = .error e) ∧ faulted x = true ∧ s' = s)) := by
  obtain ⟨c, hc, rfl⟩ := runs_call h
  cases hfault : c.fault with
  | none =>
    simp only [mapProvider, hfault, Option.some.injEq, Prod.mk.injEq] at hc
    obtain ⟨rfl, rfl⟩ := hc
    exact ⟨_, rfl, .inl ⟨rfl, rfl, rfl⟩⟩
  | some e =>
    simp only [mapProvider, hfault, Option.some.injEq, Prod.mk.injEq] at hc
    obtain ⟨rfl, rfl⟩ := hc
    exact ⟨_, rfl, .inr ⟨⟨e, rfl⟩, rfl, rfl⟩⟩

theorem runs_scan {t : Tenant} {a : Except CacheError (List String)}
    (h : (CacheProvider.keysWithPrefix (t.cacheKey "")).run.Runs mapProvider s log a s') :
    s' = s ∧ ∃ x, log = [x] ∧
      ((∃ keys, a = .ok keys ∧ faulted x = false ∧
          ∀ k, k ∈ keys ↔ k ∈ s.keys ∧ ownKey t.id k = true) ∨
        ((∃ e, a = .error e) ∧ faulted x = true)) := by
  obtain ⟨c, hc, rfl⟩ := runs_call h
  cases hfault : c.fault with
  | none =>
    simp only [mapProvider, hfault, Option.some.injEq, Prod.mk.injEq] at hc
    obtain ⟨rfl, rfl⟩ := hc
    refine ⟨rfl, _, rfl, .inl ⟨_, rfl, rfl, fun k => ?_⟩⟩
    rw [t.cacheKey_empty, IterationOrder.mem_arrange]
    exact List.mem_filter
  | some e =>
    simp only [mapProvider, hfault, Option.some.injEq, Prod.mk.injEq] at hc
    obtain ⟨rfl, rfl⟩ := hc
    exact ⟨rfl, _, rfl, .inr ⟨⟨e, rfl⟩, rfl⟩⟩

theorem runs_deleteMany {keys : List String} {a : Except CacheError Unit}
    (h : (CacheProvider.deleteMany keys).run.Runs mapProvider s log a s') :
    (a = .ok () ∧ (∀ x ∈ log, faulted x = false) ∧
        ∀ k, s'.lookup k = if k ∈ keys then none else s.lookup k) ∨
      ((∃ e, a = .error e) ∧ (∃ x ∈ log, faulted x = true) ∧
        ∀ k, s'.lookup k = none ∨ s'.lookup k = s.lookup k) := by
  induction keys generalizing s log with
  | nil =>
    obtain ⟨rfl, rfl, rfl⟩ := Program.runs_pure_iff.mp h
    exact .inl ⟨rfl, by simp, by simp⟩
  | cons key keys ih =>
    rcases Program.runs_bind_except h with ⟨e, rfl, hfailed⟩ |
      ⟨_, s₁, first, second, hdelete, hrest, rfl⟩
    · obtain ⟨x, rfl, ⟨hok, -, -⟩ | ⟨-, hfail, rfl⟩⟩ := runs_delete hfailed
      · cases hok
      · exact .inr ⟨⟨e, rfl⟩, ⟨x, List.mem_singleton_self x, hfail⟩, fun k => .inr rfl⟩
    · obtain ⟨x, rfl, ⟨-, hclean, rfl⟩ | ⟨⟨e, herr⟩, -, -⟩⟩ := runs_delete hdelete
      · rcases ih hrest with ⟨rfl, hlog, hlookup⟩ | ⟨herr, ⟨y, hy, hfail⟩, hlookup⟩
        · refine .inl ⟨rfl, by simpa [hclean] using hlog, fun k => ?_⟩
          rw [hlookup, lookup_erase_eq]
          by_cases hk : k = key <;> simp [hk]
        · refine .inr ⟨herr, ⟨y, List.mem_cons_of_mem x hy, hfail⟩, fun k => ?_⟩
          rcases hlookup k with hnone | hsame
          · exact .inl hnone
          · rw [lookup_erase_eq] at hsame
            split at hsame
            · exact .inl hsame
            · exact .inr hsame
      · cases herr

theorem runs_clearTenant {t : Tenant} {a : Except CacheError Unit}
    (h : (TenantCache.clearTenant t).run.Runs mapProvider s log a s') :
    (a = .ok () ∧ (∀ x ∈ log, faulted x = false) ∧
        ∀ k, s'.lookup k = if ownKey t.id k then none else s.lookup k) ∨
      ((∃ e, a = .error e) ∧ (∃ x ∈ log, faulted x = true) ∧
        ∀ k, s'.lookup k = none ∨ s'.lookup k = s.lookup k) := by
  rcases Program.runs_bind_except h with ⟨e, rfl, hfailed⟩ |
    ⟨keys, s₁, first, second, hscan, hrest, rfl⟩
  · obtain ⟨rfl, x, rfl, ⟨keys, hok, -⟩ | ⟨-, hfail⟩⟩ := runs_scan hfailed
    · cases hok
    · exact .inr ⟨⟨e, rfl⟩, ⟨x, List.mem_singleton_self x, hfail⟩, fun k => .inr rfl⟩
  · obtain ⟨rfl, x, rfl, ⟨keys', hok, hclean, hkeys⟩ | ⟨⟨e, herr⟩, -⟩⟩ := runs_scan hscan
    · cases hok
      have hdeleted : (CacheProvider.deleteMany keys).run.Runs mapProvider s₁ second a s' := by
        rcases Program.runs_bind_except hrest with ⟨e, rfl, hfailed⟩ |
          ⟨_, s₂, first, last, hdone, hpure, rfl⟩
        · exact hfailed
        · obtain ⟨rfl, rfl, rfl⟩ := Program.runs_pure_iff.mp hpure
          rw [List.append_nil]
          exact hdone
      rcases runs_deleteMany hdeleted with ⟨rfl, hlog, hlookup⟩ | ⟨herr, ⟨y, hy, hfail⟩, hlookup⟩
      · refine .inl ⟨rfl, by simpa [hclean] using hlog, fun k => ?_⟩
        rw [hlookup]
        by_cases hk : k ∈ s₁.keys
        · simp [hkeys, hk]
        · have hnone : s₁.lookup k = none := AList.lookup_eq_none.mpr hk
          simp [hnone]
      · exact .inr ⟨herr, ⟨y, List.mem_cons_of_mem x hy, hfail⟩, hlookup⟩
    · cases herr

end Calls

section Refinement

open PrivateMaps

variable {call : TenantCall} {s s' : CacheStore}
  {log : List (Exchange CacheCall CacheCall.Answer)} {a : Except CacheError CacheReply}

theorem contents_of_lookup {t : Tenant} {key : String} {found : Option Bytes}
    (h : ∀ k, s'.lookup k = if k = t.cacheKey key then found else s.lookup k) (id k : String) :
    contents s' id k =
      if id = t.id then if k = key then found else contents s id k else contents s id k := by
  rw [contents, h, t.cacheKey_eq, ← ite_and]
  apply if_congr _ rfl rfl
  exact Tenant.cachePrefix_prefixFree.append_eq_iff id t.id k key

theorem contents_insert (s : CacheStore) (t : Tenant) (key : String) (value : Bytes)
    (ttl : Option Duration) :
    contents (s.insert (t.cacheKey key) value) =
      (contents s).apply ⟨t, .set key value ttl⟩ := by
  funext id k
  exact contents_of_lookup (lookup_insert_eq s (t.cacheKey key) value) id k

theorem contents_erase (s : CacheStore) (t : Tenant) (key : String) :
    contents (s.erase (t.cacheKey key)) = (contents s).apply ⟨t, .delete key⟩ := by
  funext id k
  exact contents_of_lookup (lookup_erase_eq s (t.cacheKey key)) id k

theorem contents_cleared {t : Tenant}
    (h : ∀ k, s'.lookup k = if ownKey t.id k then none else s.lookup k) :
    contents s' = (contents s).apply ⟨t, .clearTenant⟩ := by
  funext id k
  have hown : ownKey t.id (Tenant.cachePrefix id ++ k) = true ↔ t.id = id :=
    Tenant.cachePrefix_prefixFree.startsWith_iff t.id id k
  rw [contents, h]
  by_cases hid : id = t.id
  · rw [if_pos (hown.mpr hid.symm)]
    simp [apply, hid]
  · have hnot : ownKey t.id (Tenant.cachePrefix id ++ k) = false :=
      Bool.eq_false_iff.mpr fun h => hid (hown.mp h).symm
    simp [apply, hid, hnot, contents]

/-- A method whose provider calls succeed replies from the maps and acts on them. -/
theorem contents_refines {call : TenantCall} {a : Except CacheError CacheReply}
    (h : call.program.Runs mapProvider s log a s') (clean : ∀ x ∈ log, faulted x = false) :
    a = .ok ((contents s).reply call) ∧ contents s' = (contents s).apply call := by
  obtain ⟨t, op⟩ := call
  have unchanged (hread : ∀ id key, (contents s).apply ⟨t, op⟩ id key = contents s id key) :
      contents s = (contents s).apply ⟨t, op⟩ := by
    funext id key
    exact (hread id key).symm
  cases op with
  | get key =>
    obtain ⟨r, rfl, hrun⟩ := Program.runs_map_except h
    obtain ⟨c, hc, rfl⟩ := runs_call hrun
    cases mapProvider_clean hc (clean _ (List.mem_singleton_self _))
    refine ⟨?_, unchanged fun id key => by simp [apply]⟩
    simp [reply, contents_visible, visible]
  | existsKey key =>
    obtain ⟨r, rfl, hrun⟩ := Program.runs_map_except h
    obtain ⟨c, hc, rfl⟩ := runs_call hrun
    cases mapProvider_clean hc (clean _ (List.mem_singleton_self _))
    refine ⟨?_, unchanged fun id key => by simp [apply]⟩
    simp [reply, contents_visible, visible]
  | set key value ttl =>
    obtain ⟨r, rfl, hrun⟩ := Program.runs_map_except h
    obtain ⟨c, hc, rfl⟩ := runs_call hrun
    cases mapProvider_clean hc (clean _ (List.mem_singleton_self _))
    exact ⟨rfl, contents_insert s t key value ttl⟩
  | delete key =>
    obtain ⟨r, rfl, hrun⟩ := Program.runs_map_except h
    obtain ⟨c, hc, rfl⟩ := runs_call hrun
    cases mapProvider_clean hc (clean _ (List.mem_singleton_self _))
    exact ⟨rfl, contents_erase s t key⟩
  | clearTenant =>
    obtain ⟨r, rfl, hrun⟩ := Program.runs_map_except h
    rcases runs_clearTenant hrun with ⟨rfl, -, hlookup⟩ | ⟨-, ⟨x, hx, hfail⟩, -⟩
    · exact ⟨rfl, contents_cleared hlookup⟩
    · rw [clean x hx] at hfail
      cases hfail

end Refinement

abbrev CacheDone :=
  Completed TenantCall CacheStore CacheCall CacheCall.Answer (Except CacheError CacheReply)

/-- Calls one after the other, from an empty provider. -/
abbrev CacheRun : List CacheDone → CacheStore → Prop :=
  Sequential mapProvider TenantCall.program (∅ : CacheStore)

/-- Among the calls for an id, the most recent one first: the value of the last
`set` of the key that no `delete` of the key and no `clear_tenant` follows. -/
def lastValue (id key : String) : List TenantCall → Option Bytes
  | [] => none
  | call :: earlier =>
    if call.tenant.id = id then
      match call.op with
      | .set k value _ => if k = key then some value else lastValue id key earlier
      | .delete k => if k = key then none else lastValue id key earlier
      | .clearTenant => none
      | _ => lastValue id key earlier
    else lastValue id key earlier

def NoFault (past : List CacheDone) : Prop := ∀ done ∈ past, ∀ x ∈ done.log, faulted x = false

theorem contents_of_run {past : List CacheDone} {store : CacheStore} (run : CacheRun past store)
    (clean : NoFault past) (id key : String) :
    PrivateMaps.contents store id key = lastValue id key (past.map Completed.op) := by
  induction run with
  | nil => rfl
  | @step past call s s' log a earlier runs ih =>
    have hearlier := ih fun done hdone => clean done (List.mem_cons_of_mem _ hdone)
    have hstep := (contents_refines runs (clean _ List.mem_cons_self)).2
    rw [hstep, List.map_cons, lastValue, PrivateMaps.apply]
    by_cases hid : id = call.tenant.id
    · rw [if_pos hid, if_pos hid.symm]
      cases call.op with
      | set k value ttl => simp only [hearlier, eq_comm]
      | delete k => simp only [hearlier, eq_comm]
      | _ => simp only [hearlier]
    · rw [if_neg hid, if_neg (Ne.symm hid), hearlier]

/-- Over a map with exact prefix listing, whatever calls came before and whoever
made them: as long as no provider call fails, `get` returns the value of the last
`set` under the tenant's id that is still in force, and `exists` agrees; a
`clear_tenant` that succeeds leaves nothing visible to the tenant; and one whose
provider fails at a `delete` returns an error and leaves a part of what was visible. -/
theorem cache_private_maps {past : List CacheDone} {store store' : CacheStore}
    {log : List (Exchange CacheCall CacheCall.Answer)} {a : Except CacheError CacheReply}
    (run : CacheRun past store) (t : Tenant) (op : CacheOp)
    (runs : (⟨t, op⟩ : TenantCall).program.Runs mapProvider store log a store') :
    (∀ key, NoFault past → (∀ x ∈ log, faulted x = false) →
      (op = .get key → a = .ok (.value (lastValue t.id key (past.map Completed.op)))) ∧
      (op = .existsKey key →
        a = .ok (.found (lastValue t.id key (past.map Completed.op)).isSome))) ∧
    (op = .clearTenant → ∀ reply, a = .ok reply → ∀ key, visible t store' key = none) ∧
    (op = .clearTenant → (∃ key e, ⟨.delete key, .error e⟩ ∈ log) →
      (∃ e, a = .error e) ∧
        ∀ key value, visible t store' key = some value → visible t store key = some value) := by
  refine ⟨?_, ?_, ?_⟩
  · intro key hpast hlog
    have hcontents := contents_of_run run hpast t.id key
    obtain ⟨rfl, -⟩ := contents_refines runs hlog
    constructor
    · rintro rfl
      simp only [PrivateMaps.reply, hcontents]
    · rintro rfl
      simp only [PrivateMaps.reply, hcontents]
  · rintro rfl reply rfl key
    obtain ⟨r, hr, hrun⟩ := Program.runs_map_except runs
    rcases runs_clearTenant hrun with ⟨rfl, -, hlookup⟩ | ⟨⟨e, rfl⟩, -, -⟩
    · rw [visible, hlookup, if_pos ((ownKey_cacheKey_iff t.id t key).mpr rfl)]
    · cases hr
  · rintro rfl ⟨key, e, hfail⟩
    obtain ⟨r, rfl, hrun⟩ := Program.runs_map_except runs
    rcases runs_clearTenant hrun with ⟨-, hclean, -⟩ | ⟨⟨e', rfl⟩, -, hlookup⟩
    · cases hclean _ hfail
    · refine ⟨⟨e', rfl⟩, fun k value hk => ?_⟩
      rcases hlookup (t.cacheKey k) with hnone | hsame
      · rw [visible, hnone] at hk
        cases hk
      · rw [visible, hsame] at hk
        exact hk

def colonCalls : List (TenantCall × List CacheChoice) :=
  [(⟨Tenant.new "1" "a", .set "::" [1] none⟩, [⟨none, default⟩]),
    (⟨Tenant.new "1:" "b", .set ":" [2] none⟩, [⟨none, default⟩])]

theorem cache_private_maps_colon :
    ∃ past store log a, sequence mapProvider TenantCall.program colonCalls [] ∅ =
        some (past, store) ∧
      (⟨Tenant.new "1" "a", .get "::"⟩ : TenantCall).program.Runs mapProvider store log a store ∧
      a = .ok (.value (some [1])) := by
  refine ⟨_, _, _, _, rfl, .call (c := ⟨none, default⟩) rfl (.pure _ _), ?_⟩
  have hrun : CacheRun _ _ := sequential_of_sequence .nil
    (rfl : sequence mapProvider TenantCall.program colonCalls [] ∅ = some _)
  have hget := cache_private_maps hrun (Tenant.new "1" "a") (.get "::")
    (.call (c := ⟨none, default⟩) rfl (.pure _ _))
  exact (hget.1 "::" (by simp [NoFault, faulted, Except.isOk, Except.toBool])
    (by simp [faulted, Except.isOk, Except.toBool])).1 rfl

end ArmatureTenancy

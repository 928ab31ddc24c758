import ArmatureTenancy.Cache.Clearing

/-!
# JSON values in the cache

`get_json` and `set_json` read and write values of one type through `serde_json`, which is
a parameter here. Whatever else runs on the cache, a typed read returns the value of the
last typed write under its key, as long as no one writes raw bytes there.
-/

namespace ArmatureTenancy

open Foundations

/-- `serde_json::to_vec` and `serde_json::from_slice` at one type, with the texts of their
errors. -/
structure JsonCodec (V : Type) where
  toVec : V → Except String Bytes
  fromSlice : Bytes → Except String V

variable {V : Type} (codec : JsonCodec V)

namespace TenantCache

def getJson (tenant : Tenant) (key : String) : CacheM (Option V) := do
  match ← get tenant key with
  | some data =>
    match codec.fromSlice data with
    | .ok value => pure (some value)
    | .error e => throw (.serialization e)
  | none => pure none

def setJson (tenant : Tenant) (key : String) (value : V) (ttl : Option Duration) :
    CacheM Unit := do
  match codec.toVec value with
  | .ok data => set tenant key data ttl
  | .error e => throw (.serialization e)

end TenantCache

inductive TypedCall (V : Type) where
  | raw : TenantCall → TypedCall V
  | getJson : (tenant : Tenant) → (key : String) → TypedCall V
  | setJson : (tenant : Tenant) → (key : String) → V → (ttl : Option Duration) → TypedCall V

abbrev TypedReply (V : Type) := Except CacheError (CacheReply ⊕ Option V)

abbrev TypedProgram (V : Type) := Program CacheCall CacheCall.Answer (TypedReply V)

namespace TypedCall

def code : TypedCall V → CacheM (CacheReply ⊕ Option V)
  | .raw call => .inl <$> call.code
  | .getJson tenant key => .inr <$> TenantCache.getJson codec tenant key
  | .setJson tenant key value ttl =>
    (fun _ => .inl .done) <$> TenantCache.setJson codec tenant key value ttl

def program (call : TypedCall V) : TypedProgram V := (call.code codec).run

end TypedCall

/-- What `get_json` makes of the provider's answer. -/
def JsonCodec.reply : Except CacheError (Option Bytes) → TypedReply V
  | .error e => .error e
  | .ok none => .ok (.inr none)
  | .ok (some data) => match codec.fromSlice data with
    | .ok value => .ok (.inr (some value))
    | .error e => .error (.serialization e)

theorem program_getJson (tenant : Tenant) (key : String) :
    (TypedCall.getJson tenant key).program codec =
      .call (.get (tenant.cacheKey key)) fun answer => .pure (codec.reply answer) := by
  apply Program.call_congr
  intro answer
  match answer with
  | .error e => rfl
  | .ok none => rfl
  | .ok (some data) =>
    simp only [JsonCodec.reply, Program.pure_bind', ExceptT.bindCont]
    cases codec.fromSlice data <;> rfl

theorem program_setJson (tenant : Tenant) (key : String) (value : V) (ttl : Option Duration) :
    (TypedCall.setJson tenant key value ttl).program codec = match codec.toVec value with
      | .ok data => .call (.set (tenant.cacheKey key) data ttl) fun answer =>
        .pure (answer.map fun _ => .inl .done)
      | .error e => .pure (.error (.serialization e)) := by
  cases hdata : codec.toVec value with
  | error e =>
    simp only [TypedCall.program, TypedCall.code, TenantCache.setJson, hdata]
    rfl
  | ok data =>
    simp only [TypedCall.program, TypedCall.code, TenantCache.setJson, hdata]
    apply Program.call_congr
    intro answer
    cases answer <;> rfl

def TypedCall.Writes : TypedCall V → (cacheKey : String) → Bytes → Option Duration → Prop
  | .raw ⟨tenant, .set key value ttl⟩, cacheKey, data, ttl' =>
    cacheKey = tenant.cacheKey key ∧ data = value ∧ ttl' = ttl
  | .setJson tenant key value ttl, cacheKey, data, ttl' =>
    cacheKey = tenant.cacheKey key ∧ codec.toVec value = .ok data ∧ ttl' = ttl
  | _, _, _, _ => False

def TypedCall.Makes (call : TypedCall V) : CacheCall → Prop
  | .set cacheKey data ttl => call.Writes codec cacheKey data ttl
  | _ => True

theorem clearing_makes (call : TypedCall V) (keys : List String) :
    (clearing keys).Within (fun _ _ => True) (call.Makes codec) fun _ => True := by
  induction keys with
  | nil => trivial
  | cons key keys ih =>
    rw [clearing_cons]
    refine ⟨trivial, fun answer _ => ?_⟩
    cases answer with
    | error e => trivial
    | ok value => exact ih

theorem TenantCall.program_makes (call : TenantCall) :
    call.program.Within (fun _ _ => True) ((TypedCall.raw call).Makes codec) fun _ => True := by
  obtain ⟨t, op⟩ := call
  cases op with
  | clearTenant =>
    rw [program_clearTenant]
    refine ⟨trivial, fun answer _ => ?_⟩
    cases answer with
    | error e => trivial
    | ok keys => exact clearing_makes codec _ keys
  | set key value ttl => exact ⟨⟨rfl, rfl, rfl⟩, fun answer _ => by cases answer <;> trivial⟩
  | _ => exact ⟨trivial, fun answer _ => by cases answer <;> trivial⟩

theorem TypedCall.program_makes (call : TypedCall V) :
    (call.program codec).Within (fun _ _ => True) (call.Makes codec) fun _ => True := by
  cases call with
  | raw call =>
    apply Program.within_bind (call.program_makes codec)
    intro r _
    cases r <;> trivial
  | getJson tenant key =>
    rw [program_getJson]
    exact ⟨trivial, fun _ _ => trivial⟩
  | setJson tenant key value ttl =>
    rw [program_setJson]
    split
    · next data hdata => exact ⟨⟨rfl, hdata, rfl⟩, fun _ _ => trivial⟩
    · trivial

theorem Tenant.cacheKey_inj {a b : Tenant} {key key' : String} :
    a.cacheKey key = b.cacheKey key' ↔ a.id = b.id ∧ key = key' := by
  rw [a.cacheKey_eq, b.cacheKey_eq]
  exact Tenant.cachePrefix_prefixFree.append_eq_iff a.id b.id key key'

section Interleaved

variable {ι : Type*} [DecidableEq ι] (calls : ι → TypedCall V) (store : CacheStore)
  (schedule : List (ι × CacheChoice))

def typedSystem : Config ι CacheStore CacheCall CacheCall.Answer (TypedReply V) where
  state := store
  history := []
  program := fun i => (calls i).program codec

/-- A typed read returns what it makes of the provider's answer. -/
def readingDiscipline : Discipline ι CacheCall CacheCall.Answer (TypedReply V) where
  allowed _ _ _ := True
  answers _ _ _ _ := True
  post h i a := ∀ t key, calls i = .getJson t key →
    ∃ newer older answer, h = newer ++ (i, ⟨.get (t.cacheKey key), answer⟩) :: older ∧
      a = codec.reply answer
  allowed_stable _ _ := trivial
  post_stable := by
    intro h h' i a moved hpost t key hcall
    obtain ⟨newer, older, answer, rfl, ha⟩ := hpost t key hcall
    obtain ⟨more, rfl, -⟩ := moved
    exact ⟨more ++ newer, older, answer, (List.append_assoc _ _ _).symm, ha⟩

omit [DecidableEq ι] in
theorem TypedCall.program_follows (i : ι) :
    ((calls i).program codec).Follows (readingDiscipline codec calls) i [] := by
  cases hcall : calls i with
  | getJson t key =>
    rw [program_getJson]
    refine ⟨trivial, fun h' answer _ _ => ?_⟩
    intro t' key' hcall'
    rw [hcall] at hcall'
    cases hcall'
    exact ⟨[], h', answer, rfl, rfl⟩
  | _ =>
    apply Program.follows_of_post
    · exact fun _ _ => trivial
    · intro _ _ t key hget
      rw [hcall] at hget
      cases hget

/-- The value is the one of the last successful typed write under the key, or there is
none because nothing was written or the last write was a delete. -/
def LastSetJson (older : CacheHistory ι) (t : Tenant) (key : String) : Option V → Prop
  | none => current store older (t.cacheKey key) = none
  | some value => ∃ j t' ttl data, calls j = .setJson t' key value ttl ∧ t'.id = t.id ∧
      codec.toVec value = .ok data ∧
      (j, ⟨.set (t.cacheKey key) data ttl, .ok ()⟩) ∈ older ∧
      current store older (t.cacheKey key) = some data

variable {calls store} in
omit [DecidableEq ι] in
/-- Without raw writes under the key, what it holds was put there by a typed write. -/
theorem lastSetJson_of_current {older : CacheHistory ι} {t : Tenant} {key : String} {data : Bytes}
    (empty : visible t store key = none)
    (typed : ∀ j t' data ttl, calls j = .raw ⟨t', .set key data ttl⟩ → t'.id ≠ t.id)
    (makes : ∀ x ∈ older, (calls x.1).Makes codec x.2.1)
    (hcurrent : current store older (t.cacheKey key) = some data) :
    ∃ value, codec.toVec value = .ok data ∧
      LastSetJson codec calls store older t key (some value) := by
  have happend := current_append_cases store older [] (t.cacheKey key)
  rw [List.append_nil, hcurrent] at happend
  rcases happend with ⟨⟨j, x⟩, hx, hwritten⟩ | ⟨-, hstore⟩
  · obtain ⟨ttl, rfl⟩ := eq_set_of_writtenUnder hwritten
    have hwrites : (calls j).Writes codec (t.cacheKey key) data ttl := makes _ hx
    cases hcall : calls j with
    | raw call =>
      obtain ⟨t', op⟩ := call
      rw [hcall] at hwrites
      cases op with
      | set key' value ttl' =>
        obtain ⟨hid, rfl⟩ := Tenant.cacheKey_inj.mp hwrites.1
        exact absurd hid.symm (typed j t' value ttl' hcall)
      | _ => exact hwrites.elim
    | getJson t' key' =>
      rw [hcall] at hwrites
      exact hwrites.elim
    | setJson t' key' value ttl' =>
      rw [hcall] at hwrites
      obtain ⟨hkey, hdata, rfl⟩ := hwrites
      obtain ⟨hid, rfl⟩ := Tenant.cacheKey_inj.mp hkey
      exact ⟨value, hdata, j, t', ttl, data, hcall, hid.symm, hdata, hx, hcurrent⟩
  · rw [visible] at empty
    simp [current, empty] at hstore

/-- As long as no one writes raw bytes under the key on behalf of the tenant, a typed read
fails only if its provider call does: it returns the value of the last typed write under the
key, whatever calls of this and of other tenants run beside it. -/
theorem json_values_round_trip {t : Tenant} {key : String} {i : ι} {r : TypedReply V}
    (faithful : ∀ value data, codec.toVec value = .ok data → codec.fromSlice data = .ok value)
    (empty : visible t store key = none)
    (typed : ∀ j t' data ttl, calls j = .raw ⟨t', .set key data ttl⟩ → t'.id ≠ t.id)
    (reads : calls i = .getJson t key)
    (returned : ((typedSystem codec calls store).run mapProvider schedule).program i = .pure r) :
    let last := (typedSystem codec calls store).run mapProvider schedule
    ∃ newer older answer, last.history = newer ++ (i, ⟨.get (t.cacheKey key), answer⟩) :: older ∧
      ((∃ e, answer = .error e ∧ r = .error e) ∨
        ∃ value, r = .ok (.inr value) ∧ LastSetJson codec calls store older t key value) := by
  intro last
  have hmakes (i : ι) : ((typedSystem codec calls store).program i).Within (fun _ _ => True)
      ((calls i).Makes codec) fun _ => True := (calls i).program_makes codec
  have hhistory : ∀ x ∈ last.history, (calls x.1).Makes codec x.2.1 :=
    Config.history_within (fun _ _ _ _ _ _ => trivial) hmakes (by simp [typedSystem]) schedule
  have hfollows (i : ι) : ((typedSystem codec calls store).program i).Follows
      (readingDiscipline codec calls) i (typedSystem codec calls store).history :=
    TypedCall.program_follows codec calls i
  have hpost : (last.program i).Follows (readingDiscipline codec calls) i last.history :=
    Config.run_follows_blindly (fun _ _ _ _ => trivial) hfollows schedule i
  rw [returned] at hpost
  obtain ⟨newer, older, answer, hsplit, rfl⟩ := hpost t key reads
  have hstart : HistoryTells store (typedSystem codec calls store).toMoment :=
    ⟨fun _ => rfl, trivial⟩
  have htruthful := (hstart.run schedule).2
  rw [hsplit] at htruthful hhistory
  refine ⟨newer, older, answer, hsplit, ?_⟩
  cases answer with
  | error e => exact .inl ⟨e, rfl, rfl⟩
  | ok found =>
    have hfound : found = current store older (t.cacheKey key) := htruthful.of_append.1
    right
    cases found with
    | none => exact ⟨none, rfl, hfound.symm⟩
    | some data =>
      have holder (x : ι × Exchange CacheCall CacheCall.Answer) (hx : x ∈ older) :
          (calls x.1).Makes codec x.2.1 :=
        hhistory x (List.mem_append_right _ (List.mem_cons_of_mem _ hx))
      obtain ⟨value, hvec, hset⟩ :=
        lastSetJson_of_current codec empty typed holder hfound.symm
      refine ⟨some value, ?_, hset⟩
      simp only [JsonCodec.reply, faithful value data hvec]

def boolText : Bool → Bytes
  | true => [0x74, 0x72, 0x75, 0x65]
  | false => [0x66, 0x61, 0x6c, 0x73, 0x65]

/-- `serde_json` at the type of the booleans, on texts without white space around them. -/
def boolCodec : JsonCodec Bool where
  toVec value := .ok (boolText value)
  fromSlice data :=
    if data = boolText true then .ok true
    else if data = boolText false then .ok false
    else .error "expected value at line 1 column 1"

def typedAndRead : Fin 3 → TypedCall Bool :=
  ![.setJson (Tenant.new "t-1" "acme") "a" true none, .raw ⟨Tenant.new "t-2" "globex", .set "a" [2]
    none⟩, .getJson (Tenant.new "t-1" "acme") "a"]

theorem json_values_round_trip_two :
    let t := Tenant.new "t-1" "acme"
    let last := (typedSystem boolCodec typedAndRead ∅).run mapProvider [(0, ⟨none, default⟩),
      (1, ⟨none, default⟩), (2, ⟨none, default⟩)]
    ∃ r, last.program 2 = .pure r ∧ ∃ newer older answer,
      last.history = newer ++ (2, ⟨.get (t.cacheKey "a"), answer⟩) :: older ∧
        ((∃ e, answer = .error e ∧ r = .error e) ∨
          ∃ value, r = .ok (.inr value) ∧
            LastSetJson boolCodec typedAndRead ∅ older t "a" value) := by
  intro t last
  have htyped : ∀ j t' data ttl, typedAndRead j = .raw ⟨t', .set "a" data ttl⟩ → t'.id ≠ t.id := by
    intro j t' data ttl hcall
    match j with
    | 0 => cases hcall
    | 1 =>
      cases hcall
      decide
    | 2 => cases hcall
  have hfaithful : ∀ value data,
      boolCodec.toVec value = .ok data → boolCodec.fromSlice data = .ok value := by
    intro value data h
    cases h
    cases value <;> rfl
  exact ⟨_, rfl, json_values_round_trip boolCodec typedAndRead ∅ _ hfaithful rfl htyped rfl rfl⟩

end Interleaved
end ArmatureTenancy

import ArmatureTenancy.Core.Construction
import ArmatureTenancy.Foundations.Programs

/-!
# PostgreSQL schema per tenant

`SchemaManager` hands the tenant's schema name to a provider, which has to
interpolate it into SQL text. The connection a call works on is part of the
environment's state.
-/

namespace ArmatureTenancy

open Foundations

/-- The methods of `SchemaProvider`, with the schema name each one is given. -/
inductive SchemaCall where
  | setSearchPath : (schemaName : String) → SchemaCall
  | schemaExists : (schemaName : String) → SchemaCall
  | createSchema : (schemaName : String) → SchemaCall
  | dropSchema : (schemaName : String) → SchemaCall

namespace SchemaCall

abbrev Answer : SchemaCall → Type
  | .schemaExists _ => Except TenantError Bool
  | .setSearchPath _ => Except TenantError Unit
  | .createSchema _ => Except TenantError Unit
  | .dropSchema _ => Except TenantError Unit

def schemaName : SchemaCall → String
  | .setSearchPath name => name
  | .schemaExists name => name
  | .createSchema name => name
  | .dropSchema name => name

end SchemaCall

abbrev SchemaM := ExceptT TenantError (Program SchemaCall SchemaCall.Answer)

def schemaCall (e : SchemaCall) : Program SchemaCall SchemaCall.Answer e.Answer := .perform e

namespace SchemaManager

def withSchemaName {α : Type} (tenant : Tenant) (provider : String → SchemaM α) : SchemaM α :=
  match tenant.schema with
  | some schemaName => provider schemaName
  | none => throw (.invalid "Tenant has no schema configured")

def setSearchPath (tenant : Tenant) : SchemaM Unit :=
  withSchemaName tenant fun schemaName => .mk (schemaCall (.setSearchPath schemaName))

def schemaExists (tenant : Tenant) : SchemaM Bool :=
  withSchemaName tenant fun schemaName => .mk (schemaCall (.schemaExists schemaName))

def createSchema (tenant : Tenant) : SchemaM Unit :=
  withSchemaName tenant fun schemaName => .mk (schemaCall (.createSchema schemaName))

def dropSchema (tenant : Tenant) : SchemaM Unit :=
  withSchemaName tenant fun schemaName => .mk (schemaCall (.dropSchema schemaName))

end SchemaManager

inductive SchemaOp where
  | setSearchPath | schemaExists | createSchema | dropSchema
  deriving DecidableEq

def SchemaOp.code (tenant : Tenant) : SchemaOp → SchemaM (Option Bool)
  | .setSearchPath => (fun _ => none) <$> SchemaManager.setSearchPath tenant
  | .schemaExists => some <$> SchemaManager.schemaExists tenant
  | .createSchema => (fun _ => none) <$> SchemaManager.createSchema tenant
  | .dropSchema => (fun _ => none) <$> SchemaManager.dropSchema tenant

def SchemaOp.call (schemaName : String) : SchemaOp → SchemaCall
  | .setSearchPath => .setSearchPath schemaName
  | .schemaExists => .schemaExists schemaName
  | .createSchema => .createSchema schemaName
  | .dropSchema => .dropSchema schemaName

def SchemaOp.reply (schemaName : String) :
    (op : SchemaOp) → (op.call schemaName).Answer → Except TenantError (Option Bool)
  | .schemaExists, answer => answer.map some
  | .setSearchPath, answer => answer.map fun _ => none
  | .createSchema, answer => answer.map fun _ => none
  | .dropSchema, answer => answer.map fun _ => none

theorem SchemaOp.code_none {tenant : Tenant} (h : tenant.schema = none) (op : SchemaOp) :
    (op.code tenant).run = .pure (.error (.invalid "Tenant has no schema configured")) := by
  cases op <;>
    simp only [SchemaOp.code, SchemaManager.setSearchPath, SchemaManager.schemaExists,
      SchemaManager.createSchema, SchemaManager.dropSchema, SchemaManager.withSchemaName, h] <;>
    rfl

theorem SchemaOp.code_some {tenant : Tenant} {schemaName : String}
    (h : tenant.schema = some schemaName) (op : SchemaOp) :
    (op.code tenant).run =
      .call (op.call schemaName) fun answer => .pure (op.reply schemaName answer) := by
  cases op <;>
    simp only [SchemaOp.code, SchemaManager.setSearchPath, SchemaManager.schemaExists,
      SchemaManager.createSchema, SchemaManager.dropSchema, SchemaManager.withSchemaName, h] <;>
    refine congrArg (Program.call _) (funext fun answer => ?_) <;>
    cases answer <;> rfl

/-- Whatever the provider does, every operation on the tenant passes it only
names that are safe to interpolate. -/
def PassesOnlyValidNames (tenant : Tenant) : Prop :=
  ∀ (op : SchemaOp) (C σ : Type) (provider : Environment C σ SchemaCall SchemaCall.Answer)
    (conn conn' : σ) (log : List (Exchange SchemaCall SchemaCall.Answer))
    (result : Except TenantError (Option Bool)),
    (op.code tenant).run.Runs provider conn log result conn' →
      ∀ x ∈ log, isValidSchemaName x.1.schemaName = true

/-- The one name that can reach the provider is the tenant's schema field. -/
theorem passesOnlyValidNames_iff (tenant : Tenant) :
    PassesOnlyValidNames tenant ↔
      ∀ schemaName, tenant.schema = some schemaName → isValidSchemaName schemaName = true := by
  constructor
  · intro h schemaName hschema
    have hrun : (SchemaOp.setSearchPath.code tenant).run.Runs
        (fun (_ : Unit) (_ : Unit) call => match call with
          | .schemaExists _ => some (.ok true, ())
          | .setSearchPath _ => some (.ok (), ())
          | .createSchema _ => some (.ok (), ())
          | .dropSchema _ => some (.ok (), ())) ()
        [⟨.setSearchPath schemaName, .ok ()⟩] (.ok none) () := by
      rw [SchemaOp.code_some hschema]
      exact .call (c := ()) rfl (.pure _ _)
    exact h .setSearchPath Unit Unit _ () () _ _ hrun _ (List.mem_singleton_self _)
  · intro h op C σ provider conn conn' log result hrun x hx
    cases hschema : tenant.schema with
    | none =>
      rw [op.code_none hschema, Program.runs_pure_iff] at hrun
      simp [hrun.1] at hx
    | some schemaName =>
      rw [op.code_some hschema, Program.runs_call_iff] at hrun
      obtain ⟨c, r, s₁, tail, -, rfl, hrun⟩ := hrun
      obtain ⟨rfl, -, -⟩ := Program.runs_pure_iff.mp hrun
      obtain rfl := List.mem_singleton.mp hx
      cases op <;> exact h schemaName hschema

/-- The schema name a path brings in unchecked is itself a valid name, or a
validating builder call replaces it. -/
def SchemaChecked {V : Type} (decoder : TenantDecoder V) (origin : TenantOrigin V)
    (calls : List BuilderCall) : Prop :=
  match origin with
  | .new _ _ => True
  | .deserialized value =>
    (∃ schema, .withSchema schema ∈ calls) ∨
      ∀ schema, decoder.schema value = some (some schema) → isValidSchemaName schema = true

theorem origin_schema {V : Type} {decoder : TenantDecoder V} {origin : TenantOrigin V}
    {t : Tenant} (h : origin.tenant decoder = some t) (schema : String) :
    t.schema = some schema ↔
      ∃ value, origin = .deserialized value ∧ decoder.schema value = some (some schema) := by
  cases origin with
  | new id name =>
    cases h
    simp [Tenant.new]
  | deserialized value =>
    obtain ⟨-, -, -, -, -, hschema, -⟩ := decoder.fills h
    simp [hschema]

/-- For every construction path: only valid schema names reach the provider
exactly when the path does not bring in an invalid one by deserialization alone. -/
theorem provider_names_valid_iff {V : Type} (decoder : TenantDecoder V) {origin : TenantOrigin V}
    {calls : List BuilderCall} {t : Tenant} (h : construct decoder origin calls = some t) :
    PassesOnlyValidNames t ↔ SchemaChecked decoder origin calls := by
  rw [passesOnlyValidNames_iff]
  obtain ⟨t₀, horigin, hbuild⟩ := Option.bind_eq_some_iff.mp h
  have hcalls : calls.foldlM BuilderCall.apply t₀ = .ok t := by
    cases hr : calls.foldlM BuilderCall.apply t₀ <;> simp_all [Except.toOption]
  rcases builder_schema hcalls with ⟨hnone, hschema⟩ | ⟨s, hs, hschema, hvalid⟩
  · rw [hschema]
    cases origin with
    | new id name => simp [origin_schema horigin, SchemaChecked]
    | deserialized value => simp [origin_schema horigin, SchemaChecked, hnone]
  · have hchecked : SchemaChecked decoder origin calls := by
      cases origin with
      | new id name => trivial
      | deserialized value => exact .inl ⟨s, hs⟩
    simp [hschema, hvalid, hchecked]

def injectedTenant : Json :=
  .object [("id", .string "t-1"), ("name", .string "acme"), ("display_name", .null),
    ("domain", .null), ("database", .null),
    ("schema", .string "public; DROP TABLE users --"), ("active", .bool true),
    ("metadata", .object [])]

theorem provider_names_valid_iff_replaced :
    let calls := [BuilderCall.withSchema "acme"]
    ∃ t, construct Tenant.jsonDecoder (.deserialized injectedTenant) calls = some t ∧
      PassesOnlyValidNames t := by
  intro calls
  obtain ⟨t, ht⟩ : ∃ t,
      construct Tenant.jsonDecoder (.deserialized injectedTenant) calls = some t := ⟨_, rfl⟩
  refine ⟨t, ht, (provider_names_valid_iff Tenant.jsonDecoder ht).mpr (Or.inl ⟨"acme", ?_⟩)⟩
  exact List.mem_singleton_self _

/-- Deserialization alone carries SQL text to the provider. -/
theorem injected_name_reaches_provider :
    ∃ t, construct Tenant.jsonDecoder (.deserialized injectedTenant) [] = some t ∧
      ¬ PassesOnlyValidNames t := by
  refine ⟨_, rfl, fun h => ?_⟩
  have hvalid := (passesOnlyValidNames_iff _).mp h "public; DROP TABLE users --" rfl
  exact absurd hvalid (by decide)

end ArmatureTenancy

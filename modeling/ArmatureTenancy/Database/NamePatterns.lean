import ArmatureTenancy.Core.Tenant
import ArmatureTenancy.Foundations.Templates

/-!
# Generated database and schema names

A name pattern has placeholders `{id}` and `{name}`. The name generated for a tenant
is meant to be the pattern with the tenant's id and name in their places; the code
replaces one placeholder after the other, so it also replaces a `{name}` that the
inserted id completes. The two agree exactly where no id does that.
-/

namespace ArmatureTenancy

open Foundations

/-- `str::replace`. -/
def strReplace (s old new : String) : String :=
  String.ofList (replace old.toList new.toList s.toList)

/-- The body that both name functions share. -/
def generatedName (namePattern : String) (tenant : Tenant) : String :=
  strReplace (strReplace namePattern "{id}" tenant.id) "{name}" tenant.name

structure TenantDatabaseConfig where
  namePattern : String
  autoCreate : Bool
  maxConnections : Option UInt32

namespace TenantDatabaseConfig

def new (namePattern : String) : TenantDatabaseConfig := ⟨namePattern, false, some 10⟩

def default : TenantDatabaseConfig := new "tenant_{id}"

def databaseName (config : TenantDatabaseConfig) (tenant : Tenant) : String :=
  generatedName config.namePattern tenant

end TenantDatabaseConfig

structure SchemaConfig where
  namePattern : String
  autoCreate : Bool
  defaultSchema : String

namespace SchemaConfig

def new (namePattern : String) : SchemaConfig := ⟨namePattern, false, "public"⟩

def default : SchemaConfig := new "tenant_{id}"

def schemaName (config : SchemaConfig) (tenant : Tenant) : String :=
  generatedName config.namePattern tenant

end SchemaConfig

/-- A pattern is text with two kinds of placeholders. -/
inductive PatternPart where
  | text : Char → PatternPart
  | id : PatternPart
  | name : PatternPart
  deriving DecidableEq

def patternParts : List Char → List PatternPart
  | '{' :: 'i' :: 'd' :: '}' :: w => .id :: patternParts w
  | '{' :: 'n' :: 'a' :: 'm' :: 'e' :: '}' :: w => .name :: patternParts w
  | c :: w => .text c :: patternParts w
  | [] => []

/-- Each placeholder stands for its value, and text for itself. -/
def substitute (id name : List Char) (parts : List PatternPart) : List Char :=
  parts.flatMap fun
    | .text c => [c]
    | .id => id
    | .name => name

def substituted (namePattern : String) (tenant : Tenant) : String :=
  String.ofList
    (substitute tenant.id.toList tenant.name.toList (patternParts namePattern.toList))

def idHoles (name : List Char) (parts : List PatternPart) : Template Char :=
  parts.flatMap fun
    | .text c => [some c]
    | .id => [none]
    | .name => name.map some

/-- The placeholders for the name are holes, and the id is written in for the others. -/
def nameHoles (id : List Char) (parts : List PatternPart) : Template Char :=
  parts.flatMap fun
    | .text c => [some c]
    | .id => id.map some
    | .name => [none]

theorem fill_idHoles (id name : List Char) (parts : List PatternPart) :
    fill id (idHoles name parts) = substitute id name parts := by
  rw [idHoles, fill_flatMap]
  apply List.flatMap_congr
  intro part _
  cases part <;> simp

theorem fill_nameHoles (id name : List Char) (parts : List PatternPart) :
    fill name (nameHoles id parts) = substitute id name parts := by
  rw [nameHoles, fill_flatMap]
  apply List.flatMap_congr
  intro part _
  cases part <;> simp

theorem toList_idPlaceholder : "{id}".toList = '{' :: ['i', 'd', '}'] := by decide

theorem toList_namePlaceholder : "{name}".toList = '{' :: ['n', 'a', 'm', 'e', '}'] := by decide

theorem holes_id (w : List Char) :
    holes "{id}".toList w = idHoles "{name}".toList (patternParts w) := by
  rw [toList_idPlaceholder, toList_namePlaceholder]
  fun_induction patternParts w with
  | case1 w ih =>
    rw [idHoles, List.flatMap_cons, ← idHoles, ← ih]
    exact holes_match '{' ['i', 'd', '}'] w
  | case2 w ih =>
    have hstart : ¬ '{' :: ['i', 'd', '}'] <+: '{' :: ('n' :: 'a' :: 'm' :: 'e' :: '}' :: w) := by
      simp
    have hrest := holes_letters (o := '{') ['i', 'd', '}'] (u := ['n', 'a', 'm', 'e', '}'])
      (by decide) w
    rw [idHoles, List.flatMap_cons, ← idHoles, ← ih, holes_cons hstart]
    exact congrArg (some '{' :: ·) hrest
  | case3 c w hid hname ih =>
    have hstart : ¬ '{' :: ['i', 'd', '}'] <+: c :: w := by
      rintro ⟨rest, hrest⟩
      simp only [List.cons_append, List.nil_append, List.cons.injEq] at hrest
      exact hid rest hrest.1.symm hrest.2.symm
    rw [idHoles, List.flatMap_cons, ← idHoles, ← ih, holes_cons hstart]
    rfl
  | case4 => rfl

/-- The letters `{name}` occur in the pattern with the id written in, apart from the
pattern's own placeholders for the name. -/
def CompletesName (namePattern id : String) : Prop :=
  "{name}".toList.map some <:+: nameHoles id.toList (patternParts namePattern.toList)

instance (namePattern id : String) : Decidable (CompletesName namePattern id) :=
  inferInstanceAs (Decidable (_ <:+: _))

theorem replace_replace_eq_iff (id name w : List Char) :
    replace "{name}".toList name (replace "{id}".toList id w) =
        substitute id name (patternParts w) ↔
      name = "{name}".toList ∨ ¬ "{name}".toList.map some <:+: nameHoles id (patternParts w) := by
  have hfirst : replace "{id}".toList id w =
      fill "{name}".toList (nameHoles id (patternParts w)) := by
    rw [replace, holes_id, fill_idHoles, fill_nameHoles]
  have hopen : '{' ∉ ['n', 'a', 'm', 'e', '}'] := by decide
  rw [hfirst, ← fill_nameHoles, toList_namePlaceholder]
  exact replace_fill_eq_iff hopen name _

theorem generatedName_eq_iff (namePattern : String) (tenant : Tenant) :
    generatedName namePattern tenant = substituted namePattern tenant ↔
      tenant.name = "{name}" ∨ ¬ CompletesName namePattern tenant.id := by
  have hlists := replace_replace_eq_iff tenant.id.toList tenant.name.toList namePattern.toList
  rw [String.toList_inj] at hlists
  unfold generatedName substituted strReplace CompletesName
  rw [String.ofList_inj, ← hlists,
    String.toList_ofList (l := replace "{id}".toList tenant.id.toList namePattern.toList)]

theorem idHoles_of_nameless {parts : List PatternPart} (h : .name ∉ parts)
    (name name' : List Char) : idHoles name parts = idHoles name' parts := by
  apply List.flatMap_congr
  intro part hpart
  cases part with
  | text c => rfl
  | id => rfl
  | name => exact absurd hpart h

theorem none_mem_idHoles {parts : List PatternPart} (h : .id ∈ parts) (name : List Char) :
    none ∈ idHoles name parts :=
  List.mem_flatMap.mpr ⟨.id, h, List.mem_singleton.mpr rfl⟩

/-- Under a pattern with a placeholder for the id and none for the name, substitution
gives tenants of different ids different names. -/
theorem substituted_injective {namePattern : String}
    (hid : .id ∈ patternParts namePattern.toList) (hname : .name ∉ patternParts namePattern.toList)
    {a b : Tenant} (h : substituted namePattern a = substituted namePattern b) : a.id = b.id := by
  rw [substituted, substituted, String.ofList_inj, ← fill_idHoles, ← fill_idHoles,
    idHoles_of_nameless hname a.name.toList b.name.toList] at h
  exact String.toList_inj.mp (fill_injective (none_mem_idHoles hid b.name.toList) h)

/-- What is asked of the names generated from a pattern, for two tenants. -/
def NamesApart (nameOf : Tenant → String) (namePattern : String) (a b : Tenant) : Prop :=
  nameOf a = substituted namePattern a ∧ nameOf b = substituted namePattern b ∧
    (.id ∈ patternParts namePattern.toList → .name ∉ patternParts namePattern.toList →
      a.id ≠ b.id → nameOf a ≠ nameOf b)

/-- Replacing `{name}` after `{id}` finds no more than the pattern's own placeholders, or
changes nothing. -/
def NotRescanned (namePattern : String) (tenant : Tenant) : Prop :=
  tenant.name = "{name}" ∨ ¬ CompletesName namePattern tenant.id

theorem namesApart_iff (namePattern : String) (a b : Tenant) :
    NamesApart (generatedName namePattern) namePattern a b ↔
      NotRescanned namePattern a ∧ NotRescanned namePattern b := by
  unfold NamesApart NotRescanned
  rw [← generatedName_eq_iff, ← generatedName_eq_iff]
  constructor
  · rintro ⟨ha, hb, -⟩
    exact ⟨ha, hb⟩
  · rintro ⟨ha, hb⟩
    refine ⟨ha, hb, ?_⟩
    intro hid hname hne heq
    rw [ha, hb] at heq
    exact hne (substituted_injective hid hname heq)

/-- Database and schema names are simultaneous substitutions and keep two tenants apart,
exactly if for both tenants the id completes no `{name}` in the pattern or the tenant's
name is `{name}` itself. -/
theorem generated_names_apart_iff (database : TenantDatabaseConfig) (schema : SchemaConfig)
    (a b : Tenant) :
    (NamesApart database.databaseName database.namePattern a b ↔
      NotRescanned database.namePattern a ∧ NotRescanned database.namePattern b) ∧
    (NamesApart schema.schemaName schema.namePattern a b ↔
      NotRescanned schema.namePattern a ∧ NotRescanned schema.namePattern b) :=
  ⟨namesApart_iff database.namePattern a b, namesApart_iff schema.namePattern a b⟩

/-- Under the default pattern a tenant whose id is `{name}` shares its database and its
schema with the tenant whose id is its name. -/
theorem placeholder_id_shares_names :
    let a := Tenant.new "{name}" "t-2"
    let b := Tenant.new "t-2" "globex"
    a.id ≠ b.id ∧
      TenantDatabaseConfig.default.databaseName a = "tenant_t-2" ∧
      TenantDatabaseConfig.default.databaseName b = "tenant_t-2" ∧
      SchemaConfig.default.schemaName a = SchemaConfig.default.schemaName b ∧
      substituted "tenant_{id}" a = "tenant_{name}" := by
  decide

/-- An id can also complete a placeholder with text of the pattern around it. -/
example : CompletesName "{{id}}" "name" ∧ ¬ CompletesName "tenant_{id}" "name" := by decide

end ArmatureTenancy

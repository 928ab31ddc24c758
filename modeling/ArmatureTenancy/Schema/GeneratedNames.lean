import ArmatureTenancy.Database.NamePatterns
import ArmatureTenancy.Schema.Grammar
import ArmatureTenancy.Schema.Identifiers

/-!
# Generated schema names

`SchemaConfig::schema_name` writes an unchecked id into a pattern. The name is fit for
`with_schema` exactly if the pattern and the tenant's values are made of identifier
characters and are short enough together, and an id with any other character spoils it.
Accepted names denote different schemas up to the case of the letters of the ids.
-/

namespace ArmatureTenancy

open Foundations

def PatternPart.width (tenant : Tenant) : PatternPart → ℕ
  | .text _ => 1
  | .id => tenant.id.length
  | .name => tenant.name.length

/-- The pattern, with the tenant's values, spells a PostgreSQL identifier. -/
structure SpellsIdentifier (parts : List PatternPart) (tenant : Tenant) : Prop where
  start : ∃ c ∈ (substitute tenant.id.toList tenant.name.toList parts).head?, IdentifierStart c
  text : ∀ c, .text c ∈ parts → IdentifierPart c
  id : .id ∈ parts → ∀ c ∈ tenant.id.toList, IdentifierPart c
  name : .name ∈ parts → ∀ c ∈ tenant.name.toList, IdentifierPart c
  short : (parts.map (PatternPart.width tenant)).sum ≤ maxIdentifierLen

theorem length_substitute (tenant : Tenant) (parts : List PatternPart) :
    (substitute tenant.id.toList tenant.name.toList parts).length =
      (parts.map (PatternPart.width tenant)).sum := by
  rw [substitute, List.length_flatMap]
  congr 1
  apply List.map_congr_left
  intro part _
  cases part <;> simp only [PatternPart.width, List.length_singleton, String.length_toList]

theorem forall_mem_substitute {p : Char → Prop} {id name : List Char}
    {parts : List PatternPart} :
    (∀ c ∈ substitute id name parts, p c) ↔
      (∀ c, .text c ∈ parts → p c) ∧ (.id ∈ parts → ∀ c ∈ id, p c) ∧
        (.name ∈ parts → ∀ c ∈ name, p c) := by
  constructor
  · intro h
    refine ⟨fun c hc => ?_, fun hid c hc => ?_, fun hname c hc => ?_⟩
    · exact h c (List.mem_flatMap.mpr ⟨_, hc, List.mem_singleton_self c⟩)
    · exact h c (List.mem_flatMap.mpr ⟨_, hid, hc⟩)
    · exact h c (List.mem_flatMap.mpr ⟨_, hname, hc⟩)
  · rintro ⟨htext, hid, hname⟩ c hc
    obtain ⟨part, hpart, hc⟩ := List.mem_flatMap.mp hc
    cases part with
    | text d => exact List.mem_singleton.mp hc ▸ htext d hpart
    | id => exact hid hpart c hc
    | name => exact hname hpart c hc

theorem utf8Len_of_ascii {w : List Char} (h : ∀ c ∈ w, c.toNat < 128) :
    String.utf8Len w = w.length := by
  induction w with
  | nil => rfl
  | cons c w ih =>
    rw [List.forall_mem_cons] at h
    have hc : c.utf8Size = 1 := by
      rw [Char.utf8Size_eq_one_iff, UInt32.le_iff_toNat_le]
      exact Nat.le_of_lt_succ h.1
    rw [String.utf8Len_cons, hc, ih h.2, List.length_cons]

theorem mem_identifiers_iff_head {w : List Char} :
    w ∈ identifiers ↔ (∃ c ∈ w.head?, IdentifierStart c) ∧ ∀ c ∈ w, IdentifierPart c := by
  constructor
  · intro hw
    refine ⟨?_, fun c hc => identifierPart_of_mem hw hc⟩
    obtain ⟨c, v, rfl, hc, -⟩ := mem_identifiers_iff.mp hw
    exact ⟨c, rfl, hc⟩
  · rintro ⟨⟨c, hhead, hc⟩, hparts⟩
    obtain ⟨v, rfl⟩ := List.head?_eq_some_iff.mp hhead
    exact mem_identifiers_iff.mpr ⟨c, v, rfl, hc, fun d hd => hparts d (List.mem_cons_of_mem c hd)⟩

theorem schemaNameWord_iff_length (name : String) :
    SchemaNameWord name ↔ name.toList ∈ identifiers ∧ name.toList.length ≤ maxIdentifierLen := by
  apply and_congr_right
  intro hword
  have hsize : name.utf8ByteSize = name.toList.length := by
    rw [← String.utf8Len_toList, utf8Len_of_ascii]
    exact fun c hc => (identifierPart_of_mem hword hc).isAscii
  obtain ⟨c, v, hname, -⟩ := mem_identifiers_iff.mp hword
  have hpositive : 1 ≤ name.toList.length := by
    rw [hname]
    exact Nat.succ_pos _
  rw [hsize]
  exact and_iff_right hpositive

theorem schemaNameWord_substituted_iff (namePattern : String) (tenant : Tenant) :
    SchemaNameWord (substituted namePattern tenant) ↔
      SpellsIdentifier (patternParts namePattern.toList) tenant := by
  rw [schemaNameWord_iff_length, substituted, String.toList_ofList, mem_identifiers_iff_head,
    forall_mem_substitute, length_substitute]
  constructor
  · rintro ⟨⟨hstart, htext, hid, hname⟩, hshort⟩
    exact ⟨hstart, htext, hid, hname, hshort⟩
  · rintro ⟨hstart, htext, hid, hname, hshort⟩
    exact ⟨⟨hstart, htext, hid, hname⟩, hshort⟩

/-- Under a pattern with a placeholder for the id and none for the name, folding merges
names of tenants whose ids it merges, and no others. -/
theorem toLower_substituted_eq_iff {namePattern : String}
    (hid : .id ∈ patternParts namePattern.toList)
    (hname : .name ∉ patternParts namePattern.toList) (a b : Tenant) :
    (substituted namePattern a).toList.map Char.toLower =
        (substituted namePattern b).toList.map Char.toLower ↔
      List.Forall₂ SameLetter a.id.toList b.id.toList := by
  rw [← map_toLower_eq_iff, substituted, substituted, String.toList_ofList, String.toList_ofList,
    ← fill_idHoles, ← fill_idHoles, idHoles_of_nameless hname a.name.toList b.name.toList,
    map_fill, map_fill]
  have hhole : none ∈ (idHoles b.name.toList (patternParts namePattern.toList)).map
      (Option.map Char.toLower) :=
    List.mem_map.mpr ⟨none, none_mem_idHoles hid _, rfl⟩
  exact (fill_injective hhole).eq_iff

/-- Neither replacement takes a character of the id away unless `{name}` has it. -/
theorem mem_generatedName {namePattern : String} (hid : .id ∈ patternParts namePattern.toList)
    {tenant : Tenant} {c : Char} (hc : c ∈ tenant.id.toList) (hkept : c ∉ "{name}".toList) :
    c ∈ (generatedName namePattern tenant).toList := by
  have hfirst : c ∈ replace "{id}".toList tenant.id.toList namePattern.toList := by
    rw [replace, holes_id, mem_fill]
    exact .inr ⟨none_mem_idHoles hid _, hc⟩
  rw [toList_namePlaceholder] at hkept
  rw [generatedName, strReplace, strReplace, toList_namePlaceholder, String.toList_ofList,
    String.toList_ofList]
  exact mem_replace hkept hfirst

theorem withSchema_schemaName_iff {config : SchemaConfig} {tenant tenant' : Tenant}
    (h : NotRescanned config.namePattern tenant) :
    tenant.withSchema (config.schemaName tenant) = .ok tenant' ↔
      SpellsIdentifier (patternParts config.namePattern.toList) tenant ∧
        tenant' = { tenant with schema := some (substituted config.namePattern tenant) } := by
  rw [Tenant.withSchema_ok_iff, SchemaConfig.schemaName, (generatedName_eq_iff _ _).mpr h,
    isValidSchemaName_iff, schemaNameWord_substituted_iff]

theorem schemaIdentifier_of_withSchema {tenant tenant' : Tenant} {schema : String}
    (h : tenant.withSchema schema = .ok tenant') :
    tenant'.schemaIdentifier = some (String.ofList (schema.toList.map Char.toLower)) := by
  obtain ⟨hvalid, rfl⟩ := Tenant.withSchema_ok_iff.mp h
  rw [Tenant.schemaIdentifier, Option.map_some, postgresIdentifier_of_valid hvalid]

/-- Where no id completes a `{name}`, the tenant accepts its generated name exactly if the
pattern spells an identifier with its values; if the pattern has a place for the id and none
for the name, two tenants that accepted theirs share a schema exactly if their ids differ in
the case of letters only; and an id with a character that is neither a brace nor part of an
identifier is never accepted in a place of its own. -/
theorem generated_schemas_iff (config : SchemaConfig) :
    let parts := patternParts config.namePattern.toList
    (∀ tenant tenant' : Tenant, NotRescanned config.namePattern tenant →
      (tenant.withSchema (config.schemaName tenant) = .ok tenant' ↔
        SpellsIdentifier parts tenant ∧
          tenant' = { tenant with schema := some (substituted config.namePattern tenant) })) ∧
    (.id ∈ parts → .name ∉ parts → ∀ a a' b b' : Tenant,
      NotRescanned config.namePattern a → NotRescanned config.namePattern b →
      a.withSchema (config.schemaName a) = .ok a' → b.withSchema (config.schemaName b) = .ok b' →
      (a'.schemaIdentifier = b'.schemaIdentifier ↔
        List.Forall₂ SameLetter a.id.toList b.id.toList)) ∧
    (.id ∈ parts → ∀ (tenant tenant' : Tenant) (c : Char), c ∈ tenant.id.toList →
      c ≠ '{' → c ≠ '}' → ¬ IdentifierPart c →
      tenant.withSchema (config.schemaName tenant) ≠ .ok tenant') := by
  refine ⟨fun _ _ h => withSchema_schemaName_iff h, ?_, ?_⟩
  · intro hid hname a a' b b' ha hb ha' hb'
    rw [schemaIdentifier_of_withSchema ha', schemaIdentifier_of_withSchema hb',
      Option.some_inj, String.ofList_inj, SchemaConfig.schemaName, SchemaConfig.schemaName,
      (generatedName_eq_iff _ _).mpr ha, (generatedName_eq_iff _ _).mpr hb]
    exact toLower_substituted_eq_iff hid hname a b
  · intro hid tenant tenant' c hc hopen hclose hpart haccepted
    have hvalid := (isValidSchemaName_iff _).mp (Tenant.withSchema_ok_iff.mp haccepted).1
    have hletters : (['n', 'a', 'm', 'e'].all fun d => d.isAlphanum || d == '_') = true := by
      decide
    have hkept : c ∉ "{name}".toList := by
      rw [toList_namePlaceholder]
      intro hmem
      simp only [List.mem_cons, hopen, hclose, List.not_mem_nil, or_false, false_or] at hmem
      have hletter := List.all_eq_true.mp hletters c (by simpa using hmem)
      exact hpart ((identifierPart_iff c).mpr hletter)
    exact hpart (identifierPart_of_mem hvalid.1 (mem_generatedName hid hc hkept))

theorem generated_schemas_iff_default :
    let config := SchemaConfig.default
    let parts := patternParts config.namePattern.toList
    let acme := Tenant.new "acme" "a"
    let capital := Tenant.new "Acme" "b"
    let hyphen := Tenant.new "t-1" "c"
    SpellsIdentifier parts acme ∧ SpellsIdentifier parts capital ∧
      (∃ t u, acme.withSchema (config.schemaName acme) = .ok t ∧
        capital.withSchema (config.schemaName capital) = .ok u ∧
        t.schemaIdentifier = u.schemaIdentifier) ∧
      ∀ t, hyphen.withSchema (config.schemaName hyphen) ≠ .ok t := by
  intro config parts acme capital hyphen
  obtain ⟨haccepted, halias, hrejected⟩ := generated_schemas_iff SchemaConfig.default
  have hacme : acme.withSchema (config.schemaName acme) = .ok _ :=
    Tenant.withSchema_ok_iff.mpr ⟨by decide, rfl⟩
  have hcapital : capital.withSchema (config.schemaName capital) = .ok _ :=
    Tenant.withSchema_ok_iff.mpr ⟨by decide, rfl⟩
  have hkept : NotRescanned config.namePattern acme ∧ NotRescanned config.namePattern capital :=
    ⟨.inr (by decide), .inr (by decide)⟩
  refine ⟨((haccepted acme _ hkept.1).mp hacme).1, ((haccepted capital _ hkept.2).mp hcapital).1,
    ⟨_, _, hacme, hcapital, ?_⟩, fun t => ?_⟩
  · exact (halias (by decide) (by decide) acme _ capital _ hkept.1 hkept.2 hacme hcapital).mpr
      (by decide)
  · refine hrejected (by decide) hyphen t '-' (by decide) (by decide) (by decide) ?_
    rw [identifierPart_iff]
    decide

end ArmatureTenancy

import ArmatureTenancy.Core.Tenant
import ArmatureTenancy.Foundations.Texts

/-!
# The grammar of schema names

`is_valid_schema_name` looks at the byte length, then takes the first character off
an iterator and checks the rest of it. What it accepts is the language
`[A-Za-z_][A-Za-z0-9_]*`, cut off at 63 bytes, so an accepted name is made of
characters that mean nothing else in SQL text.
-/

namespace ArmatureTenancy

open Foundations

def IdentifierStart (c : Char) : Prop :=
  ('A' ≤ c ∧ c ≤ 'Z') ∨ ('a' ≤ c ∧ c ≤ 'z') ∨ c = '_'

def IdentifierPart (c : Char) : Prop := IdentifierStart c ∨ ('0' ≤ c ∧ c ≤ '9')

def identifiers : Language Char :=
  letters IdentifierStart * KStar.kstar (letters IdentifierPart)

/-- A word of the grammar whose UTF-8 encoding has between 1 and 63 bytes. -/
def SchemaNameWord (name : String) : Prop :=
  name.toList ∈ identifiers ∧ 1 ≤ name.utf8ByteSize ∧ name.utf8ByteSize ≤ 63

theorem mem_identifiers_iff {w : List Char} :
    w ∈ identifiers ↔ ∃ c v, w = c :: v ∧ IdentifierStart c ∧ ∀ d ∈ v, IdentifierPart d := by
  simp only [identifiers, mem_letters_mul, mem_kstar_letters]

theorem identifierStart_iff (c : Char) :
    IdentifierStart c ↔ (c.isAlpha || c == '_') = true := by
  change _ ↔ (decide ('A'.val ≤ c.val ∧ c.val ≤ 'Z'.val) ||
    ('a'.val ≤ c.val && c.val ≤ 'z'.val) || c == '_') = true
  simp [IdentifierStart, Char.le_def, or_assoc]

theorem identifierPart_iff (c : Char) :
    IdentifierPart c ↔ (c.isAlphanum || c == '_') = true := by
  rw [IdentifierPart, identifierStart_iff]
  simp [Char.isAlphanum, Char.isDigit, Char.le_def, or_right_comm]

theorem firstOk_iff (chars : List Char) :
    ((chars.head?.any fun c => c.isAlpha || c == '_') &&
      chars.tail.all fun c => c.isAlphanum || c == '_') = true ↔ chars ∈ identifiers := by
  rw [mem_identifiers_iff]
  cases chars with
  | nil => simp
  | cons c v =>
    rw [List.head?_cons, Option.any_some, List.tail_cons, Bool.and_eq_true, List.all_eq_true,
      ← identifierStart_iff]
    simp only [← identifierPart_iff]
    constructor
    · rintro ⟨hc, hv⟩
      exact ⟨c, v, rfl, hc, hv⟩
    · rintro ⟨c', v', heq, hc, hv⟩
      cases heq
      exact ⟨hc, hv⟩

theorem isValidSchemaName_iff (name : String) :
    isValidSchemaName name = true ↔ SchemaNameWord name := by
  have hempty : name.isEmpty = true ↔ name.utf8ByteSize = 0 := by
    rw [String.isEmpty_iff_utf8ByteSize_eq_zero]
  unfold isValidSchemaName SchemaNameWord maxIdentifierLen
  rw [← firstOk_iff]
  split
  · next hbound =>
    simp only [Bool.or_eq_true, hempty, decide_eq_true_eq] at hbound
    apply iff_of_false Bool.false_ne_true
    rintro ⟨-, hpositive, hshort⟩
    omega
  · next hbound =>
    simp only [Bool.or_eq_true, hempty, decide_eq_true_eq, not_or] at hbound
    obtain ⟨hpositive, hshort⟩ := hbound
    exact (and_iff_left ⟨by omega, by omega⟩).symm

/-- White space, quotes, and what separates names, ends statements, opens comments or
forms operators in SQL text. -/
def sqlSpecials : List Char := " \t\n\x0b\x0c\r'\"`$;,.:()[]-/*#\\%@=<>|&!?~^+".toList

instance (c : Char) : Decidable (IdentifierPart c) :=
  inferInstanceAs (Decidable ((('A' ≤ c ∧ c ≤ 'Z') ∨ ('a' ≤ c ∧ c ≤ 'z') ∨ c = '_') ∨
    ('0' ≤ c ∧ c ≤ '9')))

theorem IdentifierPart.isAscii {c : Char} (h : IdentifierPart c) : c.toNat < 128 := by
  simp only [IdentifierPart, IdentifierStart, Char.le_def, UInt32.le_iff_toNat_le] at h
  change ((65 ≤ c.toNat ∧ c.toNat ≤ 90) ∨ (97 ≤ c.toNat ∧ c.toNat ≤ 122) ∨ c = '_') ∨
    (48 ≤ c.toNat ∧ c.toNat ≤ 57) at h
  rcases h with (h | h | rfl) | h
  · omega
  · omega
  · decide
  · omega

theorem IdentifierPart.notMem_sqlSpecials {c : Char} (h : IdentifierPart c) : c ∉ sqlSpecials := by
  have hnone : (sqlSpecials.all fun d => !decide (IdentifierPart d)) = true := by decide
  intro hc
  simpa [h] using List.all_eq_true.mp hnone c hc

theorem identifierPart_of_mem {w : List Char} (hw : w ∈ identifiers) {c : Char} (hc : c ∈ w) :
    IdentifierPart c := by
  obtain ⟨d, v, rfl, hd, hv⟩ := mem_identifiers_iff.mp hw
  rcases List.mem_cons.mp hc with rfl | hc
  · exact .inl hd
  · exact hv c hc

/-- The validator accepts a string exactly if it is a word of its grammar; the builder
succeeds on exactly these words, and sets the schema and nothing else; and an accepted
name is ASCII text of letters, digits and underscores, without white space and without any
character special to SQL. -/
theorem schema_names_are_identifiers (name : String) :
    (isValidSchemaName name = true ↔ SchemaNameWord name) ∧
    (∀ t t' : Tenant, t.withSchema name = .ok t' ↔
      SchemaNameWord name ∧ t' = { t with schema := some name }) ∧
    (isValidSchemaName name = true → ∀ c ∈ name.toList,
      IdentifierPart c ∧ c.toNat < 128 ∧ c ∉ sqlSpecials) := by
  refine ⟨isValidSchemaName_iff name, ?_, ?_⟩
  · intro t t'
    rw [Tenant.withSchema_ok_iff, isValidSchemaName_iff]
  · intro hvalid c hc
    have hpart := identifierPart_of_mem ((isValidSchemaName_iff name).mp hvalid).1 hc
    exact ⟨hpart, hpart.isAscii, hpart.notMem_sqlSpecials⟩

end ArmatureTenancy

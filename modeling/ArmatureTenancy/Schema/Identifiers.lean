import ArmatureTenancy.Core.Tenant
import Mathlib

/-!
# Which PostgreSQL schema a name denotes

PostgreSQL folds an unquoted ASCII identifier to lower case and cuts it at 63
bytes. The length bound of `is_valid_schema_name` makes the cut harmless; the
folding still merges names that differ in the case of letters only.
-/

namespace ArmatureTenancy

/-- The schema that `name` denotes as a bare unquoted ASCII identifier. -/
def postgresIdentifier (name : String) : String :=
  String.ofList ((name.toList.map Char.toLower).take maxIdentifierLen)

def Tenant.schemaIdentifier (tenant : Tenant) : Option String :=
  tenant.schema.map postgresIdentifier

/-- The two characters are equal, or one is the upper-case form of the other. -/
def SameLetter (c d : Char) : Prop := c = d ∨ c = d.toUpper ∨ d = c.toUpper

instance (c d : Char) : Decidable (SameLetter c d) := inferInstanceAs (Decidable (_ ∨ _ ∨ _))

theorem toLower_eq_iff (c d : Char) : c.toLower = d.toLower ↔ SameLetter c d := by
  constructor
  · intro h
    have hupper : c.toUpper = d.toUpper := by
      rw [← Char.toUpper_toLower_eq_toUpper, h, Char.toUpper_toLower_eq_toUpper]
    by_cases hc : c.isLower
    · by_cases hd : d.isLower
      · rw [Char.toLower_eq_of_not_isUpper (Char.not_isUpper_of_isLower hc),
          Char.toLower_eq_of_not_isUpper (Char.not_isUpper_of_isLower hd)] at h
        exact .inl h
      · rw [Char.toUpper_eq_of_not_isLower hd] at hupper
        exact .inr (.inr hupper.symm)
    · rw [Char.toUpper_eq_of_not_isLower hc] at hupper
      exact .inr (.inl hupper)
  · intro h
    rcases h with rfl | rfl | rfl
    · rfl
    · exact Char.toLower_toUpper_eq_toLower d
    · exact (Char.toLower_toUpper_eq_toLower c).symm

theorem map_toLower_eq_iff (v w : List Char) :
    v.map Char.toLower = w.map Char.toLower ↔ List.Forall₂ SameLetter v w := by
  rw [← List.forall₂_eq_eq_eq, List.forall₂_map_left_iff, List.forall₂_map_right_iff]
  simp only [toLower_eq_iff]

theorem length_le_utf8ByteSize (s : String) : s.toList.length ≤ s.utf8ByteSize := by
  rw [← String.utf8Len_toList]
  induction s.toList with
  | nil => simp
  | cons c cs ih =>
    have hc := c.utf8Size_pos
    simp only [List.length_cons, String.utf8Len_cons]
    omega

theorem isValidSchemaName_length {name : String} (h : isValidSchemaName name = true) :
    name.toList.length ≤ maxIdentifierLen := by
  have hsize : ¬ maxIdentifierLen < name.utf8ByteSize := by
    intro hlong
    simp [isValidSchemaName, hlong] at h
  have hlength := length_le_utf8ByteSize name
  omega

/-- The cut at 63 bytes never applies to an accepted name. -/
theorem postgresIdentifier_of_valid {name : String} (h : isValidSchemaName name = true) :
    postgresIdentifier name = String.ofList (name.toList.map Char.toLower) := by
  have hlength := isValidSchemaName_length h
  rw [postgresIdentifier, List.take_of_length_le (by simpa using hlength)]

/-- Accepted names denote one schema exactly when they differ in the case of letters only. -/
theorem postgresIdentifier_eq_iff {a b : String} (ha : isValidSchemaName a = true)
    (hb : isValidSchemaName b = true) :
    postgresIdentifier a = postgresIdentifier b ↔ List.Forall₂ SameLetter a.toList b.toList := by
  rw [postgresIdentifier_of_valid ha, postgresIdentifier_of_valid hb, String.ofList_inj,
    map_toLower_eq_iff]

/-- Different accepted names denote different schemas, also as the schemas of
two tenants, unless they are one name in two capitalizations. -/
theorem schema_names_alias_iff {a b : String} (ha : isValidSchemaName a = true)
    (hb : isValidSchemaName b = true) :
    ((a ≠ b → postgresIdentifier a ≠ postgresIdentifier b) ↔
        a = b ∨ ¬ List.Forall₂ SameLetter a.toList b.toList) ∧
      ∀ t u : Tenant, ∃ t' u', t.withSchema a = .ok t' ∧ u.withSchema b = .ok u' ∧
        ((t'.schema ≠ u'.schema →
            t'.schema.map postgresIdentifier ≠ u'.schema.map postgresIdentifier) ↔
          a = b ∨ ¬ List.Forall₂ SameLetter a.toList b.toList) := by
  have hnames : (a ≠ b → postgresIdentifier a ≠ postgresIdentifier b) ↔
      a = b ∨ ¬ List.Forall₂ SameLetter a.toList b.toList := by
    rw [ne_eq, ne_eq, postgresIdentifier_eq_iff ha hb, or_iff_not_imp_left]
  refine ⟨hnames, fun t u => ⟨_, _, Tenant.withSchema_ok_iff.mpr ⟨ha, rfl⟩,
    Tenant.withSchema_ok_iff.mpr ⟨hb, rfl⟩, ?_⟩⟩
  simpa using hnames

theorem schema_names_alias_iff_acme :
    postgresIdentifier "tenant_Acme" ≠ postgresIdentifier "tenant_bolt" :=
  (schema_names_alias_iff (by decide) (by decide)).1.mpr (.inr (by decide)) (by decide)

/-- Two accepted names, one schema. -/
theorem capitalized_names_alias :
    let a := "tenant_Acme"
    let b := "tenant_acme"
    isValidSchemaName a = true ∧ isValidSchemaName b = true ∧ a ≠ b ∧
      postgresIdentifier a = postgresIdentifier b := by
  decide

end ArmatureTenancy

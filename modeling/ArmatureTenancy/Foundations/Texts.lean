import Mathlib.Computability.Language
import Mathlib.Data.List.TakeWhile

/-!
# Words, fronts and segments of texts

A text is a list of letters. This module has the words over an alphabet, the part
of a text before its first separator, the texts that end in a given one, and the
segments between separators. Joining texts with a separator loses nothing but where
the texts have separators of their own: the segments of the joined text are those
of the texts, one text after the other.
-/

namespace ArmatureTenancy.Foundations

variable {α : Type*}

def letters (p : α → Prop) : Language α := {w | ∃ c, w = [c] ∧ p c}

theorem mem_letters_mul {p : α → Prop} {l : Language α} {w : List α} :
    w ∈ letters p * l ↔ ∃ c v, w = c :: v ∧ p c ∧ v ∈ l := by
  rw [Language.mem_mul]
  constructor
  · rintro ⟨_, ⟨c, rfl, hc⟩, v, hv, rfl⟩
    exact ⟨c, v, rfl, hc, hv⟩
  · rintro ⟨c, v, rfl, hc, hv⟩
    exact ⟨[c], ⟨c, rfl, hc⟩, v, hv, rfl⟩

theorem mem_kstar_letters {p : α → Prop} {w : List α} :
    w ∈ KStar.kstar (letters p) ↔ ∀ c ∈ w, p c := by
  rw [Language.mem_kstar]
  constructor
  · rintro ⟨words, rfl, hwords⟩ c hc
    obtain ⟨word, hword, hcword⟩ := List.mem_flatten.mp hc
    obtain ⟨d, rfl, hd⟩ := hwords word hword
    rw [List.mem_singleton.mp hcword]
    exact hd
  · intro h
    refine ⟨w.map fun c => [c], ?_, ?_⟩
    · simp [← List.flatMap_def]
    · intro word hword
      obtain ⟨c, hc, rfl⟩ := List.mem_map.mp hword
      exact ⟨c, rfl, h c hc⟩

section Separators

variable [DecidableEq α] {sep : α}

theorem eq_takeWhile_or (sep : α) (w : List α) :
    w = w.takeWhile (· ≠ sep) ∨ ∃ v, w = w.takeWhile (· ≠ sep) ++ sep :: v := by
  induction w with
  | nil => exact .inl rfl
  | cons c w ih =>
    by_cases hc : c = sep
    · subst hc
      exact .inr ⟨w, by simp⟩
    · rw [List.takeWhile_cons_of_pos (by simpa using hc)]
      rcases ih with ih | ⟨v, ih⟩
      · exact .inl (congrArg (c :: ·) ih)
      · exact .inr ⟨v, congrArg (c :: ·) ih⟩

theorem takeWhile_ne_eq_iff {w u : List α} :
    w.takeWhile (· ≠ sep) = u ↔ sep ∉ u ∧ (w = u ∨ ∃ v, w = u ++ sep :: v) := by
  constructor
  · rintro rfl
    refine ⟨?_, eq_takeWhile_or sep w⟩
    intro hmem
    simpa using List.mem_takeWhile_imp hmem
  · rintro ⟨hu, hw⟩
    have hall : ∀ c ∈ u, decide (c ≠ sep) = true := by
      intro c hc
      simpa using ne_of_mem_of_not_mem hc hu
    rcases hw with rfl | ⟨v, rfl⟩
    · exact List.takeWhile_eq_self_iff.mpr hall
    · rw [List.takeWhile_append_of_pos hall]
      simp

/-- The segments between the separators of texts joined with separators. Joining no
texts at all gives the empty text, which is one segment. -/
def segments (sep : α) (texts : List (List α)) : List (List α) :=
  if texts = [] then [[]] else texts.flatMap fun text => text.splitOn sep

theorem splitOn_intercalate_eq_segments (texts : List (List α)) :
    ([sep].intercalate texts).splitOn sep = segments sep texts := by
  induction texts with
  | nil => simp [segments]
  | cons text texts ih =>
    cases texts with
    | nil => simp [segments]
    | cons next texts =>
      rw [List.intercalate_cons_cons, List.append_assoc, List.singleton_append,
        List.splitOn_append_cons_self, ih]
      simp [segments]

/-- Texts join to the same text exactly when they have the same segments. -/
theorem intercalate_eq_iff {texts texts' : List (List α)} :
    [sep].intercalate texts = [sep].intercalate texts' ↔
      segments sep texts = segments sep texts' := by
  rw [← splitOn_intercalate_eq_segments, ← splitOn_intercalate_eq_segments]
  constructor
  · intro h
    rw [h]
  · intro h
    calc [sep].intercalate texts
        = [sep].intercalate (([sep].intercalate texts).splitOn sep) :=
          (List.intercalate_splitOn sep).symm
      _ = [sep].intercalate (([sep].intercalate texts').splitOn sep) := by rw [h]
      _ = [sep].intercalate texts' := List.intercalate_splitOn sep

theorem segments_of_notMem {texts : List (List α)} (h : ∀ text ∈ texts, sep ∉ text) :
    segments sep texts = if texts = [] then [[]] else texts := by
  by_cases hempty : texts = []
  · simp [segments, hempty]
  · rw [if_neg hempty, ← splitOn_intercalate_eq_segments, List.splitOn_intercalate sep h hempty]

end Separators
end ArmatureTenancy.Foundations

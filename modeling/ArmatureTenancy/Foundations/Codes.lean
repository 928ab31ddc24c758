import Mathlib.Data.List.Infix
import Mathlib.Data.Nat.Basic

/-!
# Length-prefixed string codes

A code is prefix-free when its output can be split off the front of any longer
string in one way only. Printing the byte length of a string in decimal, then a
separator, then the string itself has this property for arbitrary strings: the
separator is no digit, so the length is read back first, and two strings of one
byte length at the front of the same text are equal.
-/

namespace ArmatureTenancy.Foundations

variable {α : Type*}

/-- The code word of `a` can be split off the front of any text in one way. -/
def PrefixFree (f : α → String) : Prop :=
  ∀ a b s t, f a ++ s = f b ++ t → a = b ∧ s = t

theorem PrefixFree.startsWith_iff {f : α → String} (hf : PrefixFree f) (a b : α) (t : String) :
    (f b ++ t).startsWith (f a) = true ↔ a = b := by
  rw [String.startsWith_string_iff]
  constructor
  · rintro ⟨rest, h⟩
    have h' : f a ++ String.ofList rest = f b ++ t := by
      rw [← String.toList_inj]
      simpa using h
    exact (hf _ _ _ _ h').1
  · rintro rfl
    simp

/-- A text that begins with a code word determines the word and what follows it. -/
theorem PrefixFree.append_eq_iff {f : α → String} (hf : PrefixFree f) (a b : α) (s t : String) :
    f a ++ s = f b ++ t ↔ a = b ∧ s = t := by
  constructor
  · exact hf a b s t
  · rintro ⟨rfl, rfl⟩
    rfl

theorem PrefixFree.prepend {f : α → String} (hf : PrefixFree f) (p : String) :
    PrefixFree fun a => p ++ f a := by
  intro a b s t h
  rw [String.append_assoc, String.append_assoc] at h
  exact hf a b s t (by simpa using h)

theorem append_inj_of_size {a b s t : String} (h : a ++ s = b ++ t)
    (hsize : a.utf8ByteSize = b.utf8ByteSize) : a = b ∧ s = t := by
  have hab : a = b := by
    rw [← String.toByteArray_inj] at h ⊢
    rw [String.toByteArray_append, String.toByteArray_append] at h
    exact ByteArray.append_inj_left h hsize
  subst hab
  exact ⟨rfl, by simpa using h⟩

theorem toDigits_ten_injective : Function.Injective (Nat.toDigits 10) := by
  intro n m h
  rw [← Nat.ofDigitChars_ten_toDigits (n := n), h, Nat.ofDigitChars_ten_toDigits]

theorem append_cons_inj {β : Type*} [DecidableEq β] {x y s t : List β} {sep : β} (hx : sep ∉ x)
    (hy : sep ∉ y) (h : x ++ sep :: s = y ++ sep :: t) : x = y ∧ s = t := by
  have front (z u : List β) (hz : sep ∉ z) : (z ++ sep :: u).takeWhile (· ≠ sep) = z := by
    rw [List.takeWhile_append_of_pos (fun a ha => by simpa using ne_of_mem_of_not_mem ha hz)]
    simp
  have hxy : x = y := by rw [← front x s hx, h, front y t hy]
  subst hxy
  simpa using h

theorem decimal_append_inj {n m : ℕ} {sep : Char} (hsep : sep.isDigit = false) {s t : String}
    (h : toString n ++ (sep.toString ++ s) = toString m ++ (sep.toString ++ t)) :
    n = m ∧ s = t := by
  have hnot (k : ℕ) : sep ∉ Nat.toDigits 10 k := fun hmem => by
    simp [Nat.isDigit_of_mem_toDigits (by omega) (by omega) hmem] at hsep
  rw [← String.toList_inj] at h
  simp only [String.toList_append, Nat.toString_eq_repr, Nat.toList_repr, Char.toString,
    String.toList_singleton, List.singleton_append] at h
  obtain ⟨hdigits, hrest⟩ := append_cons_inj (hnot n) (hnot m) h
  exact ⟨toDigits_ten_injective hdigits, by simpa [← String.toList_inj] using hrest⟩

/-- The byte length in decimal, the separator, the string, and the separator again. -/
def lengthPrefixed (sep : Char) (a : String) : String :=
  toString a.utf8ByteSize ++ (sep.toString ++ (a ++ sep.toString))

theorem lengthPrefixed_prefixFree {sep : Char} (hsep : sep.isDigit = false) :
    PrefixFree (lengthPrefixed sep) := by
  intro a b s t h
  simp only [lengthPrefixed, String.append_assoc] at h
  obtain ⟨hsize, hrest⟩ := decimal_append_inj hsep h
  obtain ⟨hab, htail⟩ := append_inj_of_size hrest hsize
  exact ⟨hab, by simpa using htail⟩

end ArmatureTenancy.Foundations

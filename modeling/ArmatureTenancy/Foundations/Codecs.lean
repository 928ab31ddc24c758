import ArmatureTenancy.Foundations.Maps
import Mathlib.Data.Option.NAry
import Mathlib.Logic.Function.Basic

/-!
# Codecs

How values of a type are written in an exchange format and read back. A reader is also
told when a value is missing. What is read is the same as what was written up to a
relation, since a format need not keep everything: a hash map has no order. An absent
optional value is written as null and read where the value is null or missing, so of two
levels of absence only the outer one is read back.
-/

namespace ArmatureTenancy.Foundations

/-- How values are written, and read; `none` is a missing value. -/
structure Codec (V α : Type*) where
  write : α → V
  read : Option V → Option α

namespace Codec

variable {V α : Type*} (codec : Codec V α)

def Restores (same : α → α → Prop) (a : α) : Prop :=
  ∃ b, codec.read (some (codec.write a)) = some b ∧ same a b

variable {codec} in
theorem restores_eq_iff {a : α} :
    codec.Restores (· = ·) a ↔ codec.read (some (codec.write a)) = some a := by
  simp [Restores]

section Optional

variable (null : V) (isNull : V → Bool)

def optional : Codec V (Option α) where
  write
    | none => null
    | some a => codec.write a
  read
    | none => some none
    | some value => if isNull value then some none else (codec.read (some value)).map some

variable {codec null isNull}

theorem restores_optional (hnull : isNull null = true) {same : α → α → Prop} {a : Option α}
    (h : ∀ x ∈ a, isNull (codec.write x) = false ∧ codec.Restores same x) :
    (codec.optional null isNull).Restores (Option.Rel same) a := by
  cases a with
  | none => exact ⟨none, if_pos hnull, .none⟩
  | some x =>
    obtain ⟨hwritten, b, hread, hsame⟩ := h x rfl
    have hpresent : (codec.optional null isNull).read (some (codec.write x)) =
        (codec.read (some (codec.write x))).map some :=
      if_neg (by simp [hwritten])
    exact ⟨some b, hpresent.trans (congrArg (Option.map some) hread), .some hsame⟩

theorem read_write_optional (hnull : isNull null = true) {a : Option α}
    (h : ∀ x ∈ a, isNull (codec.write x) = false ∧ codec.read (some (codec.write x)) = some x) :
    (codec.optional null isNull).read (some ((codec.optional null isNull).write a)) = some a := by
  have hrestores : (codec.optional null isNull).Restores (Option.Rel (· = ·)) a :=
    restores_optional hnull fun x hx => (h x hx).imp_right restores_eq_iff.mpr
  obtain ⟨b, hread, hsame⟩ := hrestores
  cases hsame with
  | none => exact hread
  | some heq => exact heq ▸ hread

theorem read_write_optional_optional (hnull : isNull null = true)
    (h : ∀ x, isNull (codec.write x) = false ∧ codec.read (some (codec.write x)) = some x)
    (a : Option (Option α)) :
    ((codec.optional null isNull).optional null isNull).read
      (some (((codec.optional null isNull).optional null isNull).write a)) =
        some (a.filter Option.isSome) := by
  match a with
  | none => exact read_write_optional hnull (by simp)
  | some none => exact if_pos hnull
  | some (some x) =>
    refine read_write_optional hnull fun y hy => ?_
    obtain rfl := Option.some.inj hy
    exact ⟨(h x).1, read_write_optional hnull fun z _ => h z⟩

end Optional

section Maps

variable {κ ν : Type*} [DecidableEq κ]

def writeEntries (write : ν → V) (map : AList fun _ : κ => ν) : List (κ × V) :=
  map.entries.map fun entry => (entry.1, write entry.2)

/-- Later members replace earlier ones. -/
def readEntries (read : V → Option ν) (members : List (κ × V)) : Option (AList fun _ : κ => ν) :=
  members.foldlM (fun map member => (read member.2).map (map.insert member.1 ·)) ∅

theorem readEntries_writeEntries (write : ν → V) (read : V → Option ν)
    (h : ∀ v, read (write v) = some v) (map : AList fun _ : κ => ν) :
    ∃ map', readEntries read (writeEntries write map) = some map' ∧ SameContents map map' := by
  have hfold (entries : List (Sigma fun _ : κ => ν)) (start : AList fun _ : κ => ν) :
      (entries.map fun entry => (entry.1, write entry.2)).foldlM
          (fun map member => (read member.2).map (map.insert member.1 ·)) start =
        some (entries.foldl (fun map entry => map.insert entry.1 entry.2) start) := by
    induction entries generalizing start with
    | nil => rfl
    | cons entry entries ih =>
      rw [List.map_cons, List.foldlM_cons, h, Option.map_some, Option.bind_eq_bind,
        Option.bind_some, ih, List.foldl_cons]
  refine ⟨_, hfold map.entries ∅, fun key => ?_⟩
  rw [lookup_foldl_insert ∅ map.nodupKeys, AList.lookup_empty, Option.or_none]
  rfl

end Maps
end Codec
end ArmatureTenancy.Foundations

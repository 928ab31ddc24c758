import Mathlib.Data.List.Infix

/-!
# Templates and text replacement

A template is a text with holes. Replacing `old` by `new` in a text takes the
occurrences of `old` from the left, without overlap, makes each of them a hole and
fills the holes with `new`. If the first letter of `old` does not come back in `old`,
occurrences never overlap, and replacing `old` in a template filled with `old` fills
the template with `new` unless the template spells `old` in its own letters.
-/

namespace ArmatureTenancy.Foundations

variable {α : Type*}

/-- A text with holes. -/
abbrev Template (α : Type*) := List (Option α)

def fill (new : List α) (t : Template α) : List α := t.flatMap fun p => p.elim new fun c => [c]

@[simp] theorem fill_nil (new : List α) : fill new [] = [] := rfl

@[simp] theorem fill_none (new : List α) (t : Template α) :
    fill new (none :: t) = new ++ fill new t := rfl

@[simp] theorem fill_some (new : List α) (c : α) (t : Template α) :
    fill new (some c :: t) = c :: fill new t := rfl

@[simp] theorem fill_append (new : List α) (t u : Template α) :
    fill new (t ++ u) = fill new t ++ fill new u := List.flatMap_append

theorem fill_flatMap {β : Type*} (new : List α) (l : List β) (f : β → Template α) :
    fill new (l.flatMap f) = l.flatMap fun x => fill new (f x) := List.flatMap_assoc

@[simp] theorem fill_letters (new w : List α) : fill new (w.map some) = w := by
  induction w with
  | nil => rfl
  | cons c w ih => rw [List.map_cons, fill_some, ih]

theorem mem_fill {new : List α} {t : Template α} {c : α} :
    c ∈ fill new t ↔ some c ∈ t ∨ (none ∈ t ∧ c ∈ new) := by
  induction t with
  | nil => simp
  | cons p t ih =>
    cases p with
    | none =>
      rw [fill_none, List.mem_append, ih]
      simp only [List.mem_cons, reduceCtorEq, false_or, true_or, true_and]
      tauto
    | some d =>
      rw [fill_some, List.mem_cons, ih]
      simp only [List.mem_cons, Option.some.injEq, reduceCtorEq, false_or]
      tauto

theorem map_fill {β : Type*} (f : α → β) (new : List α) (t : Template α) :
    (fill new t).map f = fill (new.map f) (t.map (Option.map f)) := by
  induction t with
  | nil => rfl
  | cons p t ih =>
    cases p with
    | none => rw [fill_none, List.map_append, ih, List.map_cons, Option.map_none, fill_none]
    | some c => rw [fill_some, List.map_cons, ih, List.map_cons, Option.map_some, fill_some]

theorem length_fill (new : List α) (t : Template α) :
    (fill new t).length = t.countP Option.isSome + t.countP Option.isNone * new.length := by
  induction t with
  | nil => simp
  | cons p t ih =>
    cases p with
    | none =>
      simp only [fill_none, List.length_append, ih, List.countP_cons, Option.isSome_none,
        Option.isNone_none, Bool.false_eq_true, if_false, if_true, Nat.add_mul, Nat.one_mul]
      omega
    | some c =>
      simp only [fill_some, List.length_cons, ih, List.countP_cons, Option.isSome_some,
        Option.isNone_some, Bool.false_eq_true, if_false, if_true, Nat.add_zero]
      omega

theorem fill_injective {t : Template α} (h : none ∈ t) :
    Function.Injective fun new => fill new t := by
  intro new new' heq
  have hlength : new.length = new'.length := by
    have hsum := congrArg List.length heq
    simp only [length_fill, Nat.add_left_cancel_iff] at hsum
    exact Nat.eq_of_mul_eq_mul_left (List.countP_pos_iff.mpr ⟨none, h, rfl⟩) hsum
  induction t with
  | nil => exact absurd h List.not_mem_nil
  | cons p t ih =>
    cases p with
    | none => exact List.append_inj_left heq hlength
    | some c => exact ih (by simpa using h) (List.cons.inj heq).2

/-- The second template is read from the text of the first one, filled with `old`: the
holes are found again, and `k` more are made of letters that spell `old`. -/
inductive ReadBack (old : List α) : Template α → Template α → ℕ → Prop
  | nil : ReadBack old [] [] 0
  | hole {t u : Template α} {k : ℕ} : ReadBack old t u k → ReadBack old (none :: t) (none :: u) k
  | letter {t u : Template α} {k : ℕ} (c : α) : ¬ old.map some <+: some c :: t →
      ReadBack old t u k → ReadBack old (some c :: t) (some c :: u) k
  | spelled {t u : Template α} {k : ℕ} :
      ReadBack old t u k → ReadBack old (old.map some ++ t) (none :: u) (k + 1)

theorem letters_prefix_of_fill {o : α} {body u : List α} (hu : o ∉ u) {t : Template α}
    (h : u <+: fill (o :: body) t) : u.map some <+: t := by
  induction u generalizing t with
  | nil => exact List.nil_prefix
  | cons c u ih =>
    rw [List.mem_cons, not_or] at hu
    match t with
    | [] => simp at h
    | none :: t =>
      rw [fill_none, List.cons_append, List.cons_prefix_cons] at h
      exact absurd h.1.symm hu.1
    | some d :: t =>
      rw [fill_some, List.cons_prefix_cons] at h
      obtain ⟨rfl, hrest⟩ := h
      exact List.cons_prefix_cons.mpr ⟨rfl, ih hu.2 hrest⟩

namespace ReadBack

variable {old : List α} {t u : Template α} {k : ℕ}

theorem eq_of_zero (h : ReadBack old t u 0) : u = t := by
  generalize hk : 0 = k at h
  induction h with
  | nil => rfl
  | hole _ ih => rw [ih hk]
  | letter c _ _ ih => rw [ih hk]
  | spelled _ _ => exact absurd hk (Nat.succ_ne_zero _).symm

theorem fill_old (h : ReadBack old t u k) : fill old u = fill old t := by
  induction h with
  | nil => rfl
  | hole _ ih => rw [fill_none, fill_none, ih]
  | letter c _ _ ih => rw [fill_some, fill_some, ih]
  | spelled _ ih => rw [fill_none, fill_append, fill_letters, ih]

theorem zero_iff {o : α} {body : List α} (h : ReadBack (o :: body) t u k) :
    k = 0 ↔ ¬ (o :: body).map some <:+: t := by
  induction h with
  | nil => simp
  | hole _ ih =>
    rw [ih, List.infix_cons_iff, List.map_cons, List.cons_prefix_cons]
    simp
  | letter c hstart _ ih =>
    rw [ih, List.infix_cons_iff]
    simp only [hstart, false_or]
  | spelled _ _ =>
    apply iff_of_false (Nat.succ_ne_zero _)
    exact fun hnot => hnot (List.prefix_append _ _).isInfix

theorem length_fill (new : List α) (h : ReadBack old t u k) :
    (fill new u).length + k * old.length = (fill new t).length + k * new.length := by
  induction h with
  | nil => simp
  | hole _ ih =>
    simp only [fill_none, List.length_append]
    omega
  | letter c _ _ ih =>
    simp only [fill_some, List.length_cons]
    omega
  | spelled _ ih =>
    simp only [fill_none, fill_append, fill_letters, List.length_append, Nat.add_mul, Nat.one_mul]
    omega

theorem eq_old_of_fill_eq {new : List α} (h : ReadBack old t u k)
    (heq : fill new u = fill new t) : k = 0 ∨ new = old := by
  induction h with
  | nil => exact .inl rfl
  | hole _ ih => exact ih (List.append_cancel_left heq)
  | letter c _ _ ih => exact ih (List.cons.inj heq).2
  | @spelled t u k htail _ =>
    rw [fill_none, fill_append, fill_letters] at heq
    have hlength := htail.length_fill new
    have hsum := congrArg List.length heq
    rw [List.length_append, List.length_append] at hsum
    have hscaled : (k + 1) * new.length = (k + 1) * old.length := by
      rw [Nat.add_mul, Nat.add_mul, Nat.one_mul, Nat.one_mul]
      omega
    exact .inr (List.append_inj_left heq (Nat.eq_of_mul_eq_mul_left k.succ_pos hscaled))

end ReadBack

section Replace

variable [DecidableEq α]

/-- The holes are the occurrences of `old`, taken from the left. The first `skip` letters
belong to an occurrence already taken. -/
def holesFrom (old : List α) : ℕ → List α → Template α
  | _, [] => []
  | skip + 1, _ :: w => holesFrom old skip w
  | 0, c :: w =>
    if old.isPrefixOf (c :: w) then none :: holesFrom old (old.length - 1) w
    else some c :: holesFrom old 0 w

def holes (old w : List α) : Template α := holesFrom old 0 w

/-- Every occurrence of `old`, taken from the left without overlap, becomes `new`. -/
def replace (old new w : List α) : List α := fill new (holes old w)

theorem holesFrom_length (old u w : List α) : holesFrom old u.length (u ++ w) = holes old w := by
  induction u with
  | nil => rfl
  | cons c u ih => exact ih

theorem holes_match (o : α) (body w : List α) :
    holes (o :: body) (o :: body ++ w) = none :: holes (o :: body) w := by
  have hprefix : (o :: body).isPrefixOf (o :: (body ++ w)) = true := by
    rw [List.isPrefixOf_iff_prefix, ← List.cons_append]
    exact List.prefix_append _ _
  rw [List.cons_append, holes, holesFrom, if_pos hprefix, List.length_cons, Nat.add_sub_cancel,
    holesFrom_length]

theorem holes_cons {old : List α} {c : α} {w : List α} (h : ¬ old <+: c :: w) :
    holes old (c :: w) = some c :: holes old w := by
  rw [holes, holesFrom, if_neg (by rwa [List.isPrefixOf_iff_prefix])]
  rfl

theorem holes_letters {o : α} (body : List α) {u : List α} (hu : o ∉ u) (w : List α) :
    holes (o :: body) (u ++ w) = u.map some ++ holes (o :: body) w := by
  induction u with
  | nil => rfl
  | cons c u ih =>
    rw [List.mem_cons, not_or] at hu
    have hstart : ¬ o :: body <+: c :: (u ++ w) := by
      intro h
      exact hu.1 (List.cons_prefix_cons.mp h).1
    rw [List.cons_append, holes_cons hstart, ih hu.2, List.map_cons, List.cons_append]

theorem some_mem_holes {o : α} {body : List α} {c : α} (hc : c ∉ o :: body) {w : List α} :
    some c ∈ holes (o :: body) w ↔ c ∈ w := by
  induction hn : w.length using Nat.strong_induction_on generalizing w with
  | _ n ih =>
    subst hn
    match w with
    | [] => exact iff_of_false List.not_mem_nil List.not_mem_nil
    | d :: w =>
      by_cases hstart : o :: body <+: d :: w
      · obtain ⟨rest, hrest⟩ := hstart
        have hshort : rest.length < (d :: w).length := by
          rw [← hrest, List.length_append, List.length_cons]
          omega
        rw [← hrest, holes_match, List.mem_cons, ih rest.length hshort rfl, List.mem_append]
        simp [hc]
      · rw [holes_cons hstart, List.mem_cons, Option.some.injEq,
          ih w.length (Nat.lt_succ_self _) rfl, List.mem_cons]

theorem mem_replace {o : α} {body new w : List α} {c : α} (hc : c ∉ o :: body) (h : c ∈ w) :
    c ∈ replace (o :: body) new w :=
  mem_fill.mpr (.inl ((some_mem_holes hc).mpr h))

theorem readBack_holes_fill {o : α} {body : List α} (hbody : o ∉ body) (t : Template α) :
    ∃ k, ReadBack (o :: body) t (holes (o :: body) (fill (o :: body) t)) k := by
  induction hn : t.length using Nat.strong_induction_on generalizing t with
  | _ n ih =>
    subst hn
    match t with
    | [] => exact ⟨0, .nil⟩
    | none :: t =>
      obtain ⟨k, hk⟩ := ih t.length (Nat.lt_succ_self _) t rfl
      rw [fill_none, holes_match]
      exact ⟨k, .hole hk⟩
    | some c :: t =>
      by_cases hspelled : (o :: body).map some <+: some c :: t
      · obtain ⟨rest, hrest⟩ := hspelled
        have hshort : rest.length < (some c :: t).length := by
          rw [← hrest, List.length_append, List.length_map, List.length_cons]
          omega
        obtain ⟨k, hk⟩ := ih rest.length hshort rest rfl
        rw [← hrest, fill_append, fill_letters, holes_match]
        exact ⟨k + 1, .spelled hk⟩
      · obtain ⟨k, hk⟩ := ih t.length (Nat.lt_succ_self _) t rfl
        have hstart : ¬ o :: body <+: c :: fill (o :: body) t := by
          intro h
          obtain ⟨rfl, hrest⟩ := List.cons_prefix_cons.mp h
          exact hspelled (List.cons_prefix_cons.mpr ⟨rfl, letters_prefix_of_fill hbody hrest⟩)
        rw [fill_some, holes_cons hstart]
        exact ⟨k, .letter c hspelled hk⟩

/-- Replacement in the filled template fills the template, exactly if it puts back what it
takes or the template does not spell `old` in its own letters. -/
theorem replace_fill_eq_iff {o : α} {body : List α} (hbody : o ∉ body) (new : List α)
    (t : Template α) :
    replace (o :: body) new (fill (o :: body) t) = fill new t ↔
      new = o :: body ∨ ¬ (o :: body).map some <:+: t := by
  obtain ⟨k, hread⟩ := readBack_holes_fill hbody t
  rw [replace, ← hread.zero_iff]
  constructor
  · intro heq
    exact (hread.eq_old_of_fill_eq heq).symm
  · rintro (rfl | rfl)
    · exact hread.fill_old
    · rw [hread.eq_of_zero]

end Replace
end ArmatureTenancy.Foundations

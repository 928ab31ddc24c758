import ArmatureTenancy.Foundations.Disciplines

/-!
# Phases of programs and mutual exclusion

How far a program has come can be read off its own last exchange. Where some of
the phases stand for holding a lock, one program at most is in such a phase as
long as the lock is taken by programs only while no one holds it, and every
program that holds it moves between its own phases only.
-/

namespace ArmatureTenancy.Foundations

variable {ι E Φ : Type*} {R : E → Type*} [DecidableEq ι] (idle : Φ) (next : Exchange E R → Φ)

/-- The phase a program's last exchange has left it in. -/
def phase (i : ι) (h : History ι E R) : Φ := (lastOwn i (fun x => some (next x)) h).getD idle

variable {idle next} {i j : ι} {x : Exchange E R} {h h' : History ι E R}

theorem phase_cons_self (idle : Φ) (next : Exchange E R → Φ) (i : ι) (x : Exchange E R)
    (h : History ι E R) : phase idle next i ((i, x) :: h) = next x := by
  rw [phase, lastOwn_cons_some (b := next x) rfl, Option.getD_some]

theorem OthersMoved.phase_eq (moved : OthersMoved i h h') :
    phase idle next i h' = phase idle next i h := by
  rw [phase, moved.lastOwn_eq, phase]

theorem phase_cons_other (hne : j ≠ i) :
    phase idle next i ((j, x) :: h) = phase idle next i h :=
  (OthersMoved.cons (j, x) hne).phase_eq

/-- A program that is not idle has an exchange that left it in its phase, and
only others moved since. -/
theorem exists_of_phase (hphase : phase idle next i h ≠ idle) :
    ∃ x older, OthersMoved i ((i, x) :: older) h ∧ next x = phase idle next i h := by
  induction h with
  | nil => exact absurd rfl hphase
  | cons y h ih =>
    obtain ⟨j, x⟩ := y
    by_cases hj : j = i
    · subst hj
      exact ⟨x, h, .refl _ _, (phase_cons_self _ _ _ _ _).symm⟩
    · rw [phase_cons_other hj] at hphase ⊢
      obtain ⟨x', older, moved, hx'⟩ := ih hphase
      exact ⟨x', older, moved.trans (.cons (j, x) hj), hx'⟩

/-- One program at most is in a phase that holds the lock, and then the lock is taken. -/
structure Exclusive (idle : Φ) (next : Exchange E R → Φ) (holds : Φ → Prop) (locked : Bool)
    (h : History ι E R) : Prop where
  taken : ∀ i, holds (phase idle next i h) → locked = true
  unique : ∀ i j, holds (phase idle next i h) → holds (phase idle next j h) → i = j

namespace Exclusive

variable {holds : Φ → Prop} {locked locked' : Bool}

theorem enter (free : Exclusive idle next holds false h) (i : ι) (x : Exchange E R) :
    Exclusive idle next holds true ((i, x) :: h) := by
  have honly (j : ι) (hj : holds (phase idle next j ((i, x) :: h))) : j = i := by
    by_contra hne
    rw [phase_cons_other (Ne.symm hne)] at hj
    cases free.taken j hj
  constructor
  · intro j _
    rfl
  · intro j k hj hk
    rw [honly j hj, honly k hk]

theorem move (hex : Exclusive idle next holds locked h) (hin : holds (phase idle next i h))
    (hkeep : holds (next x) → locked' = true) :
    Exclusive idle next holds locked' ((i, x) :: h) := by
  have honly (j : ι) (hj : holds (phase idle next j ((i, x) :: h))) : j = i := by
    by_contra hne
    rw [phase_cons_other (Ne.symm hne)] at hj
    exact hne (hex.unique j i hj hin)
  constructor
  · intro j hj
    have hji := honly j hj
    subst hji
    rw [phase_cons_self] at hj
    exact hkeep hj
  · intro j k hj hk
    rw [honly j hj, honly k hk]

theorem pass (hex : Exclusive idle next holds locked h) (hout : ¬ holds (next x)) :
    Exclusive idle next holds locked ((i, x) :: h) := by
  have hbefore (j : ι) (hj : holds (phase idle next j ((i, x) :: h))) :
      holds (phase idle next j h) := by
    by_cases hji : i = j
    · subst hji
      rw [phase_cons_self] at hj
      exact absurd hj hout
    · rwa [phase_cons_other hji] at hj
  constructor
  · intro j hj
    exact hex.taken j (hbefore j hj)
  · intro j k hj hk
    exact hex.unique j k (hbefore j hj) (hbefore k hk)

end Exclusive
end ArmatureTenancy.Foundations

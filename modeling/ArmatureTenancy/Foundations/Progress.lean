import ArmatureTenancy.Foundations.Serial
import Mathlib.Algebra.BigOperators.Group.Finset.Basic
import Mathlib.Algebra.Order.BigOperators.Group.Finset

/-!
# Progress

Programs of bounded depth make a bounded number of calls. If in every configuration
that can come up some unfinished program is not kept waiting, then every round in which
all programs get a turn makes progress, and enough rounds finish them all.
-/

namespace ArmatureTenancy.Foundations

variable {ι C σ E : Type*} {R : E → Type*} {α : Type*}

def Program.AtMost : ℕ → Program E R α → Prop
  | _, .pure _ => True
  | 0, .call _ _ => False
  | n + 1, .call _ rest => ∀ r, (rest r).AtMost n

theorem Program.atMost_pure (n : ℕ) (a : α) : (Program.pure a : Program E R α).AtMost n := by
  cases n <;> trivial

namespace Config

variable (env : Environment C σ E R) (cfg : Config ι σ E R α)

/-- Whatever its environment chooses, the next call of program `i` does not have to wait. -/
def CanMove (i : ι) : Prop :=
  ∃ e rest, cfg.program i = .call e rest ∧ ∀ c, env c cfg.state e ≠ none

variable [DecidableEq ι] {env cfg}

theorem CanMove.step {i : ι} (h : cfg.CanMove env i) (c : C) :
    ∃ e rest r s, cfg.program i = .call e rest ∧
      cfg.step env (i, c) = cfg.advance i e r s (rest r) := by
  obtain ⟨e, rest, hp, hanswers⟩ := h
  obtain ⟨⟨r, s⟩, hr⟩ := Option.ne_none_iff_exists'.mp (hanswers c)
  exact ⟨e, rest, r, s, hp, cfg.step_call env hp hr⟩

theorem finished_step {i : ι} (h : (cfg.program i).Finished) (turn : ι × C) :
    ((cfg.step env turn).program i).Finished := by
  rcases cfg.step_cases env turn with heq | ⟨e, rest, r, s, hp, -, heq⟩
  · rw [heq]
    exact h
  · have hne : i ≠ turn.1 := by
      rintro rfl
      rw [hp] at h
      exact h
    rw [heq, advance]
    simpa [hne] using h

theorem finished_run {i : ι} (h : (cfg.program i).Finished) (schedule : List (ι × C)) :
    ((cfg.run env schedule).program i).Finished :=
  run_induction env cfg (P := fun cfg => (cfg.program i).Finished) h
    (fun _ turn hcfg => finished_step hcfg turn) schedule

theorem CanMove.round {i : ι} (h : cfg.CanMove env i) {round : List (ι × C)}
    (hi : i ∈ round.map Prod.fst) : cfg.run env round ≠ cfg := by
  have grows (turn : ι × C) (round : List (ι × C)) {e : E} {r : R e} {s : σ} {p : Program E R α}
      (heq : cfg.step env turn = cfg.advance turn.1 e r s p) :
      (cfg.step env turn).run env round ≠ cfg := by
    intro hrun
    have hlength := ((cfg.step env turn).history_suffix env round).length_le
    rw [hrun, heq, advance, List.length_cons] at hlength
    omega
  induction round with
  | nil => cases hi
  | cons turn round ih =>
    rw [run_cons]
    rcases List.mem_cons.mp hi with rfl | hi
    · obtain ⟨e, rest, r, s, -, hmoved⟩ := h.step turn.2
      exact grows turn round hmoved
    · rcases cfg.step_cases env turn with heq | ⟨e, rest, r, s, -, -, heq⟩
      · rw [heq]
        exact ih hi
      · exact grows turn round heq

variable [Fintype ι]

def Bounded (cfg : Config ι σ E R α) (bound : ℕ) : Prop :=
  ∃ f : ι → ℕ, (∀ i, (cfg.program i).AtMost (f i)) ∧ ∑ i, f i ≤ bound

theorem Bounded.step {bound : ℕ} (h : cfg.Bounded bound) (turn : ι × C) :
    cfg.step env turn = cfg ∨ ∃ less < bound, (cfg.step env turn).Bounded less := by
  rcases cfg.step_cases env turn with heq | ⟨e, rest, r, s, hp, -, heq⟩
  · exact .inl heq
  · right
    obtain ⟨f, hf, hsum⟩ := h
    have hturn := hf turn.1
    rw [hp] at hturn
    cases hn : f turn.1 with
    | zero =>
      rw [hn] at hturn
      exact hturn.elim
    | succ n =>
      rw [hn] at hturn
      have hless : ∑ i, Function.update f turn.1 n i < ∑ i, f i := by
        apply Finset.sum_lt_sum
        · intro i _
          by_cases hi : i = turn.1
          · subst hi
            simp [hn]
          · simp [hi]
        · exact ⟨turn.1, Finset.mem_univ _, by simp [hn]⟩
      refine ⟨_, hless.trans_le hsum, Function.update f turn.1 n, ?_, le_rfl⟩
      intro i
      rw [heq, advance]
      by_cases hi : i = turn.1
      · subst hi
        simpa using hturn r
      · simpa [hi] using hf i

theorem Bounded.run {bound : ℕ} (h : cfg.Bounded bound) (schedule : List (ι × C)) :
    cfg.run env schedule = cfg ∨ ∃ less < bound, (cfg.run env schedule).Bounded less := by
  induction schedule generalizing cfg bound with
  | nil => exact .inl rfl
  | cons turn schedule ih =>
    have hturn : cfg.step env turn = cfg ∨ _ := h.step turn
    rcases hturn with heq | ⟨less, hless, hstep⟩
    · rw [run_cons, heq]
      exact ih h
    · right
      rcases ih hstep with heq | ⟨less', hless', hrun⟩
      · rw [run_cons, heq]
        exact ⟨less, hless, hstep⟩
      · exact ⟨less', hless'.trans hless, hrun⟩

theorem Bounded.after {bound : ℕ} (h : cfg.Bounded bound) (schedule : List (ι × C)) :
    (cfg.run env schedule).Bounded bound := by
  have hrun : cfg.run env schedule = cfg ∨ _ := h.run schedule
  rcases hrun with heq | ⟨less, hless, f, hf, hsum⟩
  · rw [heq]
    exact h
  · exact ⟨f, hf, hsum.trans hless.le⟩

omit [DecidableEq ι] in
theorem Bounded.finished (h : cfg.Bounded 0) (i : ι) : (cfg.program i).Finished := by
  obtain ⟨f, hf, hsum⟩ := h
  have hi : f i = 0 := by
    have hle := Finset.single_le_sum (fun j _ => Nat.zero_le (f j)) (Finset.mem_univ i)
    omega
  have hbound := hf i
  rw [hi] at hbound
  cases hp : cfg.program i with
  | pure a => trivial
  | call e rest =>
    rw [hp] at hbound
    exact hbound.elim

/-- Where some unfinished program can always move, as many rounds as there are calls to
make finish all programs, however the turns are arranged within a round. -/
theorem fair_finishes {G : Config ι σ E R α → Prop}
    (keeps : ∀ cfg turn, G cfg → G (cfg.step env turn))
    (live : ∀ cfg, G cfg → (∃ i, ¬ (cfg.program i).Finished) → ∃ i, cfg.CanMove env i)
    {rounds : List (List (ι × C))} (fair : ∀ round ∈ rounds, ∀ i, i ∈ round.map Prod.fst)
    (holds : G cfg) {bound : ℕ} (hbound : cfg.Bounded bound) (enough : bound ≤ rounds.length)
    (i : ι) : ((cfg.run env rounds.flatten).program i).Finished := by
  induction rounds generalizing cfg bound with
  | nil =>
    obtain rfl : bound = 0 := Nat.le_zero.mp enough
    exact hbound.finished i
  | cons round rounds ih =>
    by_cases hall : ∀ i, (cfg.program i).Finished
    · exact finished_run (hall i) _
    · obtain ⟨j, hj⟩ := live cfg holds (not_forall.mp hall)
      have hmoved := hj.round (fair round List.mem_cons_self j)
      obtain ⟨less, hless, hrun⟩ := (hbound.run round).resolve_left hmoved
      rw [List.flatten_cons, run_append]
      refine ih (fun r hr => fair r (List.mem_cons_of_mem _ hr)) ?_ hrun ?_
      · exact run_induction env cfg holds keeps round
      · rw [List.length_cons] at enough
        omega

end Config
end ArmatureTenancy.Foundations

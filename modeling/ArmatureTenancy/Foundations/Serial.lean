import ArmatureTenancy.Foundations.Interleaving
import Mathlib.Data.Fintype.Defs

/-!
# Serial schedules

A schedule is serial if no program moves while another one is under way. Each
program then has the shared state to itself from its first call to its last one,
so what it guarantees of its calls when it runs alone, from any state, holds at
every turn.
-/

namespace ArmatureTenancy.Foundations

variable {ι C σ E : Type*} {R : E → Type*} {α : Type*}

/-- Run alone from `s`, with any answers of the environment, the program makes
every call in a state for which `P` allows it. -/
def Program.Alone (env : Environment C σ E R) (P : σ → E → Prop) : Program E R α → σ → Prop
  | .pure _, _ => True
  | .call e rest, s => P s e ∧ ∀ c r s', env c s e = some (r, s') → Alone env P (rest r) s'

def Program.Finished : Program E R α → Prop
  | .pure _ => True
  | .call _ _ => False

instance (p : Program E R α) : Decidable p.Finished :=
  match p with
  | .pure _ => isTrue trivial
  | .call _ _ => isFalse id

theorem Program.Finished.alone {env : Environment C σ E R} {P : σ → E → Prop} {s : σ}
    {p : Program E R α} (h : p.Finished) : p.Alone env P s := by
  cases p with
  | pure a => trivial
  | call e rest => exact h.elim

namespace Config

def Started (cfg : Config ι σ E R α) (i : ι) : Prop := i ∈ cfg.history.map Prod.fst

def Busy (cfg : Config ι σ E R α) (i : ι) : Prop := cfg.Started i ∧ ¬ (cfg.program i).Finished

variable {env : Environment C σ E R} {cfg : Config ι σ E R α} {P : ι → σ → E → Prop}

/-- A program under way has the state to itself; one that has not started can
start from any state. -/
def Undisturbed (env : Environment C σ E R) (P : ι → σ → E → Prop) (cfg : Config ι σ E R α) :
    Prop :=
  ∀ i, (cfg.Started i → (cfg.program i).Alone env (P i) cfg.state) ∧
    (¬ cfg.Started i → ∀ s, (cfg.program i).Alone env (P i) s)

theorem Undisturbed.alone (h : Undisturbed env P cfg) (i : ι) :
    (cfg.program i).Alone env (P i) cfg.state := by
  by_cases hstarted : cfg.Started i
  · exact (h i).1 hstarted
  · exact (h i).2 hstarted cfg.state

variable [DecidableEq ι]

instance (cfg : Config ι σ E R α) (i : ι) : Decidable (cfg.Busy i) :=
  inferInstanceAs (Decidable (i ∈ cfg.history.map Prod.fst ∧ ¬ (cfg.program i).Finished))

/-- At each turn a program that is under way is the one to move. -/
def Serial (env : Environment C σ E R) (cfg : Config ι σ E R α) : List (ι × C) → Prop
  | [] => True
  | turn :: schedule => (∀ i, cfg.Busy i → turn.1 = i) ∧ Serial env (cfg.step env turn) schedule

instance Serial.decidable [Fintype ι] (env : Environment C σ E R) (cfg : Config ι σ E R α)
    (schedule : List (ι × C)) : Decidable (cfg.Serial env schedule) :=
  match schedule with
  | [] => isTrue trivial
  | turn :: schedule =>
    have := Serial.decidable env (cfg.step env turn) schedule
    inferInstanceAs (Decidable ((∀ i, cfg.Busy i → turn.1 = i) ∧ _))

theorem serial_append {before after : List (ι × C)} : cfg.Serial env (before ++ after) ↔
    cfg.Serial env before ∧ (cfg.run env before).Serial env after := by
  induction before generalizing cfg with
  | nil => exact (and_iff_right trivial).symm
  | cons turn before ih =>
    rw [List.cons_append, Serial, Serial, ih, and_assoc]
    rfl

theorem Serial.of_prefix {before schedule : List (ι × C)} (h : cfg.Serial env schedule)
    (hbefore : before <+: schedule) : cfg.Serial env before := by
  obtain ⟨after, rfl⟩ := hbefore
  exact (serial_append.mp h).1

theorem Undisturbed.step (h : Undisturbed env P cfg) {turn : ι × C}
    (hserial : ∀ i, cfg.Busy i → turn.1 = i) : Undisturbed env P (cfg.step env turn) := by
  rcases cfg.step_cases env turn with heq | ⟨e, rest, r, s, hp, hr, heq⟩
  · rw [heq]
    exact h
  · rw [heq, advance]
    intro i
    by_cases hi : i = turn.1
    · subst hi
      have halone := h.alone turn.1
      rw [hp] at halone
      constructor
      · intro _
        simpa using halone.2 _ r s hr
      · intro hnot
        exact absurd List.mem_cons_self hnot
    · simp only [Function.update_of_ne hi, Started, List.map_cons, List.mem_cons, hi, false_or]
      constructor
      · intro hstarted
        apply Program.Finished.alone
        by_contra hnot
        exact hi (hserial i ⟨hstarted, hnot⟩).symm
      · exact (h i).2

theorem Serial.undisturbed {schedule : List (ι × C)} (h : cfg.Serial env schedule)
    (start : Undisturbed env P cfg) : Undisturbed env P (cfg.run env schedule) := by
  induction schedule generalizing cfg with
  | nil => exact start
  | cons turn schedule ih => exact ih h.2 (start.step h.1)

/-- In a serial schedule every call is made in a state for which its program
allows it when it runs alone. -/
theorem Serial.allowed {schedule before : List (ι × C)} (h : cfg.Serial env schedule)
    (hhistory : cfg.history = []) (halone : ∀ i s, (cfg.program i).Alone env (P i) s)
    (hbefore : before <+: schedule) {i : ι} {e : E} {rest : R e → Program E R α}
    (hp : (cfg.run env before).program i = .call e rest) : P i (cfg.run env before).state e := by
  have hstart : Undisturbed env P cfg := by
    intro i
    constructor
    · intro hstarted
      rw [Started, hhistory] at hstarted
      cases hstarted
    · exact fun _ => halone i
  have hnow := ((h.of_prefix hbefore).undisturbed hstart).alone i
  rw [hp] at hnow
  exact hnow.1

theorem serial_of_runs {i : ι} {p : Program E R α} {log : List (Exchange E R)} {a : α} {s s' : σ}
    (runs : p.Runs env s log a s') (hp : cfg.program i = p) (hstate : cfg.state = s)
    (quiet : ∀ j, cfg.Busy j → i = j) :
    ∃ schedule, cfg.Serial env schedule ∧ (cfg.run env schedule).state = s' ∧
      ((cfg.run env schedule).program i).Finished ∧
      ∀ j, j ≠ i → (cfg.run env schedule).program j = cfg.program j ∧
        ((cfg.run env schedule).Started j ↔ cfg.Started j) := by
  induction runs generalizing cfg with
  | pure a s =>
    refine ⟨[], trivial, hstate, ?_, fun j _ => ⟨rfl, Iff.rfl⟩⟩
    rw [run_nil, hp]
    trivial
  | @call e rest c s s₁ s' r log a answered tail ih =>
    subst hstate
    have hstep : cfg.step env (i, c) = cfg.advance i e r s₁ (rest r) :=
      cfg.step_call env hp answered
    have hstarted (j : ι) (hj : j ≠ i) :
        (cfg.advance i e r s₁ (rest r)).Started j ↔ cfg.Started j := by
      simp [Started, advance, hj]
    have hmoved : (cfg.advance i e r s₁ (rest r)).program i = rest r := Function.update_self i _ _
    have hquiet (j : ι) (hbusy : (cfg.advance i e r s₁ (rest r)).Busy j) : i = j := by
      by_contra hj
      have hj' : j ≠ i := Ne.symm hj
      refine hj (quiet j ⟨(hstarted j hj').mp hbusy.1, ?_⟩)
      simpa [advance, hj'] using hbusy.2
    obtain ⟨schedule, hserial, hend, hfinished, hothers⟩ := ih hmoved rfl hquiet
    refine ⟨(i, c) :: schedule, ⟨quiet, ?_⟩, ?_⟩
    · rw [hstep]
      exact hserial
    · rw [run_cons, hstep]
      refine ⟨hend, hfinished, fun j hj => ⟨?_, (hothers j hj).2.trans (hstarted j hj)⟩⟩
      rw [(hothers j hj).1]
      simp [advance, hj]

end Config

/-- Operations run one after the other are a serial schedule of their programs,
numbered in the order of the operations. -/
theorem Sequential.serial {O : Type*} {env : Environment C σ E R} {program : O → Program E R α}
    {start s : σ} {past : List (Completed O σ E R α)} (run : Sequential env program start past s)
    (calls : ℕ → O)
    (numbered : past.map Completed.op = ((List.range past.length).map calls).reverse) :
    let cfg : Config ℕ σ E R α := ⟨⟨start, []⟩, fun n => program (calls n)⟩
    ∃ schedule, cfg.Serial env schedule ∧ (cfg.run env schedule).state = s ∧
      (∀ n < past.length, ((cfg.run env schedule).program n).Finished) ∧
      ∀ n, past.length ≤ n → (cfg.run env schedule).program n = program (calls n) ∧
        ¬ (cfg.run env schedule).Started n := by
  intro cfg
  induction run with
  | nil =>
    refine ⟨[], trivial, rfl, ?_, ?_⟩
    · intro n hn
      cases hn
    · intro n _
      exact ⟨rfl, List.not_mem_nil⟩
  | @step past op s s' log a earlier runs ih =>
    simp only [List.map_cons, List.length_cons, List.range_succ, List.map_append,
      List.map_nil, List.reverse_append, List.reverse_singleton, List.singleton_append,
      List.cons.injEq] at numbered
    obtain ⟨rfl, hearlier⟩ := numbered
    obtain ⟨schedule, hserial, hstate, hfinished, hlater⟩ := ih hearlier
    have quiet (j : ℕ) (hbusy : (cfg.run env schedule).Busy j) : past.length = j := by
      rcases lt_trichotomy past.length j with hj | hj | hj
      · exact absurd hbusy.1 (hlater j hj.le).2
      · exact hj
      · exact absurd (hfinished j hj) hbusy.2
    obtain ⟨more, hmore, hend, hdone, hothers⟩ :=
      Config.serial_of_runs runs (hlater _ le_rfl).1 hstate quiet
    refine ⟨schedule ++ more, Config.serial_append.mpr ⟨hserial, hmore⟩, ?_⟩
    rw [Config.run_append]
    refine ⟨hend, ?_, ?_⟩
    · intro n hn
      rcases Nat.lt_succ_iff_lt_or_eq.mp hn with hn | rfl
      · rw [(hothers n hn.ne).1]
        exact hfinished n hn
      · exact hdone
    · intro n hn
      have hne : n ≠ past.length := (Nat.lt_of_succ_le hn).ne'
      rw [(hothers n hne).1, (hothers n hne).2]
      exact hlater n (Nat.le_of_succ_le hn)

end ArmatureTenancy.Foundations

import ArmatureTenancy.Foundations.Programs
import Mathlib.Data.List.Induction

/-!
# Interleaved execution

A family of programs shares one state. A schedule names, turn by turn, the
program that moves and the choice its environment makes; one turn performs
exactly one call. Finished programs and calls that have to wait let their turn
pass, so every list of turns is a schedule and quantifying over lists covers
every interleaving.
-/

namespace ArmatureTenancy.Foundations

structure Moment (ι σ E : Type*) (R : E → Type*) where
  state : σ
  history : List (ι × Exchange E R)

/-- A moment together with what is left of every program. -/
structure Config (ι σ E : Type*) (R : E → Type*) (α : Type*) extends Moment ι σ E R where
  program : ι → Program E R α

variable {ι C σ E : Type*} {R : E → Type*} {α : Type*} [DecidableEq ι]

theorem forall_turns_cons {τ : Type*} {P : List τ → τ → Prop} {first : τ} {schedule : List τ} :
    (∀ before turn, before ++ [turn] <+: first :: schedule → P before turn) ↔
      P [] first ∧ ∀ before turn, before ++ [turn] <+: schedule → P (first :: before) turn := by
  constructor
  · intro h
    refine ⟨h [] first (List.prefix_append _ _), fun before turn hbefore => ?_⟩
    exact h (first :: before) turn ((List.prefix_cons_inj first).mpr hbefore)
  · rintro ⟨hfirst, hothers⟩ before turn hbefore
    cases before with
    | nil =>
      obtain ⟨rfl, -⟩ := List.cons_prefix_cons.mp hbefore
      exact hfirst
    | cons head before =>
      obtain ⟨rfl, hrest⟩ := List.cons_prefix_cons.mp hbefore
      exact hothers before turn hrest

theorem forall_turns_nil {τ : Type*} {P : List τ → τ → Prop} :
    ∀ before turn, before ++ [turn] <+: [] → P before turn := by
  intro before turn hbefore
  exact absurd (List.prefix_nil.mp hbefore) (by simp)

namespace Config

def advance (cfg : Config ι σ E R α) (i : ι) (e : E) (r : R e) (s : σ) (p : Program E R α) :
    Config ι σ E R α where
  state := s
  history := (i, ⟨e, r⟩) :: cfg.history
  program := Function.update cfg.program i p

def step (env : Environment C σ E R) (cfg : Config ι σ E R α) (turn : ι × C) :
    Config ι σ E R α :=
  match cfg.program turn.1 with
  | .pure _ => cfg
  | .call e rest =>
    match env turn.2 cfg.state e with
    | none => cfg
    | some (r, s) => cfg.advance turn.1 e r s (rest r)

def run (env : Environment C σ E R) (cfg : Config ι σ E R α) (schedule : List (ι × C)) :
    Config ι σ E R α :=
  schedule.foldl (step env) cfg

variable (env : Environment C σ E R) (cfg : Config ι σ E R α)

@[simp] theorem run_nil : cfg.run env [] = cfg := rfl

@[simp] theorem run_cons (turn : ι × C) (schedule : List (ι × C)) :
    cfg.run env (turn :: schedule) = (cfg.step env turn).run env schedule := rfl

theorem run_append (before after : List (ι × C)) :
    cfg.run env (before ++ after) = (cfg.run env before).run env after :=
  List.foldl_append

theorem run_concat (before : List (ι × C)) (turn : ι × C) :
    cfg.run env (before ++ [turn]) = (cfg.run env before).step env turn := by
  rw [run_append]
  rfl

theorem step_cases (turn : ι × C) :
    cfg.step env turn = cfg ∨ ∃ e rest r s, cfg.program turn.1 = .call e rest ∧
      env turn.2 cfg.state e = some (r, s) ∧
      cfg.step env turn = cfg.advance turn.1 e r s (rest r) := by
  unfold step
  split
  · exact .inl rfl
  · rename_i e rest hp
    split
    · exact .inl rfl
    · rename_i r s hr
      exact .inr ⟨e, rest, r, s, hp, hr, rfl⟩

theorem step_pure {turn : ι × C} {a : α} (hp : cfg.program turn.1 = .pure a) :
    cfg.step env turn = cfg := by
  simp only [step, hp]

theorem step_call {turn : ι × C} {e : E} {rest : R e → Program E R α} {r : R e} {s : σ}
    (hp : cfg.program turn.1 = .call e rest) (hr : env turn.2 cfg.state e = some (r, s)) :
    cfg.step env turn = cfg.advance turn.1 e r s (rest r) := by
  simp only [step, hp, hr]

theorem run_induction {P : Config ι σ E R α → Prop} (start : P cfg)
    (turn : ∀ cfg t, P cfg → P (cfg.step env t)) (schedule : List (ι × C)) :
    P (cfg.run env schedule) := by
  induction schedule generalizing cfg with
  | nil => exact start
  | cons t schedule ih => exact ih _ (turn cfg t start)

/-- The same where `G` is known to hold after every schedule. -/
theorem run_invariant {P G : Config ι σ E R α → Prop}
    (always : ∀ schedule, G (cfg.run env schedule)) (start : P cfg)
    (turn : ∀ cfg t, G cfg → P cfg → P (cfg.step env t)) (schedule : List (ι × C)) :
    P (cfg.run env schedule) := by
  induction schedule using List.reverseRecOn with
  | nil => exact start
  | append_singleton schedule last ih =>
    rw [run_concat]
    exact turn _ last (always schedule) ih

theorem history_suffix (schedule : List (ι × C)) :
    cfg.history <:+ (cfg.run env schedule).history := by
  induction schedule generalizing cfg with
  | nil => exact List.suffix_refl _
  | cons turn schedule ih =>
    rw [run_cons]
    apply List.IsSuffix.trans _ (ih (cfg.step env turn))
    rcases cfg.step_cases env turn with h | ⟨e, rest, r, s, -, -, h⟩
    · simp only [h, List.suffix_refl]
    · rw [h]
      exact List.suffix_cons _ _

theorem run_nodes {P : ι → (e : E) → (R e → Program E R α) → Prop}
    (start : ∀ i, (cfg.program i).Nodes (P i)) (schedule : List (ι × C)) (i : ι) :
    ((cfg.run env schedule).program i).Nodes (P i) := by
  revert i
  apply run_induction env cfg (P := fun cfg => ∀ i, (cfg.program i).Nodes (P i)) start
  intro cfg turn hcfg i
  rcases cfg.step_cases env turn with h | ⟨e, rest, r, s, hp, -, h⟩
  · rw [h]
    exact hcfg i
  · rw [h, advance]
    by_cases hi : i = turn.1
    · subst hi
      have hnodes := hcfg turn.1
      rw [hp] at hnodes
      simpa using hnodes.2 r
    · simpa [hi] using hcfg i

/-- Where one turn keeps `P` exactly if `Q` holds before it, `P` holds all along
a schedule exactly if `Q` holds before each of its turns. `G` is an invariant
that holds in any case. -/
theorem always_iff {P G : Config ι σ E R α → Prop} {Q : Config ι σ E R α → ι × C → Prop}
    (always : ∀ schedule, G (cfg.run env schedule)) (start : P cfg)
    (turn : ∀ cfg t, G cfg → P cfg → (P (cfg.step env t) ↔ Q cfg t))
    (schedule : List (ι × C)) :
    (∀ before, before <+: schedule → P (cfg.run env before)) ↔
      ∀ before t, before ++ [t] <+: schedule → Q (cfg.run env before) t := by
  induction schedule using List.reverseRecOn with
  | nil =>
    refine iff_of_true ?_ (by simp)
    intro before hbefore
    rw [List.prefix_nil.mp hbefore]
    exact start
  | append_singleton schedule last ih =>
    have hturn := turn (cfg.run env schedule) last (always schedule)
    rw [← run_concat] at hturn
    constructor
    · intro hall before t hbefore
      rcases List.prefix_concat_iff.mp hbefore with heq | hshort
      · obtain ⟨rfl, hlast⟩ := List.append_inj' heq rfl
        cases hlast
        exact (hturn (hall before (List.prefix_append _ _))).mp (hall _ (List.prefix_refl _))
      · have hshorter := fun b hb => hall b (List.IsPrefix.trans hb (List.prefix_append _ _))
        exact ih.mp hshorter before t hshort
    · intro hall before hbefore
      have hearlier := ih.mpr fun b t hb => hall b t (hb.trans (List.prefix_append _ _))
      rcases List.prefix_concat_iff.mp hbefore with rfl | hshort
      · exact (hturn (hearlier schedule (List.prefix_refl _))).mpr
          (hall schedule last (List.prefix_refl _))
      · exact hearlier before hshort

end Config

section Within

variable {env : Environment C σ E R} {admissible : (e : E) → R e → Prop} {allowed : ι → E → Prop}
  {post : ι → α → Prop}

theorem Config.run_within {cfg : Config ι σ E R α}
    (hadm : ∀ c s e r s', env c s e = some (r, s') → admissible e r)
    (hcfg : ∀ i, (cfg.program i).Within admissible (allowed i) (post i))
    (schedule : List (ι × C)) (i : ι) :
    ((cfg.run env schedule).program i).Within admissible (allowed i) (post i) := by
  revert i
  refine run_induction env cfg
    (P := fun cfg => ∀ i, (cfg.program i).Within admissible (allowed i) (post i)) hcfg ?_ schedule
  intro cfg turn hcfg i
  rcases cfg.step_cases env turn with h | ⟨e, rest, r, s, hp, hr, h⟩
  · rw [h]
    exact hcfg i
  · rw [h, advance]
    by_cases hi : i = turn.1
    · subst hi
      have hw := hcfg turn.1
      rw [hp] at hw
      simpa using hw.2 r (hadm _ _ _ _ _ hr)
    · simpa [hi] using hcfg i

theorem Config.history_within {cfg : Config ι σ E R α}
    (hadm : ∀ c s e r s', env c s e = some (r, s') → admissible e r)
    (hcfg : ∀ i, (cfg.program i).Within admissible (allowed i) (post i))
    (hhistory : ∀ x ∈ cfg.history, allowed x.1 x.2.1) (schedule : List (ι × C)) :
    ∀ x ∈ (cfg.run env schedule).history, allowed x.1 x.2.1 := by
  induction schedule generalizing cfg with
  | nil => exact hhistory
  | cons turn schedule ih =>
    have hnext : ∀ x ∈ (cfg.step env turn).history, allowed x.1 x.2.1 := by
      rcases cfg.step_cases env turn with h | ⟨e, rest, r, s, hp, hr, h⟩
      · rw [h]
        exact hhistory
      · have hw := hcfg turn.1
        rw [hp] at hw
        rw [h]
        exact List.forall_mem_cons.mpr ⟨hw.1, hhistory⟩
    exact ih (fun i => run_within hadm hcfg [turn] i) hnext

end Within

section Purge

/-- Local conditions under which the programs outside `mine` cannot influence
what those inside observe: a call of the former keeps the state similar to any
state it was similar to, and a call of the latter is answered alike in similar
states, which stay similar. -/
structure Unwinding (env : Environment C σ E R) (mine : ι → Prop) (allowed : ι → E → Prop)
    (similar : σ → σ → Prop) : Prop where
  hidden : ∀ {i c s t e r s'}, ¬ mine i → allowed i e → env c s e = some (r, s') →
    similar s t → similar s' t
  blocked : ∀ {i c s t e}, mine i → allowed i e → env c s e = none → similar s t →
    env c t e = none
  answered : ∀ {i c s t e r s'}, mine i → allowed i e → env c s e = some (r, s') →
    similar s t → ∃ t', env c t e = some (r, t') ∧ similar s' t'

variable {env : Environment C σ E R} {mine : ι → Prop}
  {admissible : (e : E) → R e → Prop} {allowed : ι → E → Prop} {post : ι → α → Prop}
  {result : α → Prop} {similar : σ → σ → Prop}

theorem Unwinding.step_mine (h : Unwinding env mine allowed similar)
    {cfg other : Config ι σ E R α} {turn : ι × C} (hi : mine turn.1)
    (hw : (cfg.program turn.1).Within admissible (allowed turn.1) result)
    (hs : similar cfg.state other.state) (hp : ∀ i, mine i → cfg.program i = other.program i) :
    similar (cfg.step env turn).state (other.step env turn).state ∧
      ∀ i, mine i → (cfg.step env turn).program i = (other.step env turn).program i := by
  unfold Config.step
  rw [← hp _ hi]
  cases hcall : cfg.program turn.1 with
  | pure a => exact ⟨hs, hp⟩
  | call e rest =>
    rw [hcall] at hw
    cases hr : env turn.2 cfg.state e with
    | none =>
      simp only [hr, h.blocked hi hw.1 hr hs]
      exact ⟨hs, hp⟩
    | some answer =>
      obtain ⟨t', ht, hsim⟩ := h.answered hi hw.1 hr hs
      simp only [hr, ht, Config.advance]
      refine ⟨hsim, fun i hmine => ?_⟩
      by_cases heq : i = turn.1
      · simp [heq]
      · simpa [heq] using hp i hmine

theorem Unwinding.step_other (h : Unwinding env mine allowed similar)
    {cfg other : Config ι σ E R α} {turn : ι × C} (hi : ¬ mine turn.1)
    (hw : (cfg.program turn.1).Within admissible (allowed turn.1) result)
    (hs : similar cfg.state other.state) (hp : ∀ i, mine i → cfg.program i = other.program i) :
    similar (cfg.step env turn).state other.state ∧
      ∀ i, mine i → (cfg.step env turn).program i = other.program i := by
  rcases cfg.step_cases env turn with heq | ⟨e, rest, r, s, hcall, hr, heq⟩
  · rw [heq]
    exact ⟨hs, hp⟩
  · rw [hcall] at hw
    rw [heq, Config.advance]
    refine ⟨h.hidden hi hw.1 hr hs, fun i hmine => ?_⟩
    have hne : i ≠ turn.1 := fun heq => hi (heq ▸ hmine)
    simpa [hne] using hp i hmine

/-- Deleting every turn of the programs outside `mine` changes neither what is
left of the programs inside nor the state up to similarity. -/
theorem Unwinding.run_purge [DecidablePred mine] (h : Unwinding env mine allowed similar)
    (hadm : ∀ c s e r s', env c s e = some (r, s') → admissible e r)
    {cfg other : Config ι σ E R α}
    (hw : ∀ i, (cfg.program i).Within admissible (allowed i) (post i))
    (hs : similar cfg.state other.state) (hp : ∀ i, mine i → cfg.program i = other.program i)
    (schedule : List (ι × C)) :
    similar (cfg.run env schedule).state
        (other.run env (schedule.filter fun turn => mine turn.1)).state ∧
      ∀ i, mine i → (cfg.run env schedule).program i =
        (other.run env (schedule.filter fun turn => mine turn.1)).program i := by
  induction schedule generalizing cfg other with
  | nil => exact ⟨hs, hp⟩
  | cons turn schedule ih =>
    have hw' := fun i => Config.run_within hadm hw [turn] i
    by_cases hi : mine turn.1
    · obtain ⟨hs', hp'⟩ := h.step_mine hi (hw turn.1) hs hp
      simpa [hi] using ih hw' hs' hp'
    · obtain ⟨hs', hp'⟩ := h.step_other hi (hw turn.1) hs hp
      simpa [hi] using ih hw' hs' hp'

end Purge

section Partition

variable {K : Type*} {neutral : E → Prop} {owned : K → E → Prop} {same : K → σ → σ → Prop}

/-- Every owner has a part of the state. A call made in the name of an owner is answered
from its part and changes no other; a neutral call does not depend on the state. -/
structure Partition (env : Environment C σ E R) (neutral : E → Prop) (owned : K → E → Prop)
    (same : K → σ → σ → Prop) : Prop where
  equivalence : ∀ k, Equivalence (same k)
  untouched : ∀ {c s e r s'}, neutral e → env c s e = some (r, s') →
    s' = s ∧ ∀ t, env c t e = some (r, t)
  outside : ∀ {k k' c s e r s'}, k' ≠ k → owned k' e → env c s e = some (r, s') → same k s' s
  inside : ∀ {k c s t e r s'}, owned k e → env c s e = some (r, s') → same k s t →
    ∃ t', env c t e = some (r, t') ∧ same k s' t'
  answers : ∀ c s e, env c s e ≠ none

theorem Partition.others {env : Environment C σ E R} (h : Partition env neutral owned same)
    {owners : K → Prop} {k : K} (hk : ¬ owners k) {c : C} {s s' : σ} {e : E} {r : R e}
    (hallowed : neutral e ∨ ∃ k', owners k' ∧ owned k' e) (hr : env c s e = some (r, s')) :
    same k s' s := by
  rcases hallowed with hneutral | ⟨k', hk', hown⟩
  · rw [(h.untouched hneutral hr).1]
    exact (h.equivalence k).refl s
  · refine h.outside ?_ hown hr
    rintro rfl
    exact hk hk'

omit [DecidableEq ι] in
/-- A group of owners is left alone by all programs that act for none of them, provided
that no program acts both for an owner in the group and for one outside. -/
theorem Partition.unwinding {env : Environment C σ E R} (h : Partition env neutral owned same)
    {owners : ι → K → Prop} {group : K → Prop}
    (closed : ∀ i, (∀ k, owners i k → group k) ∨ ∀ k, owners i k → ¬ group k) :
    Unwinding env (fun i => ∃ k, owners i k ∧ group k)
      (fun i e => neutral e ∨ ∃ k, owners i k ∧ owned k e)
      fun s t => ∀ k, group k → same k s t where
  hidden := by
    intro i c s t e r s' hi hallowed hr hsim k hk
    have hnot : ¬ owners i k := fun howner => hi ⟨k, howner, hk⟩
    exact (h.equivalence k).trans (h.others hnot hallowed hr) (hsim k hk)
  blocked := by
    intro i c s t e _ _ hr _
    exact absurd hr (h.answers c s e)
  answered := by
    intro i c s t e r s' hi hallowed hr hsim
    rcases hallowed with hneutral | ⟨k, hk, hown⟩
    · obtain ⟨rfl, hsame⟩ := h.untouched hneutral hr
      exact ⟨t, hsame t, hsim⟩
    · obtain ⟨k₀, hk₀, hgroup₀⟩ := hi
      have hgroup : group k := by
        rcases closed i with hall | hnone
        · exact hall k hk
        · exact absurd hgroup₀ (hnone k₀ hk₀)
      obtain ⟨t', ht, hpart⟩ := h.inside hown hr (hsim k hgroup)
      refine ⟨t', ht, fun k' hk' => ?_⟩
      by_cases heq : k = k'
      · exact heq ▸ hpart
      · have hback := (h.equivalence k').symm (h.outside heq hown ht)
        exact (h.equivalence k').trans (h.outside heq hown hr)
          ((h.equivalence k').trans (hsim k' hk') hback)

end Partition
end ArmatureTenancy.Foundations

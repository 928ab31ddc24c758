import ArmatureTenancy.Foundations.Serial

/-!
# Serializability

Where programs cannot influence those of a group, it is enough to keep the group
from overlapping among themselves. Deleting the turns of all others then leaves a
serial schedule, and a serial schedule is a sequence of complete runs.
-/

namespace ArmatureTenancy.Foundations

variable {ι C σ E : Type*} {R : E → Type*} {α : Type*}

/-- Alone, from `s`, the program has made the calls of the log, in order; the rest of
it is left in the final state. -/
inductive Program.Reaches (env : Environment C σ E R) (p : Program E R α) (s : σ) :
    List (Exchange E R) → Program E R α → σ → Prop
  | start : Reaches env p s [] p s
  | call {log : List (Exchange E R)} {e : E} {rest : R e → Program E R α} {c : C} {s₁ s₂ : σ}
      {r : R e} (before : Reaches env p s log (.call e rest) s₁)
      (answered : env c s₁ e = some (r, s₂)) :
      Reaches env p s (log ++ [⟨e, r⟩]) (rest r) s₂

theorem Program.Reaches.first {env : Environment C σ E R} {e : E} {rest : R e → Program E R α}
    {c : C} {s s' : σ} {r : R e} (answered : env c s e = some (r, s')) :
    (Program.call e rest).Reaches env s [⟨e, r⟩] (rest r) s' :=
  .call .start answered

theorem Program.Reaches.runs {env : Environment C σ E R} {p q : Program E R α} {s s₁ s' : σ}
    {log tail : List (Exchange E R)} {a : α} (h : p.Reaches env s log q s₁)
    (rest : q.Runs env s₁ tail a s') : p.Runs env s (log ++ tail) a s' := by
  induction h generalizing tail with
  | start => exact rest
  | call before answered ih =>
    rw [List.append_assoc]
    exact ih (.call answered rest)

def exchanges {O : Type*} (past : List (ι × Completed O σ E R α)) : List (ι × Exchange E R) :=
  past.flatMap fun x => (x.2.log.map (Prod.mk x.1)).reverse

theorem Config.started_of_log {cfg : Config ι σ E R α} {i : ι} {log : List (Exchange E R)}
    {older : List (ι × Exchange E R)} (hlog : log ≠ [])
    (h : cfg.history = (log.map (Prod.mk i)).reverse ++ older) : cfg.Started i := by
  obtain ⟨x, hx⟩ := List.exists_mem_of_ne_nil log hlog
  rw [Started, h, List.map_append, List.mem_append]
  exact .inl (List.mem_map.mpr ⟨(i, x), List.mem_reverse.mpr (List.mem_map_of_mem hx), rfl⟩)

section Advance

variable [DecidableEq ι] (cfg : Config ι σ E R α) {i j : ι} (e : E) (r : R e) (s : σ)
  (p : Program E R α)

theorem Config.program_advance_self : (cfg.advance i e r s p).program i = p :=
  Function.update_self _ _ _

theorem Config.program_advance (hj : j ≠ i) :
    (cfg.advance i e r s p).program j = cfg.program j := Function.update_of_ne hj _ _

theorem Config.started_advance (hj : j ≠ i) :
    (cfg.advance i e r s p).Started j ↔ cfg.Started j := by
  simp [Started, advance, hj]

end Advance

section Sequential

variable {O : Type*} (env : Environment C σ E R) (program : O → Program E R α) (calls : ι → O)
  (start : σ)

/-- The operations of the list have run one after the other from `start` to `s`, each on
behalf of the finished program it stands beside. -/
structure Sequenced (cfg : Config ι σ E R α) (past : List (ι × Completed O σ E R α)) (s : σ) :
    Prop where
  run : Sequential env program start (past.map Prod.snd) s
  op : ∀ x ∈ past, x.2.op = calls x.1
  moved : ∀ x ∈ past, x.2.log ≠ []
  result : ∀ x ∈ past, cfg.program x.1 = .pure x.2.result
  nodup : (past.map Prod.fst).Nodup

/-- Some operations are finished, one may be under way, and the others have not started. -/
def InSequence (cfg : Config ι σ E R α) : Prop :=
  ∃ past s, Sequenced env program calls start cfg past s ∧
    ((s = cfg.state ∧ cfg.history = exchanges past ∧
      ∀ i, i ∉ past.map Prod.fst → cfg.program i = program (calls i)) ∨
    ∃ i log, i ∉ past.map Prod.fst ∧ log ≠ [] ∧ ¬ (cfg.program i).Finished ∧
      (program (calls i)).Reaches env s log (cfg.program i) cfg.state ∧
      cfg.history = (log.map (Prod.mk i)).reverse ++ exchanges past ∧
      ∀ j, j ≠ i → j ∉ past.map Prod.fst → cfg.program j = program (calls j))

variable {env program calls start} {cfg : Config ι σ E R α}
  {past : List (ι × Completed O σ E R α)} {s : σ}

theorem Sequenced.mem_exchanges (h : Sequenced env program calls start cfg past s)
    {x : ι × Completed O σ E R α} (hx : x ∈ past) : ∃ y, (x.1, y) ∈ exchanges past := by
  obtain ⟨y, hy⟩ := List.exists_mem_of_ne_nil _ (h.moved x hx)
  refine ⟨y, List.mem_flatMap.mpr ⟨x, hx, ?_⟩⟩
  exact List.mem_reverse.mpr (List.mem_map_of_mem hy)

theorem Sequenced.called (h : Sequenced env program calls start cfg past s) {i : ι}
    (log : List (Exchange E R)) (hi : i ∉ past.map Prod.fst) (hlog : log ≠ [])
    (hreach : (program (calls i)).Reaches env s log (cfg.program i) cfg.state)
    (hhistory : cfg.history = (log.map (Prod.mk i)).reverse ++ exchanges past)
    (hothers : ∀ j, j ≠ i → j ∉ past.map Prod.fst → cfg.program j = program (calls j)) :
    InSequence env program calls start cfg := by
  cases hp : cfg.program i with
  | call e rest =>
    rw [hp] at hreach
    refine ⟨past, s, h, .inr ⟨i, log, hi, hlog, ?_, ?_, hhistory, hothers⟩⟩
    · rw [hp]
      exact id
    · rw [hp]
      exact hreach
  | pure a =>
    rw [hp] at hreach
    have hruns := hreach.runs (.pure a cfg.state)
    rw [List.append_nil] at hruns
    refine ⟨(i, ⟨calls i, s, log, a, cfg.state⟩) :: past, cfg.state, ⟨?_, ?_, ?_, ?_, ?_⟩,
      .inl ⟨rfl, ?_, ?_⟩⟩
    · exact h.run.step hruns
    · exact List.forall_mem_cons.mpr ⟨rfl, h.op⟩
    · exact List.forall_mem_cons.mpr ⟨hlog, h.moved⟩
    · exact List.forall_mem_cons.mpr ⟨hp, h.result⟩
    · exact List.nodup_cons.mpr ⟨hi, h.nodup⟩
    · rw [hhistory]
      rfl
    · intro j hj
      simp only [List.map_cons, List.mem_cons, not_or] at hj
      exact hothers j hj.1 hj.2

variable [DecidableEq ι]

theorem Sequenced.advance (h : Sequenced env program calls start cfg past s) {i : ι}
    (hi : i ∉ past.map Prod.fst) (e : E) (r : R e) (s' : σ) (p : Program E R α) :
    Sequenced env program calls start (cfg.advance i e r s' p) past s := by
  refine ⟨h.run, h.op, h.moved, ?_, h.nodup⟩
  intro x hx
  have hne : x.1 ≠ i := fun heq => hi (heq ▸ List.mem_map_of_mem hx)
  simpa [Config.advance, hne] using h.result x hx

theorem InSequence.step (h : InSequence env program calls start cfg) {turn : ι × C}
    (hserial : ∀ i, cfg.Busy i → turn.1 = i) :
    InSequence env program calls start (cfg.step env turn) := by
  rcases cfg.step_cases env turn with heq | ⟨e, rest, r, s', hp, hr, heq⟩
  · rw [heq]
    exact h
  · rw [heq]
    obtain ⟨past, s, hpast, ⟨rfl, hhistory, hothers⟩ |
      ⟨i, log, hi, hlog, hunfinished, hreach, hhistory, hothers⟩⟩ := h
    · have hi : turn.1 ∉ past.map Prod.fst := by
        intro hmem
        obtain ⟨x, hx, hxi⟩ := List.mem_map.mp hmem
        have hpure := hpast.result x hx
        rw [hxi, hp] at hpure
        cases hpure
      have hreach : (program (calls turn.1)).Reaches env cfg.state [⟨e, r⟩] (rest r) s' := by
        rw [← hothers turn.1 hi, hp]
        exact .first hr
      refine (hpast.advance hi e r s' (rest r)).called [⟨e, r⟩] hi (by simp) ?_ ?_ ?_
      · simpa [Config.advance] using hreach
      · rw [Config.advance, hhistory]
        rfl
      · intro j hj hj'
        simpa [Config.advance, hj] using hothers j hj'
    · obtain rfl := hserial i ⟨Config.started_of_log hlog hhistory, hunfinished⟩
      rw [hp] at hreach
      refine (hpast.advance hi e r s' (rest r)).called (log ++ [⟨e, r⟩]) hi (by simp)
        ?_ ?_ ?_
      · simpa [Config.advance] using hreach.call hr
      · rw [Config.advance, hhistory]
        simp
      · intro j hj hj'
        simpa [Config.advance, hj] using hothers j hj hj'

/-- Once no program is under way, the programs of a serial schedule have run one after
the other, and the history consists of their exchanges. -/
theorem Config.Serial.sequential {schedule : List (ι × C)}
    (h : (⟨⟨start, []⟩, fun i => program (calls i)⟩ : Config ι σ E R α).Serial env schedule)
    (done : ∀ i, ¬ ((⟨⟨start, []⟩, fun i => program (calls i)⟩ :
      Config ι σ E R α).run env schedule).Busy i) :
    let last := (⟨⟨start, []⟩, fun i => program (calls i)⟩ : Config ι σ E R α).run env schedule
    ∃ past, Sequenced env program calls start last past last.state ∧
      last.history = exchanges past := by
  have hstart : InSequence env program calls start ⟨⟨start, []⟩, fun i => program (calls i)⟩ := by
    refine ⟨[], start, ⟨.nil, ?_, ?_, ?_, ?_⟩, .inl ⟨rfl, rfl, fun _ _ => rfl⟩⟩
    · simp
    · simp
    · simp
    · exact List.nodup_nil
  have hrun : ∀ (cfg : Config ι σ E R α) (schedule : List (ι × C)), cfg.Serial env schedule →
      InSequence env program calls start cfg →
      InSequence env program calls start (cfg.run env schedule) := by
    intro cfg schedule hserial hcfg
    induction schedule generalizing cfg with
    | nil => exact hcfg
    | cons turn schedule ih => exact ih _ hserial.2 (hcfg.step hserial.1)
  intro last
  obtain ⟨past, s, hpast, ⟨rfl, hhistory, -⟩ | ⟨i, log, -, hlog, hunfinished, -, hhistory, -⟩⟩ :=
    hrun _ schedule h hstart
  · exact ⟨past, hpast, hhistory⟩
  · exfalso
    exact done i ⟨Config.started_of_log hlog hhistory, hunfinished⟩

end Sequential

section Groups

variable [DecidableEq ι]

/-- No program of the group moves while another one of it is under way. -/
def Config.SerialWithin (mine : ι → Prop) (env : Environment C σ E R) (cfg : Config ι σ E R α) :
    List (ι × C) → Prop
  | [] => True
  | turn :: schedule => (mine turn.1 → ∀ i, mine i → cfg.Busy i → turn.1 = i) ∧
    (cfg.step env turn).SerialWithin mine env schedule

instance Config.SerialWithin.decidable [Fintype ι] (mine : ι → Prop) [DecidablePred mine]
    (env : Environment C σ E R) (cfg : Config ι σ E R α) (schedule : List (ι × C)) :
    Decidable (cfg.SerialWithin mine env schedule) :=
  match schedule with
  | [] => isTrue trivial
  | turn :: schedule =>
    have := SerialWithin.decidable mine env (cfg.step env turn) schedule
    inferInstanceAs (Decidable ((mine turn.1 → ∀ i, mine i → cfg.Busy i → turn.1 = i) ∧ _))

/-- The second configuration has seen the turns of the programs in `mine`, and no others. -/
structure Purged (mine : ι → Prop) [DecidablePred mine] (similar : σ → σ → Prop)
    (cfg other : Config ι σ E R α) : Prop where
  state : similar cfg.state other.state
  program : ∀ i, mine i → cfg.program i = other.program i
  history : other.history = cfg.history.filter fun x => mine x.1

variable {env : Environment C σ E R} {mine : ι → Prop} [DecidablePred mine]
  {admissible : (e : E) → R e → Prop} {allowed : ι → E → Prop} {post : ι → α → Prop}
  {similar : σ → σ → Prop} {cfg other : Config ι σ E R α}

omit [DecidableEq ι] in
theorem Purged.busy (h : Purged mine similar cfg other) {i : ι} (hbusy : other.Busy i) :
    mine i ∧ cfg.Busy i := by
  obtain ⟨⟨j, x⟩, hx, rfl⟩ := List.mem_map.mp hbusy.1
  rw [h.history, List.mem_filter, decide_eq_true_eq] at hx
  refine ⟨hx.2, List.mem_map_of_mem hx.1, ?_⟩
  rw [h.program j hx.2]
  exact hbusy.2

namespace Unwinding

variable (h : Unwinding env mine allowed similar)

include h

theorem purged_step_mine (hpurged : Purged mine similar cfg other) {turn : ι × C}
    (hi : mine turn.1)
    (hw : (cfg.program turn.1).Within admissible (allowed turn.1) (post turn.1)) :
    Purged mine similar (cfg.step env turn) (other.step env turn) := by
  obtain ⟨hstate, hprogram⟩ := h.step_mine hi hw hpurged.state hpurged.program
  refine ⟨hstate, hprogram, ?_⟩
  rcases cfg.step_cases env turn with heq | ⟨e, rest, r, s, hp, hr, heq⟩
  · have hother : other.step env turn = other := by
      cases hp : cfg.program turn.1 with
      | pure a => exact other.step_pure env ((hpurged.program _ hi).symm.trans hp)
      | call e rest =>
        rw [hp] at hw
        cases hr : env turn.2 cfg.state e with
        | none =>
          have hblocked := h.blocked hi hw.1 hr hpurged.state
          simp only [Config.step, (hpurged.program _ hi).symm.trans hp, hblocked]
        | some answer =>
          have hlength := congrArg (fun c => c.history.length) heq
          simp [Config.step_call _ _ hp hr, Config.advance] at hlength
    rw [heq, hother]
    exact hpurged.history
  · rw [hp] at hw
    obtain ⟨t', ht, -⟩ := h.answered hi hw.1 hr hpurged.state
    have hother := other.step_call env ((hpurged.program _ hi).symm.trans hp) ht
    rw [heq, hother, Config.advance, Config.advance, hpurged.history]
    simp [hi]

theorem purged_step_other (hpurged : Purged mine similar cfg other) {turn : ι × C}
    (hi : ¬ mine turn.1)
    (hw : (cfg.program turn.1).Within admissible (allowed turn.1) (post turn.1)) :
    Purged mine similar (cfg.step env turn) other := by
  obtain ⟨hstate, hprogram⟩ := h.step_other hi hw hpurged.state hpurged.program
  refine ⟨hstate, hprogram, ?_⟩
  rcases cfg.step_cases env turn with heq | ⟨e, rest, r, s, -, -, heq⟩
  · rw [heq]
    exact hpurged.history
  · rw [heq, Config.advance, hpurged.history]
    simp [hi]

theorem purged_run (hadm : ∀ c s e r s', env c s e = some (r, s') → admissible e r)
    (hw : ∀ i, (cfg.program i).Within admissible (allowed i) (post i))
    (hpurged : Purged mine similar cfg other) (schedule : List (ι × C)) :
    Purged mine similar (cfg.run env schedule)
      (other.run env (schedule.filter fun turn => mine turn.1)) := by
  induction schedule generalizing cfg other with
  | nil => exact hpurged
  | cons turn schedule ih =>
    have hw' := fun i => Config.run_within hadm hw [turn] i
    by_cases hi : mine turn.1
    · simpa [hi] using ih hw' (h.purged_step_mine hpurged hi (hw turn.1))
    · simpa [hi] using ih hw' (h.purged_step_other hpurged hi (hw turn.1))

theorem purged_serial (hadm : ∀ c s e r s', env c s e = some (r, s') → admissible e r)
    (hw : ∀ i, (cfg.program i).Within admissible (allowed i) (post i))
    (hpurged : Purged mine similar cfg other) {schedule : List (ι × C)}
    (hserial : cfg.SerialWithin mine env schedule) :
    other.Serial env (schedule.filter fun turn => mine turn.1) := by
  induction schedule generalizing cfg other with
  | nil => trivial
  | cons turn schedule ih =>
    have hw' := fun i => Config.run_within hadm hw [turn] i
    by_cases hi : mine turn.1
    · rw [List.filter_cons_of_pos (by simpa using hi)]
      refine ⟨?_, ih hw' (h.purged_step_mine hpurged hi (hw turn.1)) hserial.2⟩
      intro i hbusy
      obtain ⟨hmine', hbusy'⟩ := hpurged.busy hbusy
      exact hserial.1 hi i hmine' hbusy'
    · rw [List.filter_cons_of_neg (by simpa using hi)]
      exact ih hw' (h.purged_step_other hpurged hi (hw turn.1)) hserial.2

/-- A group whose programs do not overlap has run one after the other: the states look
alike to it, and its exchanges and results are the same. -/
theorem serializable {O : Type*} (program : O → Program E R α) (calls : ι → O) {start : σ}
    (hadm : ∀ c s e r s', env c s e = some (r, s') → admissible e r)
    (hw : ∀ i, (program (calls i)).Within admissible (allowed i) (post i))
    (hsimilar : similar start start) {schedule : List (ι × C)}
    (apart : (⟨⟨start, []⟩, fun i => program (calls i)⟩ : Config ι σ E R α).SerialWithin mine env
      schedule) :
    let last := (⟨⟨start, []⟩, fun i => program (calls i)⟩ : Config ι σ E R α).run env schedule
    (∀ i, mine i → ¬ last.Busy i) →
      ∃ past s, Sequenced env program calls start last past s ∧ (∀ x ∈ past, mine x.1) ∧
        similar last.state s ∧ last.history.filter (fun x => mine x.1) = exchanges past := by
  intro last quiet
  have hstart : Purged mine similar
      (⟨⟨start, []⟩, fun i => program (calls i)⟩ : Config ι σ E R α)
      ⟨⟨start, []⟩, fun i => program (calls i)⟩ := ⟨hsimilar, fun _ _ => rfl, rfl⟩
  have hend := h.purged_run hadm hw hstart schedule
  obtain ⟨past, hpast, hhistory⟩ := (h.purged_serial hadm hw hstart apart).sequential
    fun i hbusy => quiet i (hend.busy hbusy).1 (hend.busy hbusy).2
  have hown : last.history.filter (fun x => mine x.1) = exchanges past :=
    hend.history.symm.trans hhistory
  have hmine (x : ι × Completed O σ E R α) (hx : x ∈ past) : mine x.1 := by
    obtain ⟨y, hy⟩ := hpast.mem_exchanges hx
    rw [← hown, List.mem_filter, decide_eq_true_eq] at hy
    exact hy.2
  refine ⟨past, _, ⟨hpast.run, hpast.op, hpast.moved, ?_, hpast.nodup⟩, hmine, hend.state, hown⟩
  intro x hx
  rw [← hpast.result x hx]
  exact hend.program x.1 (hmine x hx)

end Unwinding
end Groups
end ArmatureTenancy.Foundations

import Mathlib.Logic.Function.Basic
import Mathlib.Data.List.Basic

/-!
# Programs over an interface of calls

A program either finishes with a value or makes one call and continues with the
answer. The environment decides the answers: under a choice of its own (an
outcome, a time, an order of iteration) it maps a state and a call to an answer
and a new state, or leaves the call waiting. Sequential execution is the
inductive relation `Runs`, which also records the calls made with their answers.
-/

namespace ArmatureTenancy.Foundations

/-- A program over the calls `E`, whose call `e` is answered by a value of `R e`. -/
inductive Program (E : Type*) (R : E → Type*) (α : Type*) where
  | pure : α → Program E R α
  | call : (e : E) → (R e → Program E R α) → Program E R α

/-- Under a choice, a state and a call: the answer and the new state, or `none`
when the call has to wait. -/
abbrev Environment (C σ E : Type*) (R : E → Type*) := C → σ → (e : E) → Option (R e × σ)

abbrev Exchange (E : Type*) (R : E → Type*) := Σ e : E, R e

namespace Program

variable {C σ E : Type*} {R : E → Type*} {α β γ : Type*}

def bind : Program E R α → (α → Program E R β) → Program E R β
  | .pure a, next => next a
  | .call e rest, next => .call e fun r => (rest r).bind next

instance : Monad (Program E R) where
  pure := .pure
  bind := bind

def perform (e : E) : Program E R (R e) := .call e .pure

@[simp] theorem pure_bind' (a : α) (next : α → Program E R β) :
    (Program.pure a).bind next = next a := rfl

theorem call_congr {e : E} {rest rest' : R e → Program E R α} (h : ∀ r, rest r = rest' r) :
    Program.call e rest = .call e rest' := congrArg (Program.call e) (funext h)

/-- The program with each call and its answer passed on through another interface. -/
def translate {E' : Type*} {R' : E' → Type*} (f : E → E') (back : (e : E) → R' (f e) → R e) :
    Program E R α → Program E' R' α
  | .pure a => .pure a
  | .call e rest => .call (f e) fun r => (rest (back e r)).translate f back

/-- The program with each call carried out by a program over another interface. -/
def expand {E' : Type*} {R' : E' → Type*} (f : (e : E) → Program E' R' (R e)) :
    Program E R α → Program E' R' α
  | .pure a => .pure a
  | .call e rest => (f e).bind fun r => (rest r).expand f

/-- Alone, from `s`, the program finishes with a value in a final state; the
list holds the calls it made, in order, with their answers. -/
inductive Runs (env : Environment C σ E R) :
    Program E R α → σ → List (Exchange E R) → α → σ → Prop
  | pure (a : α) (s : σ) : Runs env (.pure a) s [] a s
  | call {e : E} {rest : R e → Program E R α} {c : C} {s s₁ s' : σ} {r : R e}
      {log : List (Exchange E R)} {a : α} (answered : env c s e = some (r, s₁))
      (tail : Runs env (rest r) s₁ log a s') : Runs env (.call e rest) s (⟨e, r⟩ :: log) a s'

/-- Every call the program can come to make is allowed and its result satisfies
`post`, given that the answers it gets are admissible. -/
def Within (admissible : (e : E) → R e → Prop) (allowed : E → Prop) (post : α → Prop) :
    Program E R α → Prop
  | .pure a => post a
  | .call e rest => allowed e ∧ ∀ r, admissible e r → Within admissible allowed post (rest r)

def Nodes (P : (e : E) → (R e → Program E R α) → Prop) : Program E R α → Prop
  | .pure _ => True
  | .call e rest => P e rest ∧ ∀ r, Nodes P (rest r)

theorem nodes_of_forall {P : (e : E) → (R e → Program E R α) → Prop} (h : ∀ e rest, P e rest)
    (p : Program E R α) : p.Nodes P := by
  induction p with
  | pure a => trivial
  | call e rest ih => exact ⟨h e rest, ih⟩

section Within

variable {admissible : (e : E) → R e → Prop} {allowed : E → Prop} {post : α → Prop}
  {post' : β → Prop}

theorem within_of_forall (hallowed : ∀ e, allowed e) (hpost : ∀ a, post a) (p : Program E R α) :
    p.Within admissible allowed post := by
  induction p with
  | pure a => exact hpost a
  | call e rest ih => exact ⟨hallowed e, fun r _ => ih r⟩

theorem within_bind {p : Program E R α} {next : α → Program E R β}
    (hp : p.Within admissible allowed post)
    (hnext : ∀ a, post a → (next a).Within admissible allowed post') :
    (p.bind next).Within admissible allowed post' := by
  induction p with
  | pure a => exact hnext a hp
  | call e rest ih => exact ⟨hp.1, fun r hr => ih r (hp.2 r hr)⟩

theorem Within.imp {allowed' : E → Prop} {post' : α → Prop} {p : Program E R α}
    (hp : p.Within admissible allowed post) (hallowed : ∀ e, allowed e → allowed' e)
    (hpost : ∀ a, post a → post' a) : p.Within admissible allowed' post' := by
  induction p with
  | pure a => exact hpost a hp
  | call e rest ih => exact ⟨hallowed e hp.1, fun r hr => ih r (hp.2 r hr)⟩

theorem within_expand {E' : Type*} {R' : E' → Type*} {f : (e : E) → Program E' R' (R e)}
    {admissible' : (e : E') → R' e → Prop} {allowed' : E' → Prop}
    (h : ∀ e, allowed e → (f e).Within admissible' allowed' (admissible e)) {p : Program E R α}
    (hp : p.Within admissible allowed post) : (p.expand f).Within admissible' allowed' post := by
  induction p with
  | pure a => exact hp
  | call e rest ih => exact within_bind (h e hp.1) fun r hr => ih r (hp.2 r hr)

theorem within_bind_except.{u} {ε α β : Type u} {post : Except ε α → Prop}
    {post' : Except ε β → Prop} {x : ExceptT ε (Program E R) α}
    {next : α → ExceptT ε (Program E R) β} (hx : x.run.Within admissible allowed post)
    (herr : ∀ err, post (.error err) → post' (.error err))
    (hnext : ∀ a, post (.ok a) → (next a).run.Within admissible allowed post') :
    (x >>= next).run.Within admissible allowed post' := by
  apply within_bind hx
  intro r hr
  cases r with
  | error err => exact herr err hr
  | ok a => exact hnext a hr

end Within

variable {env : Environment C σ E R}

theorem Runs.answered {p : Program E R α} {s s' : σ} {log : List (Exchange E R)} {a : α}
    (h : Runs env p s log a s') {x : Exchange E R} (hx : x ∈ log) :
    ∃ c s₁ s₂, env c s₁ x.1 = some (x.2, s₂) := by
  induction h with
  | pure a s => cases hx
  | @call e rest c s s₁ s' r log a answered _ ih =>
    rcases List.mem_cons.mp hx with rfl | hx
    · exact ⟨c, s, s₁, answered⟩
    · exact ih hx

theorem runs_pure_iff {a b : α} {s s' : σ} {log : List (Exchange E R)} :
    Runs env (.pure a) s log b s' ↔ log = [] ∧ b = a ∧ s' = s := by
  constructor
  · rintro ⟨⟩
    exact ⟨rfl, rfl, rfl⟩
  · rintro ⟨rfl, rfl, rfl⟩
    exact .pure _ _

theorem runs_call_iff {e : E} {rest : R e → Program E R α} {s s' : σ}
    {log : List (Exchange E R)} {a : α} :
    Runs env (.call e rest) s log a s' ↔
      ∃ c r s₁ tail, env c s e = some (r, s₁) ∧ log = ⟨e, r⟩ :: tail ∧
        Runs env (rest r) s₁ tail a s' := by
  constructor
  · rintro ⟨⟩
    exact ⟨_, _, _, _, ‹_›, rfl, ‹_›⟩
  · rintro ⟨c, r, s₁, tail, answered, rfl, h⟩
    exact .call answered h

theorem exists_runs {c : C} (answers : ∀ s e, ∃ r s', env c s e = some (r, s'))
    (p : Program E R α) (s : σ) :
    ∃ log a s', Runs env p s log a s' ∧ ∀ x ∈ log, ∃ s₁ s₂, env c s₁ x.1 = some (x.2, s₂) := by
  induction p generalizing s with
  | pure a => exact ⟨[], a, s, .pure a s, by simp⟩
  | call e rest ih =>
    obtain ⟨r, s₁, answered⟩ := answers s e
    obtain ⟨log, a, s', hrun, hlog⟩ := ih r s₁
    refine ⟨⟨e, r⟩ :: log, a, s', .call answered hrun, ?_⟩
    intro x hx
    rcases List.mem_cons.mp hx with rfl | hx
    · exact ⟨s, s₁, answered⟩
    · exact hlog x hx

theorem runs_bind {p : Program E R α} {next : α → Program E R β} {s s' : σ}
    {log : List (Exchange E R)} {b : β} (h : Runs env (p.bind next) s log b s') :
    ∃ a s₁ first second, Runs env p s first a s₁ ∧ Runs env (next a) s₁ second b s' ∧
      log = first ++ second := by
  induction p generalizing s log with
  | pure a => exact ⟨a, s, [], log, .pure a s, h, rfl⟩
  | call e rest ih =>
    obtain ⟨c, r, s₁, tail, answered, rfl, htail⟩ := runs_call_iff.mp h
    obtain ⟨a, s₂, first, second, hfirst, hsecond, rfl⟩ := ih r htail
    exact ⟨a, s₂, ⟨e, r⟩ :: first, second, .call answered hfirst, hsecond, rfl⟩

theorem runs_bind_except.{u} {ε α β : Type u} {x : ExceptT ε (Program E R) α}
    {next : α → ExceptT ε (Program E R) β} {s s' : σ} {log : List (Exchange E R)}
    {b : Except ε β} (h : Runs env (x >>= next).run s log b s') :
    (∃ err, b = .error err ∧ Runs env x.run s log (.error err) s') ∨
      ∃ a s₁ first second, Runs env x.run s first (.ok a) s₁ ∧
        Runs env (next a).run s₁ second b s' ∧ log = first ++ second := by
  obtain ⟨r, s₁, first, second, hfirst, hsecond, rfl⟩ := runs_bind h
  cases r with
  | error err =>
    obtain ⟨rfl, rfl, rfl⟩ := runs_pure_iff.mp hsecond
    rw [List.append_nil]
    exact .inl ⟨err, rfl, hfirst⟩
  | ok a => exact .inr ⟨a, s₁, first, second, hfirst, hsecond, rfl⟩

theorem runs_map_except.{u} {ε α β : Type u} {x : ExceptT ε (Program E R) α} {f : α → β} {s s' : σ}
    {log : List (Exchange E R)} {b : Except ε β} (h : Runs env (f <$> x).run s log b s') :
    ∃ a, b = f <$> a ∧ Runs env x.run s log a s' := by
  obtain ⟨r, s₁, first, second, hfirst, hsecond, rfl⟩ := runs_bind h
  cases r with
  | error err =>
    obtain ⟨rfl, rfl, rfl⟩ := runs_pure_iff.mp hsecond
    rw [List.append_nil]
    exact ⟨.error err, rfl, hfirst⟩
  | ok a =>
    obtain ⟨rfl, rfl, rfl⟩ := runs_pure_iff.mp hsecond
    rw [List.append_nil]
    exact ⟨.ok a, rfl, hfirst⟩

def execute (env : Environment C σ E R) : Program E R α → List C → σ →
    Option (List (Exchange E R) × α × σ)
  | .pure a, _, s => some ([], a, s)
  | .call _ _, [], _ => none
  | .call e rest, c :: choices, s =>
    match env c s e with
    | none => none
    | some (r, s₁) =>
      (execute env (rest r) choices s₁).map fun outcome => (⟨e, r⟩ :: outcome.1, outcome.2)

theorem runs_of_execute {choices : List C} {p : Program E R α} {s s' : σ}
    {log : List (Exchange E R)} {a : α} (h : p.execute env choices s = some (log, a, s')) :
    Runs env p s log a s' := by
  induction choices generalizing p s log with
  | nil =>
    cases p with
    | pure b =>
      cases h
      exact .pure _ _
    | call e rest => cases h
  | cons c choices ih =>
    cases p with
    | pure b =>
      cases h
      exact .pure _ _
    | call e rest =>
      cases hr : env c s e with
      | none => simp [execute, hr] at h
      | some answer =>
        simp only [execute, hr, Option.map_eq_some_iff] at h
        obtain ⟨⟨tail, a', s₂⟩, htail, heq⟩ := h
        cases heq
        exact .call hr (ih htail)

end Program

/-- One finished operation: the state before it, its calls, its result, the state after it. -/
structure Completed (O σ E : Type*) (R : E → Type*) (α : Type*) where
  op : O
  before : σ
  log : List (Exchange E R)
  result : α
  after : σ

/-- Operations run one after the other from `start`, the most recent one first. -/
inductive Sequential {O C σ E : Type*} {R : E → Type*} {α : Type*} (env : Environment C σ E R)
    (program : O → Program E R α) (start : σ) : List (Completed O σ E R α) → σ → Prop
  | nil : Sequential env program start [] start
  | step {past : List (Completed O σ E R α)} {op : O} {s s' : σ} {log : List (Exchange E R)}
      {a : α} (earlier : Sequential env program start past s)
      (runs : (program op).Runs env s log a s') :
      Sequential env program start (⟨op, s, log, a, s'⟩ :: past) s'

theorem Sequential.append {O C σ E : Type*} {R : E → Type*} {α : Type*} {env : Environment C σ E R}
    {program : O → Program E R α} {start middle s : σ} {past later : List (Completed O σ E R α)}
    (first : Sequential env program start past middle)
    (second : Sequential env program middle later s) :
    Sequential env program start (later ++ past) s := by
  induction second with
  | nil => exact first
  | step earlier runs ih => exact ih.step runs

/-- What holds at the start and after every operation holds at the end. -/
theorem Sequential.at_end {O C σ E : Type*} {R : E → Type*} {α : Type*} {env : Environment C σ E R}
    {program : O → Program E R α} {start s : σ} {past : List (Completed O σ E R α)}
    (h : Sequential env program start past s) {P : σ → Prop} (hstart : P start)
    (hpast : ∀ done ∈ past, P done.after) : P s := by
  cases h with
  | nil => exact hstart
  | step earlier runs => exact hpast _ List.mem_cons_self

def sequence {O C σ E : Type*} {R : E → Type*} {α : Type*} (env : Environment C σ E R)
    (program : O → Program E R α) :
    List (O × List C) → List (Completed O σ E R α) → σ → Option (List (Completed O σ E R α) × σ)
  | [], past, s => some (past, s)
  | (op, choices) :: script, past, s =>
    match (program op).execute env choices s with
    | none => none
    | some (log, a, s') => sequence env program script (⟨op, s, log, a, s'⟩ :: past) s'

theorem sequential_of_sequence {O C σ E : Type*} {R : E → Type*} {α : Type*}
    {env : Environment C σ E R} {program : O → Program E R α} {start s s' : σ}
    {script : List (O × List C)} {past past' : List (Completed O σ E R α)}
    (earlier : Sequential env program start past s)
    (h : sequence env program script past s = some (past', s')) :
    Sequential env program start past' s' := by
  induction script generalizing past s with
  | nil =>
    cases h
    exact earlier
  | cons item script ih =>
    obtain ⟨op, choices⟩ := item
    cases hrun : (program op).execute env choices s with
    | none => simp [sequence, hrun] at h
    | some outcome =>
      obtain ⟨log, a, s₁⟩ := outcome
      simp only [sequence, hrun] at h
      exact ih (earlier.step (Program.runs_of_execute hrun)) h

end ArmatureTenancy.Foundations

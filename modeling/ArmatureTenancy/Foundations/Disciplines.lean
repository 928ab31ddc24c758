import ArmatureTenancy.Foundations.Interleaving

/-!
# Disciplines of interleaved programs

A program that holds on to what it read acts on stale knowledge. A discipline
says, in terms of the shared history alone, which calls a program may make, what
it may rely on about the answers, and what it has established when it finishes.
What it relies on has to survive the turns of the others. A program that follows
its discipline whatever the others do follows it in every interleaving, next to
an invariant of state and history.
-/

namespace ArmatureTenancy.Foundations

/-- The exchanges so far, most recent first. -/
abbrev History (ι E : Type*) (R : E → Type*) := List (ι × Exchange E R)

variable {ι C σ E : Type*} {R : E → Type*} {α : Type*}

/-- Between the two histories only programs other than `i` moved. -/
def OthersMoved (i : ι) (earlier later : History ι E R) : Prop :=
  ∃ more, later = more ++ earlier ∧ ∀ x ∈ more, x.1 ≠ i

namespace OthersMoved

variable {i : ι} {h h₁ h₂ : History ι E R}

theorem refl (i : ι) (h : History ι E R) : OthersMoved i h h := ⟨[], rfl, by simp⟩

theorem cons (x : ι × Exchange E R) (hx : x.1 ≠ i) : OthersMoved i h (x :: h) :=
  ⟨[x], rfl, by simpa using hx⟩

theorem trans (first : OthersMoved i h h₁) (second : OthersMoved i h₁ h₂) :
    OthersMoved i h h₂ := by
  obtain ⟨more₁, rfl, hmore₁⟩ := first
  obtain ⟨more₂, rfl, hmore₂⟩ := second
  refine ⟨more₂ ++ more₁, by rw [List.append_assoc], fun x hx => ?_⟩
  rcases List.mem_append.mp hx with hx | hx
  · exact hmore₂ x hx
  · exact hmore₁ x hx

theorem subset (h : OthersMoved i h₁ h₂) : h₁ ⊆ h₂ := by
  obtain ⟨more, rfl, -⟩ := h
  exact List.subset_append_right more h₁

theorem mem_own (h : OthersMoved i h₁ h₂) {x : Exchange E R} (hx : (i, x) ∈ h₂) :
    (i, x) ∈ h₁ := by
  obtain ⟨more, rfl, hmore⟩ := h
  rcases List.mem_append.mp hx with hx | hx
  · exact absurd rfl (hmore _ hx)
  · exact hx

end OthersMoved

section LastOwn

variable {β : Type*} [DecidableEq ι]

/-- What `f` reads from the most recent exchange of program `i` it reads anything from. -/
def lastOwn (i : ι) (f : Exchange E R → Option β) (h : History ι E R) : Option β :=
  h.findSome? fun x => if x.1 = i then f x.2 else none

variable {i j : ι} {f : Exchange E R → Option β} {x : Exchange E R} {h h' : History ι E R}

theorem lastOwn_cons_some {b : β} (hx : f x = some b) : lastOwn i f ((i, x) :: h) = some b := by
  simp [lastOwn, hx]

theorem lastOwn_cons_none (hx : f x = none) : lastOwn i f ((j, x) :: h) = lastOwn i f h := by
  simp [lastOwn, hx]

theorem OthersMoved.lastOwn_eq (moved : OthersMoved i h h') :
    lastOwn i f h' = lastOwn i f h := by
  obtain ⟨more, rfl, hmore⟩ := moved
  have hnone : more.findSome? (fun x => if x.1 = i then f x.2 else none) = none := by
    rw [List.findSome?_eq_none_iff]
    intro x hx
    exact if_neg (hmore x hx)
  rw [lastOwn, List.findSome?_append, hnone]
  rfl

def allOwn (i : ι) (f : Exchange E R → Option β) (h : History ι E R) : List β :=
  h.filterMap fun x => if x.1 = i then f x.2 else none

theorem allOwn_cons_none (hx : f x = none) : allOwn i f ((j, x) :: h) = allOwn i f h := by
  simp [allOwn, hx]

theorem allOwn_cons_some {b : β} (hx : f x = some b) :
    allOwn i f ((i, x) :: h) = b :: allOwn i f h := by
  simp [allOwn, hx]

theorem OthersMoved.allOwn_eq (moved : OthersMoved i h h') : allOwn i f h' = allOwn i f h := by
  obtain ⟨more, rfl, hmore⟩ := moved
  have hnone : more.filterMap (fun x => if x.1 = i then f x.2 else none) = [] := by
    rw [List.filterMap_eq_nil_iff]
    intro x hx
    exact if_neg (hmore x hx)
  rw [allOwn, List.filterMap_append, hnone]
  rfl

theorem mem_allOwn {b : β} : b ∈ allOwn i f h ↔ ∃ x, (i, x) ∈ h ∧ f x = some b := by
  simp only [allOwn, List.mem_filterMap]
  constructor
  · rintro ⟨⟨j, x⟩, hx, hb⟩
    split at hb
    · next hj => exact ⟨x, hj ▸ hx, hb⟩
    · cases hb
  · rintro ⟨x, hx, hb⟩
    exact ⟨(i, x), hx, by simpa using hb⟩

end LastOwn

section Chains

variable {β : Type*}

/-- What programs make of a value, each once: the one that created it is last. -/
inductive WriteChain (creates : ι → β → Prop) (writes : ι → β → β → Prop) : List ι → β → Prop
  | created {i b} : creates i b → WriteChain creates writes [i] b
  | written {i past b b'} : WriteChain creates writes past b → i ∉ past → writes i b b' →
      WriteChain creates writes (i :: past) b'

variable {creates : ι → β → Prop} {writes : ι → β → β → Prop} {past : List ι} {b b' : β}

theorem WriteChain.nodup (chain : WriteChain creates writes past b) : past.Nodup := by
  induction chain with
  | created _ => exact List.pairwise_singleton _ _
  | written _ hnew _ ih => exact List.nodup_cons.mpr ⟨hnew, ih⟩

theorem WriteChain.invariant {P : β → Prop} (hcreated : ∀ i b, creates i b → P b)
    (hwritten : ∀ i b b', P b → writes i b b' → P b') (chain : WriteChain creates writes past b) :
    P b := by
  induction chain with
  | created hb => exact hcreated _ _ hb
  | written _ _ hwrite ih => exact hwritten _ _ _ ih hwrite

/-- The value is the outcome of a chain of writes by programs that have moved. -/
def Chained (creates : ι → β → Prop) (writes : ι → β → β → Prop) (h : History ι E R) (b : β) :
    Prop :=
  ∃ past, WriteChain creates writes past b ∧ ∀ i ∈ past, i ∈ h.map Prod.fst

variable {h h' : History ι E R} {i : ι}

theorem Chained.mono (chained : Chained creates writes h b) (hsub : h ⊆ h') :
    Chained creates writes h' b := by
  obtain ⟨past, hchain, hmoved⟩ := chained
  exact ⟨past, hchain, fun j hj => List.map_subset _ hsub (hmoved j hj)⟩

theorem Chained.next (chained : Chained creates writes h b) (moved : OthersMoved i h h')
    (x : ι × Exchange E R) : Chained creates writes (x :: h') b :=
  (chained.mono moved.subset).mono (List.subset_cons_self _ _)

theorem Chained.created (hb : creates i b) (hi : i ∈ h.map Prod.fst) :
    Chained creates writes h b := by
  refine ⟨[i], .created hb, fun j hj => ?_⟩
  rw [List.mem_singleton] at hj
  exact hj ▸ hi

theorem Chained.written (chained : Chained creates writes h b) (hfirst : i ∉ h.map Prod.fst)
    (hwrite : writes i b b') (hsub : h ⊆ h') (hi : i ∈ h'.map Prod.fst) :
    Chained creates writes h' b' := by
  obtain ⟨past, hchain, hmoved⟩ := chained
  refine ⟨i :: past, .written hchain (fun hmem => hfirst (hmoved i hmem)) hwrite, fun j hj => ?_⟩
  rcases List.mem_cons.mp hj with rfl | hj
  · exact hi
  · exact List.map_subset _ hsub (hmoved j hj)

theorem OthersMoved.unmoved (moved : OthersMoved i h h') (hfirst : i ∉ h.map Prod.fst) :
    i ∉ h'.map Prod.fst := by
  intro hmem
  obtain ⟨⟨j, x⟩, hx, rfl⟩ := List.mem_map.mp hmem
  exact hfirst (List.mem_map.mpr ⟨(j, x), moved.mem_own hx, rfl⟩)

end Chains

/-- What every program may do, rely on and has to establish, given the history. -/
structure Discipline (ι E : Type*) (R : E → Type*) (α : Type*) where
  allowed : History ι E R → ι → E → Prop
  answers : History ι E R → ι → (e : E) → R e → Prop
  post : History ι E R → ι → α → Prop
  allowed_stable : ∀ {h h' : History ι E R} {i : ι} {e : E}, OthersMoved i h h' →
    allowed h i e → allowed h' i e
  post_stable : ∀ {h h' : History ι E R} {i : ι} {a : α}, OthersMoved i h h' →
    post h i a → post h' i a

/-- From the history on, every call program `i` comes to make is allowed, however
the others move in between, and its result satisfies the postcondition. -/
def Program.Follows (d : Discipline ι E R α) (i : ι) : Program E R α → History ι E R → Prop
  | .pure a, h => d.post h i a
  | .call e rest, h => d.allowed h i e ∧ ∀ h' r, OthersMoved i h h' → d.answers h' i e r →
      (rest r).Follows d i ((i, ⟨e, r⟩) :: h')

variable {d : Discipline ι E R α}

theorem Program.Follows.stable {i : ι} {p : Program E R α} {h h' : History ι E R}
    (hp : p.Follows d i h) (moved : OthersMoved i h h') : p.Follows d i h' := by
  cases p with
  | pure a => exact d.post_stable moved hp
  | call e rest =>
    refine ⟨d.allowed_stable moved hp.1, fun h'' r later hr => ?_⟩
    exact hp.2 h'' r (moved.trans later) hr

theorem Program.follows_of_post {i : ι} (hallowed : ∀ h e, d.allowed h i e)
    (hpost : ∀ h a, d.post h i a) (p : Program E R α) (h : History ι E R) : p.Follows d i h := by
  induction p generalizing h with
  | pure a => exact hpost h a
  | call e rest ih => exact ⟨hallowed h e, fun h' r _ _ => ih r _⟩

variable [DecidableEq ι]

/-- An invariant that every allowed call keeps, and under which answers can be
relied on, holds in every interleaving of programs that follow the discipline. -/
theorem Config.run_follows {env : Environment C σ E R} {inv : Moment ι σ E R → Prop}
    (keeps : ∀ c (now : Moment ι σ E R) i e r s', inv now → d.allowed now.history i e →
      env c now.state e = some (r, s') →
      d.answers now.history i e r ∧ inv ⟨s', (i, ⟨e, r⟩) :: now.history⟩)
    {cfg : Config ι σ E R α} (hinv : inv cfg.toMoment)
    (hcfg : ∀ i, (cfg.program i).Follows d i cfg.history) (schedule : List (ι × C)) :
    inv (cfg.run env schedule).toMoment ∧
      ∀ i, ((cfg.run env schedule).program i).Follows d i (cfg.run env schedule).history := by
  refine run_induction env cfg
    (P := fun cfg => inv cfg.toMoment ∧ ∀ i, (cfg.program i).Follows d i cfg.history)
    ⟨hinv, hcfg⟩ ?_ schedule
  intro cfg turn hboth
  obtain ⟨hinv, hcfg⟩ := hboth
  rcases cfg.step_cases env turn with h | ⟨e, rest, r, s, hp, hr, h⟩
  · rw [h]
    exact ⟨hinv, hcfg⟩
  · have hturn := hcfg turn.1
    rw [hp] at hturn
    obtain ⟨hanswer, hinv'⟩ := keeps _ cfg.toMoment _ _ _ _ hinv hturn.1 hr
    rw [h]
    refine ⟨hinv', fun i => ?_⟩
    by_cases hi : i = turn.1
    · subst hi
      have hrest := hturn.2 cfg.history r (.refl _ _) hanswer
      simpa [advance] using hrest
    · have hother := (hcfg i).stable (OthersMoved.cons (turn.1, ⟨e, r⟩) (Ne.symm hi))
      simpa [advance, hi] using hother

theorem Config.run_follows_blindly {env : Environment C σ E R}
    (blind : ∀ h i e r, d.answers h i e r) {cfg : Config ι σ E R α}
    (hcfg : ∀ i, (cfg.program i).Follows d i cfg.history) (schedule : List (ι × C)) (i : ι) :
    ((cfg.run env schedule).program i).Follows d i (cfg.run env schedule).history := by
  have keeps : ∀ c (now : Moment ι σ E R) i e r s', True → d.allowed now.history i e →
      env c now.state e = some (r, s') → d.answers now.history i e r ∧ True := by
    intro c now i e r s' _ _ _
    exact ⟨blind now.history i e r, trivial⟩
  exact (Config.run_follows keeps trivial hcfg schedule).2 i

end ArmatureTenancy.Foundations

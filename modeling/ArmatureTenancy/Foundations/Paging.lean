import Mathlib.Data.List.Range
import Mathlib.Data.List.TakeDrop

/-!
# Reading a list page by page

A window of a list consists of the entries at the positions between two bounds. A
reader that asks for one window after another, until one is empty, gets the list cut
into pages of one size with a shorter one at the end, provided that every page it asks
for is answered by the window at its place.
-/

namespace ArmatureTenancy.Foundations

variable {α : Type*}

/-- The entries at the positions from `start` on and before `stop`. -/
def window (l : List α) (start stop : ℕ) : List α :=
  (l.zipIdx.filter fun x => start ≤ x.2 ∧ x.2 < stop).map Prod.fst

theorem zipIdx_filter_eq (l : List α) (k start stop : ℕ) :
    ((l.zipIdx k).filter fun x => start ≤ x.2 ∧ x.2 < stop).map Prod.fst =
      (l.drop (start - k)).take (stop - max k start) := by
  induction l generalizing k with
  | nil => simp
  | cons a l ih =>
    rw [List.zipIdx_cons, List.filter_cons]
    rcases Nat.lt_or_ge k start with hbefore | hstart
    · rw [if_neg (by simp; omega), ih, show start - k = start - (k + 1) + 1 by omega,
        List.drop_succ_cons, Nat.max_eq_right hbefore, Nat.max_eq_right hbefore.le]
    · have htail := ih (k + 1)
      have hstart' : start ≤ k + 1 := Nat.le_succ_of_le hstart
      rw [Nat.sub_eq_zero_of_le hstart', List.drop_zero, Nat.max_eq_left hstart'] at htail
      rw [Nat.sub_eq_zero_of_le hstart, List.drop_zero, Nat.max_eq_left hstart]
      rcases Nat.lt_or_ge k stop with hinside | hafter
      · rw [if_pos (by simp; omega), List.map_cons, htail,
          show stop - k = stop - (k + 1) + 1 by omega, List.take_succ_cons]
      · rw [if_neg (by simp; omega), htail, Nat.sub_eq_zero_of_le hafter,
          Nat.sub_eq_zero_of_le (by omega), List.take_zero, List.take_zero]

theorem window_eq (l : List α) (start n : ℕ) :
    window l start (start + n) = (l.drop start).take n := by
  rw [window, zipIdx_filter_eq, Nat.max_eq_right (Nat.zero_le _), Nat.sub_zero,
    Nat.add_sub_cancel_left]

theorem length_window (l : List α) (start n : ℕ) :
    (window l start (start + n)).length = min n (l.length - start) := by
  rw [window_eq, List.length_take, List.length_drop]

theorem window_append_drop (l : List α) (start n : ℕ) :
    window l start (start + n) ++ l.drop (start + n) = l.drop start := by
  rw [window_eq, ← List.drop_drop, List.take_append_drop]

section Pages

variable (fetch : ℕ → Option (List α))

/-- The pages from number `k` on, up to the first empty one. -/
inductive Fetched : ℕ → List (List α) → Prop
  | done {k : ℕ} : fetch k = some [] → Fetched k []
  | next {k : ℕ} {page : List α} {pages : List (List α)} : fetch k = some page → page ≠ [] →
      Fetched (k + 1) pages → Fetched k (page :: pages)

/-- Page `k` is asked for, since no page before it was empty. -/
def Requested (k : ℕ) : Prop := ∀ j < k, ∃ page, fetch j = some page ∧ page ≠ []

variable {fetch} {l : List α} {size k : ℕ}

theorem Requested.succ {page : List α} (h : Requested fetch k) (hpage : fetch k = some page)
    (hne : page ≠ []) : Requested fetch (k + 1) := by
  intro j hj
  rcases Nat.lt_succ_iff_lt_or_eq.mp hj with hj | rfl
  · exact h j hj
  · exact ⟨page, hpage, hne⟩

theorem Fetched.unique {pages pages' : List (List α)} (h : Fetched fetch k pages)
    (h' : Fetched fetch k pages') : pages = pages' := by
  induction h generalizing pages' with
  | done hk =>
    cases h' with
    | done _ => rfl
    | next hk' hne _ =>
      rw [hk, Option.some_inj] at hk'
      exact absurd hk'.symm hne
  | next hk hne _ ih =>
    cases h' with
    | done hk' =>
      rw [hk, Option.some_inj] at hk'
      exact absurd hk' hne
    | next hk' _ htail' =>
      rw [hk, Option.some_inj] at hk'
      rw [hk', ih htail']

theorem Fetched.flatten_ne_nil {pages : List (List α)} (h : Fetched fetch k pages)
    (hpages : pages ≠ []) : pages.flatten ≠ [] := by
  cases h with
  | done _ => exact absurd rfl hpages
  | next _ hne _ => simp [hne]

theorem Fetched.last {pages : List (List α)} (h : Fetched fetch k pages)
    (hk : Requested fetch k) :
    Requested fetch (k + pages.length) ∧ fetch (k + pages.length) = some [] := by
  induction h with
  | done hempty => exact ⟨hk, hempty⟩
  | next hpage hne _ ih =>
    rw [List.length_cons, Nat.add_comm _ 1, ← Nat.add_assoc]
    exact ih (hk.succ hpage hne)

theorem fetched_of_windows (hsize : 0 < size)
    (hwindows : ∀ k, Requested fetch k → fetch k = some (window l (k * size) (k * size + size)))
    (hk : Requested fetch k) :
    ∃ pages, Fetched fetch k pages ∧ pages.flatten = l.drop (k * size) ∧
      ∀ page ∈ pages.dropLast, page.length = size := by
  induction hn : l.length - k * size using Nat.strong_induction_on generalizing k with
  | _ n ih =>
    subst hn
    have hpage := hwindows k hk
    have hlength := length_window l (k * size) size
    rcases Nat.lt_or_ge (k * size) l.length with hmore | hend
    · have hne : window l (k * size) (k * size + size) ≠ [] := by
        intro hnil
        rw [hnil, List.length_nil] at hlength
        omega
      have hnext : (k + 1) * size = k * size + size := Nat.succ_mul k size
      obtain ⟨pages, hfetched, hflatten, hfull⟩ :=
        ih (l.length - (k + 1) * size) (by omega) (hk.succ hpage hne) rfl
      refine ⟨_ :: pages, .next hpage hne hfetched, ?_, ?_⟩
      · rw [List.flatten_cons, hflatten, hnext, window_append_drop]
      · intro page hmem
        by_cases hlast : pages = []
        · simp [hlast] at hmem
        · rw [List.dropLast_cons_of_ne_nil hlast, List.mem_cons] at hmem
          rcases hmem with rfl | hmem
          · have hrest := hfetched.flatten_ne_nil hlast
            rw [hflatten, ne_eq, List.drop_eq_nil_iff] at hrest
            omega
          · exact hfull page hmem
    · have hnil : window l (k * size) (k * size + size) = [] := by
        apply List.eq_nil_of_length_eq_zero
        omega
      rw [hnil] at hpage
      exact ⟨[], .done hpage, (List.drop_eq_nil_of_le hend).symm, by simp⟩

end Pages

section Moving

variable {fetch : ℕ → Option (List α)} {size : ℕ}

theorem mem_window {l : List α} {a : α} {n start stop : ℕ} (ha : l[n]? = some a)
    (hstart : start ≤ n) (hstop : n < stop) : a ∈ window l start stop := by
  refine List.mem_map.mpr ⟨(a, n), List.mem_filter.mpr ⟨?_, by simp [hstart, hstop]⟩, rfl⟩
  exact List.mem_zipIdx_iff_getElem?.mpr ha

theorem Fetched.getElem? {k : ℕ} {pages : List (List α)} (h : Fetched fetch k pages) {j : ℕ}
    (hj : j < pages.length) : pages[j]? = fetch (k + j) := by
  induction h generalizing j with
  | done hk => cases hj
  | @next k page pages hk _ _ ih =>
    cases j with
    | zero => exact hk.symm
    | succ j =>
      rw [List.getElem?_cons_succ, ih (Nat.lt_of_succ_lt_succ hj), Nat.add_assoc, Nat.add_comm 1 j]

/-- A position that never falls, and is passed in the end, was met by one of the windows. -/
theorem exists_window {pos : ℕ → ℕ} (rises : ∀ k, pos k ≤ pos (k + 1)) {last : ℕ}
    (passed : pos last < last * size) :
    ∃ k < last, k * size ≤ pos k ∧ pos k < k * size + size := by
  induction last with
  | zero => simp at passed
  | succ last ih =>
    rw [Nat.succ_mul] at passed
    have hless : pos last < last * size + size := (rises last).trans_lt passed
    rcases Nat.lt_or_ge (pos last) (last * size) with hpassed | hmet
    · obtain ⟨k, hk, hwindow⟩ := ih hpassed
      exact ⟨k, Nat.lt_succ_of_lt hk, hwindow⟩
    · exact ⟨last, Nat.lt_succ_self last, hmet, hless⟩

/-- While the pages are read the list may change. What never moves towards the front is
on one of them. -/
theorem Fetched.exists_page {l : ℕ → List α} (hsize : 0 < size) {pages : List (List α)}
    (hfetched : Fetched fetch 0 pages)
    (hwindows : ∀ k, Requested fetch k → fetch k = some (window (l k) (k * size) (k * size + size)))
    {pos : ℕ → ℕ} (rises : ∀ k, pos k ≤ pos (k + 1)) {a : ℕ → α}
    (hpos : ∀ k, (l k)[pos k]? = some (a k)) :
    ∃ k page, pages[k]? = some page ∧ a k ∈ page := by
  have hstart : Requested fetch 0 := fun j hj => absurd hj (Nat.not_lt_zero j)
  obtain ⟨hlast, hempty⟩ := hfetched.last hstart
  rw [Nat.zero_add] at hlast hempty
  have hpassed : pos pages.length < pages.length * size := by
    have hlength := length_window (l pages.length) (pages.length * size) size
    rw [hwindows _ hlast, Option.some_inj] at hempty
    rw [hempty, List.length_nil] at hlength
    obtain ⟨hinside, -⟩ := List.getElem?_eq_some_iff.mp (hpos pages.length)
    omega
  obtain ⟨k, hk, hmet, hless⟩ := exists_window rises hpassed
  have hpage := hwindows k fun j hj => hlast j (hj.trans hk)
  refine ⟨k, _, ?_, mem_window (hpos k) hmet hless⟩
  rw [hfetched.getElem? hk, Nat.zero_add, hpage]

theorem getElem?_countP {β : Type*} [Preorder β] [DecidableLT β] {f : α → β} {l : List α}
    (hsorted : l.Pairwise fun a b => f b < f a) {a : α} (ha : a ∈ l) :
    l[l.countP fun b => f a < f b]? = some a := by
  induction l with
  | nil => cases ha
  | cons b l ih =>
    obtain ⟨hb, hl⟩ := List.pairwise_cons.mp hsorted
    rcases List.mem_cons.mp ha with rfl | ha
    · have hnone : (a :: l).countP (fun b => f a < f b) = 0 := by
        rw [List.countP_eq_zero]
        intro b hmem
        rcases List.mem_cons.mp hmem with rfl | hmem
        · simp
        · simpa using (hb b hmem).not_gt
      rw [hnone]
      rfl
    · rw [List.countP_cons_of_pos (by simpa using hb a ha), List.getElem?_cons_succ]
      exact ih hl ha

end Moving
end ArmatureTenancy.Foundations

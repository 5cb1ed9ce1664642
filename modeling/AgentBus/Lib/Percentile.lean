import Mathlib.Algebra.BigOperators.Group.Finset.Piecewise
import Mathlib.Algebra.Order.BigOperators.Group.List
import Mathlib.Algebra.Order.Floor.Semiring
import Mathlib.Data.List.Sort
import Mathlib.Data.Rat.Floor
import AgentBus.Lib.Histogram

/-!
# Percentiles and counts

The nearest-rank percentile of some values is the one at the position
`rank q n` when they are sorted. Where only the number of values in each class
is known, `Tallies`, the classes' running totals still say which class holds
that value: `rank_le_countP_iff` is what a search through the totals relies on.
`repeated` spreads the counts of the indices out again.
-/

namespace AgentBus.Lib

/-! ## Ranks -/

/-- The position of the `q`-th percentile among `n` values, counted from 1. -/
def rank (q : ℚ) (n : ℕ) : ℕ := max 1 (min ⌈q * n⌉₊ n)

theorem one_le_rank (q : ℚ) (n : ℕ) : 1 ≤ rank q n := Nat.le_max_left ..

theorem rank_le (q : ℚ) {n : ℕ} (h : n ≠ 0) : rank q n ≤ n :=
  Nat.max_le.mpr ⟨Nat.one_le_iff_ne_zero.mpr h, Nat.min_le_right ..⟩

/-- Nothing is clamped for a proper quantile. -/
theorem rank_eq_ceil {q : ℚ} {n : ℕ} (hpos : 0 < q) (hle : q ≤ 1) (hn : n ≠ 0) :
    rank q n = ⌈q * n⌉₊ := by
  have hn' : (0 : ℚ) < n := by exact_mod_cast Nat.pos_of_ne_zero hn
  have hlow : 0 < ⌈q * n⌉₊ := Nat.ceil_pos.mpr (mul_pos hpos hn')
  have hhigh : ⌈q * n⌉₊ ≤ n := Nat.ceil_le.mpr (mul_le_of_le_one_left hn'.le hle)
  unfold rank
  omega

theorem rank_mono {q q' : ℚ} (h : q ≤ q') (n : ℕ) : rank q n ≤ rank q' n := by
  have : ⌈q * n⌉₊ ≤ ⌈q' * n⌉₊ := Nat.ceil_mono (mul_le_mul_of_nonneg_right h n.cast_nonneg)
  unfold rank
  omega

/-- The nearest-rank percentile; no values have none. -/
def nearestRank (q : ℚ) (values : List ℕ) : Option ℕ :=
  (values.insertionSort (· ≤ ·))[rank q values.length - 1]?

theorem nearestRank_nil (q : ℚ) : nearestRank q [] = none := rfl

theorem nearestRank_of_sorted {values : List ℕ} (h : values.Pairwise (· ≤ ·)) (q : ℚ) :
    nearestRank q values = values[rank q values.length - 1]? := by
  rw [nearestRank, h.insertionSort_eq]

theorem lt_countP_iff {l : List ℕ} (hl : l.Pairwise (· ≤ ·)) {f : ℕ → ℕ} (hf : Monotone f) {k : ℕ}
    (hk : k < l.length) (i : ℕ) : k < l.countP (fun x => decide (f x ≤ i)) ↔ f l[k] ≤ i := by
  induction l generalizing k with
  | nil => exact absurd hk (Nat.not_lt_zero k)
  | cons a l ih =>
    obtain ⟨ha, hl⟩ := List.pairwise_cons.mp hl
    by_cases hai : f a ≤ i
    · rw [List.countP_cons_of_pos (by simpa using hai)]
      cases k with
      | zero => simp [hai]
      | succ k => simpa using ih hl (Nat.lt_of_succ_lt_succ hk)
    · -- no later value is in a smaller class
      have hnone : l.countP (fun x => decide (f x ≤ i)) = 0 := by
        rw [List.countP_eq_zero]
        intro x hx
        rw [decide_eq_true_eq]
        exact fun hxi => hai ((hf (ha x hx)).trans hxi)
      rw [List.countP_cons_of_neg (by simpa using hai), hnone]
      refine iff_of_false (Nat.not_lt_zero k) fun hle => ?_
      cases k with
      | zero => exact hai hle
      | succ k => exact hai ((hf (ha _ (List.getElem_mem _))).trans hle)

/-- **The first class that has at least `rank` values up to it is the percentile's.** -/
theorem rank_le_countP_iff {q : ℚ} {values : List ℕ} {f : ℕ → ℕ} (hf : Monotone f) {x : ℕ}
    (h : nearestRank q values = some x) (i : ℕ) :
    rank q values.length ≤ values.countP (fun x => decide (f x ≤ i)) ↔ f x ≤ i := by
  obtain ⟨hk, rfl⟩ := List.getElem?_eq_some_iff.mp h
  have hsorted := List.pairwise_insertionSort (· ≤ ·) values
  rw [← lt_countP_iff hsorted hf hk i, (List.perm_insertionSort (· ≤ ·) values).countP_eq]
  have := one_le_rank q values.length
  omega

theorem exists_nearestRank (q : ℚ) {values : List ℕ} (h : values ≠ []) :
    ∃ x ∈ values, nearestRank q values = some x := by
  have hlength : values.length ≠ 0 := fun h0 => h (List.length_eq_zero_iff.mp h0)
  have hk : rank q values.length - 1 < (values.insertionSort (· ≤ ·)).length := by
    have := one_le_rank q values.length
    have := rank_le q hlength
    rw [List.length_insertionSort]
    omega
  exact ⟨_, (List.mem_insertionSort _).mp (List.getElem_mem hk), List.getElem?_eq_getElem hk⟩

/-! ## Counts -/

theorem sum_take_eq (cells : List ℕ) (k : ℕ) :
    (cells.take k).sum = ∑ i ∈ Finset.range k, cells.getD i 0 := by
  induction k with
  | zero => simp
  | succ k ih =>
    rw [Finset.sum_range_succ, ← ih, List.take_add_one, List.sum_append, List.getD_eq_getElem?_getD]
    cases cells[k]? <;> simp

/-- The counts say how many of the values each class has. -/
structure Tallies (f : ℕ → ℕ) (values counts : List ℕ) : Prop where
  counted : ∀ i, counts.getD i 0 = values.countP fun x => decide (f x = i)
  classes : ∀ x ∈ values, f x < counts.length

namespace Tallies

variable {f : ℕ → ℕ} {values counts : List ℕ}

/-- A weighted sum of the counts is a sum over the values. -/
theorem sum_range (h : Tallies f values counts) (w : ℕ → ℕ) :
    ∑ i ∈ Finset.range counts.length, w i * counts.getD i 0 =
      (values.map fun x => w (f x)).sum := by
  simp only [h.counted]
  have hclasses := h.classes
  clear h
  induction values with
  | nil => simp
  | cons x values ih =>
    have hx : f x ∈ Finset.range counts.length :=
      Finset.mem_range.mpr (hclasses x List.mem_cons_self)
    rw [List.map_cons, List.sum_cons, ← ih fun y hy => hclasses y (List.mem_cons_of_mem x hy),
      Nat.add_comm, ← Finset.sum_ite_eq_of_mem (Finset.range counts.length) (f x) w hx,
      ← Finset.sum_add_distrib]
    refine Finset.sum_congr rfl fun i _ => ?_
    rw [List.countP_cons, Nat.mul_add]
    simp only [decide_eq_true_eq]
    split <;> simp

theorem sum_take (h : Tallies f values counts) (i : ℕ) :
    (counts.take i).sum = values.countP fun x => decide (f x < i) := by
  induction i with
  | zero => simp
  | succ i ih =>
    rw [sum_take_eq, Finset.sum_range_succ, ← sum_take_eq, ih, h.counted]
    clear h ih
    induction values with
    | nil => rfl
    | cons x values ih =>
      simp only [List.countP_cons, decide_eq_true_eq]
      rw [← ih]
      split <;> split <;> split <;> omega

theorem sum_counts (h : Tallies f values counts) : counts.sum = values.length := by
  have hall := h.sum_take counts.length
  rw [List.take_length] at hall
  rw [hall, List.countP_eq_length]
  exact fun x hx => decide_eq_true (h.classes x hx)

end Tallies

/-! ## Values spread out -/

/-- Each index as often as its count says. -/
def repeated (counts : List ℕ) : List ℕ := counts.zipIdx.flatMap fun p => List.replicate p.1 p.2

example : repeated [2, 0, 3] = [0, 0, 2, 2, 2] := by decide

theorem mem_repeatedFrom {counts : List ℕ} {k x : ℕ}
    (h : x ∈ (counts.zipIdx k).flatMap fun p => List.replicate p.1 p.2) :
    k ≤ x ∧ x < k + counts.length := by
  obtain ⟨⟨c, i⟩, hp, hx⟩ := List.mem_flatMap.mp h
  obtain rfl := List.eq_of_mem_replicate hx
  have := List.mem_zipIdx hp
  exact ⟨this.1, this.2.1⟩

theorem sorted_repeated (counts : List ℕ) : (repeated counts).Pairwise (· ≤ ·) := by
  unfold repeated
  generalize 0 = k
  induction counts generalizing k with
  | nil => exact .nil
  | cons c counts ih =>
    rw [List.zipIdx_cons, List.flatMap_cons, List.pairwise_append]
    refine ⟨List.pairwise_replicate_of_refl .., ih (k + 1), fun x hx y hy => ?_⟩
    obtain rfl := List.eq_of_mem_replicate hx
    have := (mem_repeatedFrom hy).1
    omega

theorem count_repeated (counts : List ℕ) (i : ℕ) : (repeated counts).count i = counts.getD i 0 := by
  have hfrom : ∀ k, ((counts.zipIdx k).flatMap fun p => List.replicate p.1 p.2).count (k + i) =
      counts.getD i 0 := by
    induction counts generalizing i with
    | nil => simp
    | cons c counts ih =>
      intro k
      rw [List.zipIdx_cons, List.flatMap_cons, List.count_append, List.count_replicate]
      cases i with
      | zero =>
        have hnone : ((counts.zipIdx (k + 1)).flatMap fun p => List.replicate p.1 p.2).count k =
            0 := by
          rw [List.count_eq_zero]
          intro hmem
          have := (mem_repeatedFrom hmem).1
          omega
        simp [hnone]
      | succ i =>
        have := ih i (k + 1)
        rw [if_neg (by simp), show k + (i + 1) = k + 1 + i by omega, this]
        simp
  have := hfrom 0
  rwa [Nat.zero_add] at this

theorem tallies_repeated (counts : List ℕ) : Tallies id (repeated counts) counts where
  counted i := by
    rw [← count_repeated, List.count_eq_countP]
    rfl
  classes x hx := by
    have := (mem_repeatedFrom hx).2
    rwa [Nat.zero_add] at this

end AgentBus.Lib

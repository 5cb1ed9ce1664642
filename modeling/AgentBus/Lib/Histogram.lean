import Mathlib.Algebra.BigOperators.Group.List.Basic
import Mathlib.Algebra.Ring.Nat

/-!
# Histograms

One counter for the values below the first boundary, and one for the values
from each boundary on. Every value is counted in exactly one cell.
-/

namespace AgentBus.Lib

/-- A value equal to a boundary lies in the cell that starts there. -/
def binIndex (boundaries : List ℕ) (value : ℕ) : ℕ :=
  (boundaries.filter fun b => decide (b ≤ value)).length

structure Histogram (boundaries : List ℕ) where
  cells : List ℕ
  length_cells : cells.length = boundaries.length + 1

namespace Histogram

variable {boundaries : List ℕ}

def new : Histogram boundaries := ⟨List.replicate (boundaries.length + 1) 0, List.length_replicate⟩

def record (h : Histogram boundaries) (value : ℕ) : Histogram boundaries where
  cells := h.cells.modify (binIndex boundaries value) (· + 1)
  length_cells := by rw [List.length_modify, h.length_cells]

/-- How many values were counted. -/
def total (h : Histogram boundaries) : ℕ := h.cells.sum

theorem binIndex_lt (h : Histogram boundaries) (value : ℕ) :
    binIndex boundaries value < h.cells.length := by
  rw [h.length_cells]
  exact Nat.lt_succ_of_le (List.length_filter_le ..)

theorem sum_modify {l : List ℕ} {i : ℕ} (h : i < l.length) :
    (l.modify i (· + 1)).sum = l.sum + 1 := by
  induction l generalizing i with
  | nil => exact absurd h (Nat.not_lt_zero i)
  | cons a l ih =>
    cases i with
    | zero => simp [Nat.add_right_comm]
    | succ i =>
        rw [List.modify_succ_cons, List.sum_cons, ih (Nat.lt_of_succ_lt_succ h), List.sum_cons,
        Nat.add_assoc]

@[simp] theorem total_new : (new : Histogram boundaries).total = 0 := by
  simp [total, new]

@[simp] theorem total_record (h : Histogram boundaries) (value : ℕ) :
    (h.record value).total = h.total + 1 :=
  sum_modify (h.binIndex_lt value)

theorem getD_cells_record (h : Histogram boundaries) (value i : ℕ) :
    (h.record value).cells.getD i 0 =
      h.cells.getD i 0 + if binIndex boundaries value = i then 1 else 0 := by
  have hlt := h.binIndex_lt value
  rw [record, List.getD_eq_getElem?_getD, List.getD_eq_getElem?_getD, List.getElem?_modify]
  by_cases hi : binIndex boundaries value = i
  · subst hi
    simp [hlt]
  · simp [hi]

/-- Recording values adds to each cell how many of them fall into it. -/
theorem getD_cells_foldl (h : Histogram boundaries) (values : List ℕ) (i : ℕ) :
    (values.foldl record h).cells.getD i 0 =
      h.cells.getD i 0 + values.countP fun x => decide (binIndex boundaries x = i) := by
  induction values generalizing h with
  | nil => rfl
  | cons x values ih =>
    rw [List.foldl_cons, ih, getD_cells_record, List.countP_cons, Nat.add_assoc]
    simp only [decide_eq_true_eq, Nat.add_comm]

/-- No cell is smaller. -/
def Le (h h' : Histogram boundaries) : Prop := ∀ i, h.cells.getD i 0 ≤ h'.cells.getD i 0

theorem Le.refl (h : Histogram boundaries) : h.Le h := fun _ => Nat.le_refl _

theorem Le.trans {h h' h'' : Histogram boundaries} (hle : h.Le h') (hle' : h'.Le h'') : h.Le h'' :=
  fun i => Nat.le_trans (hle i) (hle' i)

theorem le_record (h : Histogram boundaries) (value : ℕ) : h.Le (h.record value) := by
  intro i
  rw [getD_cells_record]
  exact Nat.le_add_right ..

end Histogram

end AgentBus.Lib

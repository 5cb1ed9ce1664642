import Mathlib.Data.List.Induction
import Mathlib.Data.Option.Basic
import Mathlib.Order.MinMax

/-!
# Positions in an ordered log

A reader's position is the last entry it passed, or nothing yet. An entry is
*beyond* a position if it is greater. `advance` moves a position forward to an
entry and never backwards; `snap` drags a stale position up to a bound.
-/

namespace AgentBus.Lib

variable {α : Type*} [LinearOrder α]

def isBeyond : Option α → α → Bool
  | none, _ => true
  | some p, x => decide (p < x)

def advance (x : α) : Option α → Option α
  | none => some x
  | some p => some (if p < x then x else p)

def snap (bound p : α) : α := if p < bound then bound else p

@[simp] theorem isBeyond_none (x : α) : isBeyond none x = true := rfl

@[simp] theorem isBeyond_some (p x : α) : isBeyond (some p) x = decide (p < x) := rfl

theorem isBeyond_advance (x y : α) (pos : Option α) :
    isBeyond (advance x pos) y = (isBeyond pos y && decide (x < y)) := by
  cases pos with
  | none => simp [advance]
  | some p =>
    by_cases h : p < x
    · by_cases hy : x < y
      · simp [advance, h, hy, lt_trans h hy]
      · simp [advance, h, hy]
    · by_cases hy : p < y
      · simp [advance, h, hy, lt_of_le_of_lt (not_lt.mp h) hy]
      · simp [advance, h, hy]

theorem advance_advance {x y : α} (h : x ≤ y) (pos : Option α) :
    advance y (advance x pos) = advance y pos := by
  cases pos with
  | none => rcases lt_or_eq_of_le h with hlt | rfl <;> simp [advance, *]
  | some p =>
    by_cases hp : p < x
    · have := lt_of_lt_of_le hp h
      rcases lt_or_eq_of_le h with hlt | rfl <;> simp [advance, *]
    · simp [advance, hp]

theorem advance_eq_some {x q : α} {pos : Option α} (h : advance x pos = some q) :
    pos = some q ∨ x = q := by
  cases pos with
  | none => exact .inr (Option.some.inj h)
  | some p =>
    rw [advance, Option.some.injEq] at h
    split at h
    · exact .inr h
    · exact .inl (congrArg some h)

theorem map_snap_eq_some {bound q : α} {pos : Option α} (h : pos.map (snap bound) = some q) :
    pos = some q ∨ bound = q := by
  obtain ⟨p, rfl, hq⟩ := Option.map_eq_some_iff.mp h
  unfold snap at hq
  split at hq
  · exact .inr hq
  · exact .inl (congrArg some hq)

/-- The largest of a position and of entries in order: the position advanced to the last of them. -/
theorem max?_eq_advance {xs : List α} (h : xs.Pairwise (· ≤ ·)) (pos : Option α) :
    (pos.toList ++ xs).max? = xs.getLast?.elim pos fun x => advance x pos := by
  induction xs using List.reverseRecOn with
  | nil => cases pos <;> rfl
  | append_singleton xs x _ =>
    have hle : ∀ b ∈ xs ++ [x], b ≤ x := by
      intro b hb
      rcases List.mem_append.mp hb with hb | hb
      · exact (List.pairwise_append.mp h).2.2 b hb x (List.mem_singleton_self x)
      · exact le_of_eq (List.mem_singleton.mp hb)
    rw [List.getLast?_concat, Option.elim_some]
    cases pos with
    | none => exact List.max?_eq_some_iff.mpr ⟨by simp, hle⟩
    | some p =>
      refine List.max?_eq_some_iff.mpr ⟨?_, fun b hb => ?_⟩
      · split <;> simp
      · rcases List.mem_cons.mp hb with rfl | hb
        · split
          · exact le_of_lt ‹_›
          · exact le_refl _
        · split
          · exact hle b hb
          · exact le_trans (hle b hb) (not_lt.mp ‹_›)

theorem isBeyond_of_le {pos : Option α} {x y : α} (hxy : x ≤ y) (h : isBeyond pos x = true) :
    isBeyond pos y = true := by
  cases pos with
  | none => rfl
  | some p => simpa using lt_of_lt_of_le (of_decide_eq_true h) hxy

theorem isBeyond_snap (bound y : α) (pos : Option α) :
    isBeyond (pos.map (snap bound)) y =
      (isBeyond pos y && (pos.all (fun p => decide (bound ≤ p)) || decide (bound < y))) := by
  cases pos with
  | none => simp
  | some p =>
    by_cases h : p < bound
    · by_cases hy : bound < y
      · simp [snap, h, hy, lt_trans h hy]
      · simp [snap, h, hy]
    · simp [snap, h, not_lt.mp h]

end AgentBus.Lib

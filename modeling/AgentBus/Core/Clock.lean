import Mathlib.Algebra.Order.Ring.Int

/-!
# Days and dates

`now_rfc3339` counts the days since the epoch and turns them into a year, a
month and a day with `civil_from_days`. Its arithmetic is in `i64`, where
division truncates; `none` stands for a value that does not fit.
-/

namespace AgentBus

/-! ## Machine integers -/

/-- A value that fits an `i64`. -/
def i64 (x : ℤ) : Option ℤ := if -2 ^ 63 ≤ x ∧ x < 2 ^ 63 then some x else none

/-- `u32::try_from` -/
def u32TryFrom (x : ℤ) : Option ℕ := if 0 ≤ x ∧ x < 2 ^ 32 then some x.toNat else none

/-! ## Dates -/

/-- The year of the date, and its month and its day before they are converted. -/
structure CivilParts where
  y : ℤ
  m : ℤ
  d : ℤ

/-- The arithmetic of `civil_from_days`; `none` if a value on the way does not fit. A quotient by a
positive constant does. -/
def civilParts (z : ℤ) : Option CivilParts := do
  let z ← i64 (z + 719468)
  let shifted ← (if 0 ≤ z then some z else i64 (z - 146096))
  let era ← i64 (shifted.tdiv 146097)
  let doe ← i64 (z - (← i64 (era * 146097)))
  let yoe ← i64
    ((← i64 ((← i64 ((← i64 (doe - doe.tdiv 1460)) + doe.tdiv 36524)) - doe.tdiv 146096)).tdiv 365)
  let y ← i64 (yoe + (← i64 (era * 400)))
  let doy ← i64 (doe - (← i64 ((← i64 ((← i64 (365 * yoe)) + yoe.tdiv 4)) - yoe.tdiv 100)))
  let mp ← i64 ((← i64 ((← i64 (5 * doy)) + 2)).tdiv 153)
  let d ← i64 ((← i64 (doy - (← i64 ((← i64 (153 * mp)) + 2)).tdiv 5)) + 1)
  let m ← (if mp < 10 then i64 (mp + 3) else i64 (mp - 9))
  let y ← (if m ≤ 2 then i64 (y + 1) else some y)
  return ⟨y, m, d⟩

def civilFromDays (z : ℤ) : Option (ℤ × ℕ × ℕ) :=
  (civilParts z).map fun p => (p.y, (u32TryFrom p.m).getD 0, (u32TryFrom p.d).getD 0)

example : civilFromDays 20000 = some (2024, 10, 4) := by decide

end AgentBus

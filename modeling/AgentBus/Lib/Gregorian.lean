import Mathlib.Algebra.BigOperators.Intervals
import Mathlib.Algebra.Order.BigOperators.Group.Finset
import Mathlib.Tactic.IntervalCases

/-!
# The Gregorian calendar

A `Date` is a day that the calendar has. `next` is the day after it, and
`ordinal` numbers the days from the first of January of the year 1 on:
`ordinal_next` and `ordinal_lt_iff` say that the number of a date is its place
in the calendar.
-/

namespace AgentBus.Lib.Gregorian

/-! ## Months -/

def IsLeap (year : ℤ) : Prop := 4 ∣ year ∧ (¬ 100 ∣ year ∨ 400 ∣ year)

instance (year : ℤ) : Decidable (IsLeap year) :=
  inferInstanceAs (Decidable (4 ∣ year ∧ (¬ 100 ∣ year ∨ 400 ∣ year)))

/-- The length of a month, February being the second. -/
def daysInMonth (year : ℤ) (month : ℕ) : ℕ :=
  if month = 2 then if IsLeap year then 29 else 28
  else if month = 4 ∨ month = 6 ∨ month = 9 ∨ month = 11 then 30
  else 31

theorem daysInMonth_pos (year : ℤ) (month : ℕ) : 1 ≤ daysInMonth year month := by
  unfold daysInMonth
  split_ifs <;> omega

theorem daysInMonth_le (year : ℤ) (month : ℕ) : daysInMonth year month ≤ 31 := by
  unfold daysInMonth
  split_ifs <;> omega

/-- The days of the year before a month. -/
def daysBeforeMonth (year : ℤ) (month : ℕ) : ℕ := ∑ k ∈ Finset.Ico 1 month, daysInMonth year k

theorem daysBeforeMonth_one (year : ℤ) : daysBeforeMonth year 1 = 0 := by
  rw [daysBeforeMonth, Finset.Ico_self, Finset.sum_empty]

theorem daysBeforeMonth_succ (year : ℤ) {month : ℕ} (h : 1 ≤ month) :
    daysBeforeMonth year (month + 1) = daysBeforeMonth year month + daysInMonth year month :=
  Finset.sum_Ico_succ_top h _

theorem daysBeforeMonth_mono (year : ℤ) : Monotone (daysBeforeMonth year) := fun _ _ h =>
  Finset.sum_le_sum_of_subset (Finset.Ico_subset_Ico_right h)

/-- From March on the months are 31, 30, 31, 30 and 31 days long, over and over. -/
theorem daysInMonth_march (year : ℤ) {k : ℕ} (h : k ≤ 9) :
    (153 * k + 2) / 5 + daysInMonth year (k + 3) = (153 * (k + 1) + 2) / 5 := by
  interval_cases k <;> rfl

theorem daysBeforeMonth_march (year : ℤ) {k : ℕ} (h : k ≤ 10) :
    daysBeforeMonth year (k + 3) = 59 + (if IsLeap year then 1 else 0) + (153 * k + 2) / 5 := by
  induction k with
  | zero =>
    rw [daysBeforeMonth_succ year (by omega), daysBeforeMonth_succ year (by omega),
      daysBeforeMonth_one]
    unfold daysInMonth
    split_ifs <;> omega
  | succ k ih =>
    have hmonth := daysInMonth_march year (Nat.le_of_succ_le_succ h)
    rw [daysBeforeMonth_succ year (by omega), ih (by omega)]
    omega

/-! ## Years -/

/-- The days of the years from 1 up to a year. -/
def daysBeforeYear (year : ℤ) : ℤ :=
  365 * (year - 1) + (year - 1) / 4 - (year - 1) / 100 + (year - 1) / 400

theorem daysBeforeYear_march (year : ℤ) : daysBeforeYear year + (if IsLeap year then 1 else 0 : ℕ) =
    365 * year + year / 4 - year / 100 + year / 400 - 365 := by
  unfold daysBeforeYear
  by_cases h : IsLeap year
  · rw [if_pos h]
    unfold IsLeap at h
    omega
  · rw [if_neg h]
    unfold IsLeap at h
    omega

theorem daysBeforeYear_succ (year : ℤ) :
    daysBeforeYear (year + 1) = daysBeforeYear year + daysBeforeMonth year 13 := by
  have hleap := daysBeforeYear_march year
  rw [daysBeforeMonth_march year (Nat.le_refl 10)]
  unfold daysBeforeYear at hleap ⊢
  omega

theorem daysBeforeYear_mono {y y' : ℤ} (h : y ≤ y') : daysBeforeYear y ≤ daysBeforeYear y' := by
  unfold daysBeforeYear
  omega

/-! ## Dates -/

@[ext] structure Date where
  year : ℤ
  month : ℕ
  day : ℕ
  month_pos : 1 ≤ month
  month_le : month ≤ 12
  day_pos : 1 ≤ day
  day_le : day ≤ daysInMonth year month

namespace Date

instance : LT Date where
  lt a b := a.year < b.year ∨ a.year = b.year ∧
    (a.month < b.month ∨ a.month = b.month ∧ a.day < b.day)

theorem lt_def {a b : Date} : a < b ↔
    a.year < b.year ∨ a.year = b.year ∧ (a.month < b.month ∨ a.month = b.month ∧ a.day < b.day) :=
  Iff.rfl

theorem lt_trichotomy (a b : Date) : a < b ∨ a = b ∨ b < a := by
  rw [lt_def, lt_def, Date.ext_iff]
  omega

/-- The day after. -/
def next (a : Date) : Date :=
  if h : a.day < daysInMonth a.year a.month then
    { a with day := a.day + 1, day_pos := Nat.succ_pos _, day_le := h }
  else if h : a.month < 12 then
    ⟨a.year, a.month + 1, 1, Nat.succ_pos _, h, Nat.le_refl 1, daysInMonth_pos ..⟩
  else ⟨a.year + 1, 1, 1, Nat.le_refl 1, by omega, Nat.le_refl 1, daysInMonth_pos ..⟩

/-- The first of January of the year 1 has number 1. -/
def ordinal (a : Date) : ℤ := daysBeforeYear a.year + daysBeforeMonth a.year a.month + a.day

theorem ordinal_next (a : Date) : a.next.ordinal = a.ordinal + 1 := by
  have hday := a.day_le
  have hmonth := a.month_le
  have hbefore := daysBeforeMonth_succ a.year a.month_pos
  unfold next
  split_ifs with hlast hdecember
  · simp only [ordinal]
    omega
  · simp only [ordinal, hbefore]
    omega
  · have hdec : a.month = 12 := by omega
    rw [hdec] at hbefore hlast hday
    simp only [ordinal, daysBeforeYear_succ, daysBeforeMonth_one, hdec, hbefore]
    omega

theorem ordinal_lt {a b : Date} (h : a < b) : a.ordinal < b.ordinal := by
  have hday := a.day_le
  have hpos := b.day_pos
  have hbefore := daysBeforeMonth_succ a.year a.month_pos
  rcases h with hyear | ⟨hyear, hmonth | ⟨hmonth, hlt⟩⟩
  · have hnext : daysBeforeYear (a.year + 1) ≤ daysBeforeYear b.year := daysBeforeYear_mono hyear
    have hmonths : daysBeforeMonth a.year (a.month + 1) ≤ daysBeforeMonth a.year 13 :=
      daysBeforeMonth_mono a.year (Nat.succ_le_succ a.month_le)
    rw [daysBeforeYear_succ] at hnext
    unfold ordinal
    omega
  · have hmonths : daysBeforeMonth a.year (a.month + 1) ≤ daysBeforeMonth a.year b.month :=
      daysBeforeMonth_mono a.year hmonth
    unfold ordinal
    rw [← hyear]
    omega
  · unfold ordinal
    rw [← hyear, ← hmonth]
    omega

/-- **Dates are ordered as their numbers are.** -/
theorem ordinal_lt_iff {a b : Date} : a.ordinal < b.ordinal ↔ a < b := by
  refine ⟨fun h => ?_, ordinal_lt⟩
  rcases lt_trichotomy a b with hlt | rfl | hgt
  · exact hlt
  · omega
  · have := ordinal_lt hgt
    omega

theorem ordinal_injective {a b : Date} (h : a.ordinal = b.ordinal) : a = b := by
  rcases lt_trichotomy a b with hlt | heq | hgt
  · have := ordinal_lt hlt
    omega
  · exact heq
  · have := ordinal_lt hgt
    omega

/-- **The date of a day of a year that begins with March, its months counted from 0.** -/
theorem exists_of_march {y doy : ℤ} (hdoy : 0 ≤ doy)
    (hlast : doy ≤ 364 ∨ doy = 365 ∧ IsLeap (y + 1)) :
    ∃ a : Date, a.ordinal = 365 * y + y / 4 - y / 100 + y / 400 + doy - 305 ∧
      a.year = (if (5 * doy + 2) / 153 < 10 then y else y + 1) ∧
      (a.month : ℤ) =
        (if (5 * doy + 2) / 153 < 10 then (5 * doy + 2) / 153 + 3 else (5 * doy + 2) / 153 - 9) ∧
      (a.day : ℤ) = doy - (153 * ((5 * doy + 2) / 153) + 2) / 5 + 1 := by
  have hle : doy ≤ 365 := hlast.elim (by omega) fun h => h.1.le
  obtain ⟨mp, hmp⟩ : ∃ mp : ℕ, (5 * doy + 2) / 153 = mp := ⟨((5 * doy + 2) / 153).toNat, by omega⟩
  have hstart : (153 * (mp : ℤ) + 2) / 5 = ((153 * mp + 2) / 5 : ℕ) := by omega
  obtain ⟨day, hday⟩ : ∃ day : ℕ, doy - ((153 * mp + 2) / 5 : ℕ) + 1 = (day : ℤ) :=
    ⟨(doy - ((153 * mp + 2) / 5 : ℕ) + 1).toNat, by omega⟩
  rw [hmp, hstart]
  by_cases hyear : mp < 10
  · have hmonth := daysInMonth_march y (Nat.le_of_lt_succ hyear)
    have hbefore := daysBeforeMonth_march y hyear.le
    refine ⟨⟨y, mp + 3, day, by omega, by omega, by omega, by omega⟩, ?_, ?_, ?_, hday.symm⟩
    · have hleap := daysBeforeYear_march y
      simp only [ordinal, hbefore]
      omega
    · rw [if_pos (by omega)]
    · rw [if_pos (by omega)]
      simp
  · have hjanuary : daysBeforeMonth (y + 1) 2 = 31 := rfl
    have hmonth : mp = 10 ∨ mp = 11 := by omega
    rcases hmonth with rfl | rfl
    · refine ⟨⟨y + 1, 1, day, by omega, by omega, by omega, ?_⟩, ?_, ?_, ?_, hday.symm⟩
      · show day ≤ 31
        omega
      · simp only [ordinal, daysBeforeMonth_one]
        unfold daysBeforeYear
        omega
      · rfl
      · rfl
    · refine ⟨⟨y + 1, 2, day, by omega, by omega, by omega, ?_⟩, ?_, ?_, ?_, hday.symm⟩
      · rw [daysInMonth, if_pos rfl]
        rcases hlast with hlast | ⟨hlast, hleap⟩
        · split
          · omega
          · omega
        · rw [if_pos hleap]
          omega
      · simp only [ordinal, hjanuary]
        unfold daysBeforeYear
        omega
      · rfl
      · rfl

end Date

end AgentBus.Lib.Gregorian

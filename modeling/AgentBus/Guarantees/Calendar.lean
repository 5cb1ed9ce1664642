import AgentBus.Core.Clock
import AgentBus.Lib.Gregorian

/-!
# Days since the epoch and the calendar

`civil_from_days` takes a day apart into eras of 400 years that begin with
March, and a day of an era into centuries, cycles of four years, years and
months. `civilParts_eq` is what its arithmetic comes to, step by step, and
`exists_civilParts` says that it is the date with the number of the day.
-/

namespace AgentBus

open Lib.Gregorian

/-! ## Conversions -/

theorem i64_of_fits {x : ℤ} (hlo : -2 ^ 63 ≤ x) (hhi : x < 2 ^ 63) : i64 x = some x :=
  if_pos ⟨hlo, hhi⟩

theorem bind_of_eq_some {α β : Type} {o : Option α} {a : α} {f : α → Option β} {b : β}
    (h : o = some a) (hf : f a = some b) : (o >>= f) = some b := by
  rw [h]
  exact hf

theorem u32TryFrom_natCast {n : ℕ} (h : n < 2 ^ 32) : u32TryFrom n = some n := by
  rw [u32TryFrom, if_pos ⟨by omega, by omega⟩, Int.toNat_natCast]

/-! ## Days of an era -/

/-- Division rounds down before the epoch as well. -/
theorem era_eq (n : ℤ) : (if 0 ≤ n then n else n - 146096).tdiv 146097 = n / 146097 := by
  split
  · next h => rw [Int.tdiv_eq_ediv_of_nonneg h]
  · next h =>
    rw [← Int.neg_neg (n - 146096), Int.neg_tdiv, Int.tdiv_eq_ediv_of_nonneg (by omega)]
    omega

/-- A day of an era, by its century, its cycle of four years, its year in the cycle and its day in
the year. -/
structure DayOfEra where
  century : ℤ
  cycle : ℤ
  year : ℤ
  doy : ℤ
  century_mem : 0 ≤ century ∧ century ≤ 3
  cycle_mem : 0 ≤ cycle ∧ cycle ≤ 24
  year_mem : 0 ≤ year ∧ year ≤ 3
  doy_nonneg : 0 ≤ doy
  /-- The last year of a cycle has a leap day, but for the last cycle of a century that does not end
  the era. -/
  doy_le : doy ≤ 364 ∨ doy = 365 ∧ year = 3 ∧ (cycle ≤ 23 ∨ century = 3)

namespace DayOfEra

def doe (a : DayOfEra) : ℤ := 36524 * a.century + 1461 * a.cycle + 365 * a.year + a.doy

def yoe (a : DayOfEra) : ℤ := 100 * a.century + 4 * a.cycle + a.year

theorem doe_mem (a : DayOfEra) : 0 ≤ a.doe ∧ a.doe < 146097 := by
  obtain ⟨century, cycle, year, doy, hcentury, hcycle, hyear, hdoy, hlast⟩ := a
  simp only [doe]
  omega

theorem yoe_mem (a : DayOfEra) : 0 ≤ a.yoe ∧ a.yoe ≤ 399 := by
  obtain ⟨century, cycle, year, doy, hcentury, hcycle, hyear, hdoy, hlast⟩ := a
  simp only [yoe]
  omega

theorem doy_mem (a : DayOfEra) : 0 ≤ a.doy ∧ a.doy ≤ 365 :=
  ⟨a.doy_nonneg, a.doy_le.elim (by omega) fun h => h.1.le⟩

theorem exists_of_doe {doe : ℤ} (h : 0 ≤ doe) (hlt : doe < 146097) :
    ∃ a : DayOfEra, a.doe = doe := by
  obtain ⟨century, hcentury⟩ : ∃ century, century = min (doe / 36524) 3 := ⟨_, rfl⟩
  obtain ⟨cycle, hcycle⟩ : ∃ cycle, cycle = (doe - 36524 * century) / 1461 := ⟨_, rfl⟩
  obtain ⟨year, hyear⟩ : ∃ year, year = min ((doe - 36524 * century - 1461 * cycle) / 365) 3 :=
    ⟨_, rfl⟩
  refine ⟨⟨century, cycle, year, doe - 36524 * century - 1461 * cycle - 365 * year,
    by omega, by omega, by omega, by omega, by omega⟩, ?_⟩
  simp only [DayOfEra.doe]
  omega

/-- The leap days before the day are taken off before the division. -/
theorem div_eq_yoe (a : DayOfEra) :
    (a.doe - a.doe / 1460 + a.doe / 36524 - a.doe / 146096) / 365 = a.yoe := by
  obtain ⟨century, cycle, year, doy, hcentury, hcycle, hyear, hdoy, hlast⟩ := a
  simp only [yoe]
  generalize hdoe : doe _ = n
  simp only [doe] at hdoe
  have hfour : n / 1460 = 25 * century + cycle +
    (24 * century + cycle + 365 * year + doy) / 1460 := by omega
  have hhundred : n / 36524 - n / 146096 = century := by
    by_cases hend : n = 146096
    · omega
    · have : n / 146096 = 0 := by omega
      omega
  have hyears : n - n / 1460 + n / 36524 - n / 146096 = 365 * (100 * century + 4 * cycle + year) +
      (doy - (24 * century + cycle + 365 * year + doy) / 1460) := by omega
  rw [hyears]
  omega

theorem sub_eq_doy (a : DayOfEra) : a.doe - (365 * a.yoe + a.yoe / 4 - a.yoe / 100) = a.doy := by
  obtain ⟨century, cycle, year, doy, hcentury, hcycle, hyear, hdoy, hlast⟩ := a
  simp only [doe, yoe]
  omega

end DayOfEra

/-! ## The arithmetic -/

section
variable {β : Type} {b : β}

theorem bind_era {n era doe : ℤ} (hn : n = 146097 * era + doe) (hdoe : 0 ≤ doe ∧ doe < 146097)
    (hlo : -2 ^ 62 ≤ n) (hhi : n ≤ 2 ^ 62 + 719468) {f : ℤ → ℤ → Option β}
    (hf : f era doe = some b) :
    (do let shifted ← (if 0 ≤ n then some n else i64 (n - 146096))
        let era ← i64 (shifted.tdiv 146097)
        let days ← i64 (era * 146097)
        let doe ← i64 (n - days)
        f era doe) = some b := by
  have hshift : (if 0 ≤ n then some n else i64 (n - 146096)) =
      some (if 0 ≤ n then n else n - 146096) := by
    rw [i64_of_fits (by omega) (by omega), apply_ite some]
  have hera : i64 ((if 0 ≤ n then n else n - 146096).tdiv 146097) = some era := by
    rw [era_eq, show n / 146097 = era by omega]
    exact i64_of_fits (by omega) (by omega)
  have hrest : i64 (n - era * 146097) = some doe := by
    rw [show n - era * 146097 = doe by omega]
    exact i64_of_fits (by omega) (by omega)
  refine bind_of_eq_some hshift (bind_of_eq_some hera ?_)
  exact bind_of_eq_some (i64_of_fits (by omega) (by omega)) (bind_of_eq_some hrest hf)

theorem bind_yoe (a : DayOfEra) {f : ℤ → Option β} (hf : f a.yoe = some b) :
    (do let days ← i64 (a.doe - a.doe.tdiv 1460)
        let days ← i64 (days + a.doe.tdiv 36524)
        let days ← i64 (days - a.doe.tdiv 146096)
        let yoe ← i64 (days.tdiv 365)
        f yoe) = some b := by
  have hdoe := a.doe_mem
  have hyoe := a.yoe_mem
  have hdiv := a.div_eq_yoe
  simp only [Int.tdiv_eq_ediv_of_nonneg hdoe.1]
  refine bind_of_eq_some (i64_of_fits (by omega) (by omega)) ?_
  refine bind_of_eq_some (i64_of_fits (by omega) (by omega)) ?_
  refine bind_of_eq_some (i64_of_fits (by omega) (by omega)) ?_
  rw [Int.tdiv_eq_ediv_of_nonneg (by omega), hdiv]
  exact bind_of_eq_some (i64_of_fits (by omega) (by omega)) hf

theorem bind_doy (a : DayOfEra) {f : ℤ → Option β} (hf : f a.doy = some b) :
    (do let days ← i64 (365 * a.yoe)
        let days ← i64 (days + a.yoe.tdiv 4)
        let days ← i64 (days - a.yoe.tdiv 100)
        let doy ← i64 (a.doe - days)
        f doy) = some b := by
  have hyoe := a.yoe_mem
  have hdoy := a.doy_mem
  have hsub := a.sub_eq_doy
  simp only [Int.tdiv_eq_ediv_of_nonneg hyoe.1]
  refine bind_of_eq_some (i64_of_fits (by omega) (by omega)) ?_
  refine bind_of_eq_some (i64_of_fits (by omega) (by omega)) ?_
  refine bind_of_eq_some (i64_of_fits (by omega) (by omega)) ?_
  rw [hsub]
  exact bind_of_eq_some (i64_of_fits (by omega) (by omega)) hf

theorem bind_month {doy : ℤ} (hdoy : 0 ≤ doy ∧ doy ≤ 365) {f : ℤ → ℤ → Option β}
    (hf : f ((5 * doy + 2) / 153) (doy - (153 * ((5 * doy + 2) / 153) + 2) / 5 + 1) = some b) :
    (do let days ← i64 (5 * doy)
        let days ← i64 (days + 2)
        let mp ← i64 (days.tdiv 153)
        let days ← i64 (153 * mp)
        let days ← i64 (days + 2)
        let d ← i64 (doy - days.tdiv 5)
        let d ← i64 (d + 1)
        f mp d) = some b := by
  generalize hmp : (5 * doy + 2) / 153 = mp at hf
  have hmonth : i64 ((5 * doy + 2).tdiv 153) = some mp := by
    rw [Int.tdiv_eq_ediv_of_nonneg (by omega), hmp]
    exact i64_of_fits (by omega) (by omega)
  have hday : i64 (doy - (153 * mp + 2).tdiv 5) = some (doy - (153 * mp + 2) / 5) := by
    rw [Int.tdiv_eq_ediv_of_nonneg (by omega)]
    exact i64_of_fits (by omega) (by omega)
  refine bind_of_eq_some (i64_of_fits (by omega) (by omega)) ?_
  refine bind_of_eq_some (i64_of_fits (by omega) (by omega)) (bind_of_eq_some hmonth ?_)
  refine bind_of_eq_some (i64_of_fits (by omega) (by omega)) ?_
  refine bind_of_eq_some (i64_of_fits (by omega) (by omega)) (bind_of_eq_some hday ?_)
  exact bind_of_eq_some (i64_of_fits (by omega) (by omega)) hf

end

theorem civilParts_eq {z era : ℤ} (a : DayOfEra) (hz : z + 719468 = 146097 * era + a.doe)
    (hlo : -2 ^ 62 ≤ z) (hhi : z ≤ 2 ^ 62) :
    civilParts z = some
      ⟨if (5 * a.doy + 2) / 153 < 10 then a.yoe + era * 400 else a.yoe + era * 400 + 1,
        if (5 * a.doy + 2) / 153 < 10 then (5 * a.doy + 2) / 153 + 3 else (5 * a.doy + 2) / 153 - 9,
        a.doy - (153 * ((5 * a.doy + 2) / 153) + 2) / 5 + 1⟩ := by
  have hdoe := a.doe_mem
  have hyoe := a.yoe_mem
  have hdoy := a.doy_mem
  unfold civilParts
  refine bind_of_eq_some (i64_of_fits (by omega) (by omega)) ?_
  refine bind_era hz hdoe (by omega) (by omega) (bind_yoe a ?_)
  refine bind_of_eq_some (i64_of_fits (by omega) (by omega)) ?_
  refine bind_of_eq_some (i64_of_fits (by omega) (by omega)) (bind_doy a (bind_month hdoy ?_))
  have hmp : 0 ≤ (5 * a.doy + 2) / 153 ∧ (5 * a.doy + 2) / 153 ≤ 11 := by omega
  generalize (5 * a.doy + 2) / 153 = mp at hmp
  have hm : (if mp < 10 then i64 (mp + 3) else i64 (mp - 9)) =
      some (if mp < 10 then mp + 3 else mp - 9) := by
    rw [i64_of_fits (by omega) (by omega), i64_of_fits (by omega) (by omega), apply_ite some]
  have hy : (if (if mp < 10 then mp + 3 else mp - 9) ≤ 2 then i64 (a.yoe + era * 400 + 1)
      else some (a.yoe + era * 400)) =
      some (if mp < 10 then a.yoe + era * 400 else a.yoe + era * 400 + 1) := by
    rw [i64_of_fits (by omega) (by omega)]
    by_cases hmarch : mp < 10
    · rw [if_pos hmarch, if_pos hmarch, if_neg (by omega)]
    · rw [if_neg hmarch, if_neg hmarch, if_pos (by omega)]
  exact bind_of_eq_some hm (bind_of_eq_some hy rfl)

/-! ## Dates -/

/-- The year, the month and the day as they are returned. -/
def civil (a : Date) : ℤ × ℕ × ℕ := (a.year, a.month, a.day)

/-- The arithmetic gives the date with the number of the day, and its month and its day are
converted. -/
theorem exists_civilParts {z : ℤ} (hlo : -2 ^ 62 ≤ z) (hhi : z ≤ 2 ^ 62) :
    ∃ parts, ∃ a : Date, civilParts z = some parts ∧ u32TryFrom parts.m = some a.month ∧
      u32TryFrom parts.d = some a.day ∧ civilFromDays z = some (civil a) ∧
      a.ordinal = z + 719163 := by
  obtain ⟨p, hp⟩ := DayOfEra.exists_of_doe (Int.emod_nonneg (z + 719468) (by decide))
    (Int.emod_lt_of_pos (z + 719468) (by decide : (0 : ℤ) < 146097))
  have hz : z + 719468 = 146097 * ((z + 719468) / 146097) + p.doe := by
    rw [hp]
    omega
  generalize (z + 719468) / 146097 = era at hz
  have hleap : p.doy ≤ 364 ∨ p.doy = 365 ∧ IsLeap (p.yoe + era * 400 + 1) := by
    obtain ⟨century, cycle, year, doy, hcentury, hcycle, hyear, hdoy, hlast⟩ := p
    simp only [DayOfEra.yoe, IsLeap]
    omega
  obtain ⟨a, hordinal, hyear, hmonth, hday⟩ := Date.exists_of_march p.doy_nonneg hleap
  have hparts := civilParts_eq p hz hlo hhi
  rw [← hyear, ← hmonth, ← hday] at hparts
  have hmonth' : u32TryFrom a.month = some a.month := by
    have := a.month_le
    exact u32TryFrom_natCast (by omega)
  have hday' : u32TryFrom a.day = some a.day := by
    have := a.day_le
    have := daysInMonth_le a.year a.month
    exact u32TryFrom_natCast (by omega)
  refine ⟨_, a, hparts, hmonth', hday', ?_, ?_⟩
  · rw [civilFromDays, hparts, Option.map_some, hmonth', hday']
    rfl
  · obtain ⟨century, cycle, year, doy, hcentury, hcycle, hyear, hdoy, hlast⟩ := p
    simp only [DayOfEra.yoe, DayOfEra.doe] at hordinal hz
    omega

theorem days_lt (secs : UInt64) : secs.toNat / 86400 < 2 ^ 62 := by
  have := secs.toNat_lt
  omega

/-- **Every day since the epoch has its date in the Gregorian calendar.** No value on the way leaves
`i64`, the month and the day are converted, the day after has the next date, and dates are ordered
as the days are. -/
theorem civil_from_days_gregorian :
    civilFromDays 0 = some (1970, 1, 1) ∧
    (∀ secs : UInt64, ∃ parts, ∃ a : Date,
      civilParts (secs.toNat / 86400 : ℕ) = some parts ∧
      u32TryFrom parts.m = some a.month ∧ u32TryFrom parts.d = some a.day ∧
      civilFromDays (secs.toNat / 86400 : ℕ) = some (civil a) ∧
      civilFromDays (secs.toNat / 86400 + 1 : ℕ) = some (civil a.next)) ∧
    ∀ secs secs' : UInt64, ∃ a b : Date,
      civilFromDays (secs.toNat / 86400 : ℕ) = some (civil a) ∧
      civilFromDays (secs'.toNat / 86400 : ℕ) = some (civil b) ∧
      (a < b ↔ secs.toNat / 86400 < secs'.toNat / 86400) := by
  refine ⟨by decide, fun secs => ?_, fun secs secs' => ?_⟩
  · have hlt := days_lt secs
    generalize secs.toNat / 86400 = days at hlt
    obtain ⟨parts, a, hparts, hmonth, hday, hcivil, hordinal⟩ :=
      exists_civilParts (by omega : -2 ^ 62 ≤ (days : ℤ)) (by omega)
    obtain ⟨-, b, -, -, -, hnext, hordinal'⟩ :=
      exists_civilParts (by omega : -2 ^ 62 ≤ ((days + 1 : ℕ) : ℤ)) (by omega)
    have hsucc := a.ordinal_next
    obtain rfl : b = a.next := Date.ordinal_injective (by omega)
    exact ⟨parts, a, hparts, hmonth, hday, hcivil, hnext⟩
  · have hlt := days_lt secs
    have hlt' := days_lt secs'
    generalize secs.toNat / 86400 = days at hlt
    generalize secs'.toNat / 86400 = days' at hlt'
    obtain ⟨-, a, -, -, -, hcivil, hordinal⟩ :=
      exists_civilParts (by omega : -2 ^ 62 ≤ (days : ℤ)) (by omega)
    obtain ⟨-, b, -, -, -, hcivil', hordinal'⟩ :=
      exists_civilParts (by omega : -2 ^ 62 ≤ (days' : ℤ)) (by omega)
    refine ⟨a, b, hcivil, hcivil', ?_⟩
    rw [← Date.ordinal_lt_iff]
    omega

end AgentBus

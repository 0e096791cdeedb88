import Pyrs.Model.Calendar
import Mathlib.Tactic.IntervalCases
import Mathlib.Tactic.Ring
import Mathlib.Order.Interval.Finset.Nat

/-!
# Days and dates

The conversions between day numbers and dates are inverse to each other, and both count the days of
the proleptic Gregorian calendar.
-/

namespace Pyrs

namespace Calendar

open Gregorian

/-! ## Years of an era -/

/-- The days of an era in front of a year that begins in March. -/
def eraDays (yoe : ℤ) : ℤ := 365 * yoe + yoe / 4 - yoe / 100

/-- The days of an era without its leap days, but for those that are not over. -/
def commonDays (doe : ℤ) : ℤ := doe - doe / 1460 + doe / 36524 - doe / 146096

def lastDay (yoe : ℤ) : ℤ := if yoe = 399 then 146096 else eraDays (yoe + 1) - 1

lemma commonDays_mono {doe doe' : ℤ} (h : doe ≤ doe') : commonDays doe ≤ commonDays doe' := by
  rw [commonDays, commonDays]
  omega

/-- A year of an era lies in a century, in a cycle of four years and in the cycle. -/
lemma exists_cycle {yoe : ℤ} (h : 0 ≤ yoe) (h' : yoe < 400) :
    ∃ century cycle year, yoe = 100 * century + 4 * cycle + year ∧ (0 ≤ century ∧ century < 4) ∧
      (0 ≤ cycle ∧ cycle < 25) ∧ 0 ≤ year ∧ year < 4 :=
  ⟨yoe / 100, yoe % 100 / 4, yoe % 4, by omega, by omega, by omega, by omega⟩

section Cycle

variable {century cycle year : ℤ} (hcentury : 0 ≤ century ∧ century < 4)
  (hcycle : 0 ≤ cycle ∧ cycle < 25) (hyear : 0 ≤ year ∧ year < 4)

include hcycle hyear in
lemma eraDays_cycle : eraDays (100 * century + 4 * cycle + year) =
    36524 * century + 1461 * cycle + 365 * year := by
  have hleap : (100 * century + 4 * cycle + year) / 4 = 25 * century + cycle := by omega
  have hskipped : (100 * century + 4 * cycle + year) / 100 = century := by omega
  rw [eraDays, hleap, hskipped]
  omega

include hcentury hcycle hyear

/-- On the first day of a year as many leap days are over as `commonDays` takes away. -/
lemma commonDays_firstDay : commonDays (eraDays (100 * century + 4 * cycle + year)) =
    365 * (100 * century + 4 * cycle + year) := by
  rw [eraDays_cycle hcycle hyear]
  have hleap : (36524 * century + 1461 * cycle + 365 * year) / 1460 = 25 * century + cycle := by
    omega
  have hskipped : (36524 * century + 1461 * cycle + 365 * year) / 36524 = century := by omega
  rw [commonDays, hleap, hskipped]
  omega

/-- The last day of a year is day 364 of it, or day 365 at the end of a cycle. -/
lemma lastDay_cycle :
    lastDay (100 * century + 4 * cycle + year) =
        36524 * century + 1461 * cycle + 365 * year + 364 ∨
      year = 3 ∧ (cycle < 24 ∨ cycle = 24 ∧ century = 3) ∧
        lastDay (100 * century + 4 * cycle + year) =
          36524 * century + 1461 * cycle + 365 * year + 365 := by
  rw [lastDay, eraDays]
  split <;> omega

lemma commonDays_lastDay : commonDays (lastDay (100 * century + 4 * cycle + year)) ≤
    365 * (100 * century + 4 * cycle + year) + 364 := by
  obtain hlast | ⟨rfl, hcycle' | ⟨rfl, rfl⟩, hlast⟩ := lastDay_cycle hcentury hcycle hyear <;>
    rw [hlast, commonDays]
  · have hleap : 25 * century + cycle ≤
        (36524 * century + 1461 * cycle + 365 * year + 364) / 1460 := by omega
    have hskipped : (36524 * century + 1461 * cycle + 365 * year + 364) / 36524 = century := by
      omega
    omega
  · have hleap : 25 * century + cycle + 1 ≤
        (36524 * century + 1461 * cycle + 365 * 3 + 365) / 1460 := by omega
    have hskipped : (36524 * century + 1461 * cycle + 365 * 3 + 365) / 36524 = century := by
      omega
    omega
  · decide

end Cycle

/-- The estimate is right on the first and on the last day of every year of an era. -/
lemma commonDays_bounds {yoe : ℤ} (h : 0 ≤ yoe) (h' : yoe < 400) :
    365 * yoe ≤ commonDays (eraDays yoe) ∧ commonDays (lastDay yoe) ≤ 365 * yoe + 364 := by
  obtain ⟨century, cycle, year, rfl, hcentury, hcycle, hyear⟩ := exists_cycle h h'
  exact ⟨(commonDays_firstDay hcentury hcycle hyear).ge,
    commonDays_lastDay hcentury hcycle hyear⟩

/-- The year of a day of an era. -/
lemma yoe_iff {doe yoe : ℤ} (hdoe : 0 ≤ doe) (hdoe' : doe ≤ 146096) (h : 0 ≤ yoe) (h' : yoe < 400) :
    commonDays doe / 365 = yoe ↔ eraDays yoe ≤ doe ∧ doe ≤ lastDay yoe := by
  obtain ⟨hfirst, hlast⟩ := commonDays_bounds h h'
  constructor
  · intro heq
    have hyear : 365 * yoe ≤ commonDays doe ∧ commonDays doe ≤ 365 * yoe + 364 := by omega
    constructor
    · by_contra hlt
      rcases Int.lt_or_eq_of_le h with hpos | rfl
      · have hprevious := (commonDays_bounds (show 0 ≤ yoe - 1 by omega) (by omega)).2
        rw [lastDay, if_neg (by omega), Int.sub_add_cancel] at hprevious
        have hmono : commonDays doe ≤ commonDays (eraDays yoe - 1) := commonDays_mono (by omega)
        omega
      · rw [eraDays] at hlt
        omega
    · by_contra hlt
      rw [lastDay] at hlt
      split_ifs at hlt with hyoe
      · exact hlt hdoe'
      · have hnext := (commonDays_bounds (show 0 ≤ yoe + 1 by omega) (by omega)).1
        have hmono : commonDays (eraDays (yoe + 1)) ≤ commonDays doe := commonDays_mono (by omega)
        omega
  · rintro ⟨hle, hle'⟩
    have hmono := commonDays_mono hle
    have hmono' := commonDays_mono hle'
    omega

lemma yoe_lt {doe : ℤ} (hdoe : 0 ≤ doe) (hdoe' : doe ≤ 146096) :
    0 ≤ commonDays doe / 365 ∧ commonDays doe / 365 < 400 := by
  rw [commonDays]
  omega

/-- A leap day ends its year. -/
lemma lastDay_eq {yoe : ℤ} (h : 0 ≤ yoe) (h' : yoe < 400) (era : ℤ) :
    lastDay yoe = eraDays yoe + if Leap (yoe + 1 + 400 * era) then 365 else 364 := by
  rw [lastDay, eraDays, eraDays]
  split_ifs with hyoe hleap hleap <;> rw [Leap] at hleap <;> omega

lemma daysBefore_era {yoe : ℤ} (h : 0 ≤ yoe) (h' : yoe < 400) (era : ℤ) :
    daysBefore (yoe + 400 * era) = 146097 * era + eraDays yoe := by
  rw [daysBefore, eraDays]
  omega

/-! ## Months of a year that begins in March -/

/-- The month and the day of a day of the year. -/
def monthOf (doy : ℤ) : ℤ := (5 * doy + 2) / 153

def dayOf (doy : ℤ) : ℤ := doy - (153 * monthOf doy + 2) / 5 + 1

def civilMonth (mp : ℤ) : ℤ := mp + if mp < 10 then 3 else -9

lemma months_cases (month : ℤ) (h : 0 ≤ month) (h' : month ≤ 11) :
    month = 0 ∨ month = 1 ∨ month = 2 ∨ month = 3 ∨ month = 4 ∨ month = 5 ∨ month = 6 ∨ month = 7 ∨
      month = 8 ∨ month = 9 ∨ month = 10 ∨ month = 11 := by
  omega

/-- A day of a year is a day of one of its months. -/
lemma monthOf_spec {year doy : ℤ} (hdoy : 0 ≤ doy)
    (hdoy' : doy ≤ if Leap (year + 1) then 365 else 364) :
    0 ≤ monthOf doy ∧ monthOf doy ≤ 11 ∧ 1 ≤ dayOf doy ∧
      dayOf doy ≤ daysInMonth (year + if civilMonth (monthOf doy) ≤ 2 then 1 else 0)
        (civilMonth (monthOf doy)) := by
  have hle : doy ≤ 365 := by split_ifs at hdoy' <;> omega
  have hmonth : 0 ≤ monthOf doy ∧ monthOf doy ≤ 11 := by
    rw [monthOf]
    omega
  refine ⟨hmonth.1, hmonth.2, ?_⟩
  have hdef : monthOf doy = (5 * doy + 2) / 153 := rfl
  rw [dayOf]
  rcases months_cases _ hmonth.1 hmonth.2 with h | h | h | h | h | h | h | h | h | h | h | h <;>
    rw [h] at hdef ⊢ <;> simp [civilMonth, daysInMonth] <;>
    first | omega | (split_ifs at hdoy' ⊢ <;> omega)

/-- And back. -/
lemma monthOf_eq {year month day : ℤ} (hvalid : Date.Valid ⟨year, month, day⟩) :
    let doy := (153 * marchMonth month + 2) / 5 + day - 1
    0 ≤ doy ∧ (doy ≤ if Leap (marchYear ⟨year, month, day⟩ + 1) then 365 else 364) ∧
      monthOf doy = marchMonth month ∧ dayOf doy = day := by
  obtain ⟨hmonth, hmonth', hday, hday'⟩ := hvalid
  dsimp only at hmonth hmonth' hday hday' ⊢
  have hcases := months_cases (month - 1) (by omega) (by omega)
  simp only [sub_eq_iff_eq_add] at hcases
  rcases hcases with rfl | rfl | rfl | rfl | rfl | rfl | rfl | rfl | rfl | rfl | rfl | rfl <;>
    simp [marchMonth, marchYear, daysInMonth, monthOf, dayOf] at hday' ⊢ <;>
    first | omega | (split_ifs at hday' ⊢ <;> omega)

/-! ## The conversions -/

/-- The date in the terms of the era, its years and their months. -/
lemma civilOfDays_eq (days : ℤ) :
    let doe := (days + 719468) % 146097
    let yoe := commonDays doe / 365
    let doy := doe - eraDays yoe
    civilOfDays days =
      ⟨yoe + 400 * ((days + 719468) / 146097) + if civilMonth (monthOf doy) ≤ 2 then 1 else 0,
        civilMonth (monthOf doy), dayOf doy⟩ := by
  dsimp only
  have hera : (if days + 719468 ≥ 0 then days + 719468 else days + 719468 - 146096).tdiv 146097 =
      (days + 719468) / 146097 := by
    split_ifs with h
    · exact Int.tdiv_eq_ediv_of_nonneg h
    · have hsign : Int.sign 146097 = 1 := rfl
      rw [Int.tdiv_eq_ediv, hsign]
      split_ifs <;> omega
  have hdoe : days + 719468 - (days + 719468) / 146097 * 146097 = (days + 719468) % 146097 := by
    omega
  have hnonneg : 0 ≤ (days + 719468) % 146097 := Int.emod_nonneg _ (by decide)
  have hle : (days + 719468) % 146097 ≤ 146096 := by omega
  rw [civilOfDays, hera, hdoe]
  generalize (days + 719468) % 146097 = doe at hnonneg hle ⊢
  generalize (days + 719468) / 146097 = era
  have hyoe : (doe - doe.tdiv 1460 + doe.tdiv 36524 - doe.tdiv 146096).tdiv 365 =
      commonDays doe / 365 := by
    simp only [Int.tdiv_eq_ediv_of_nonneg hnonneg]
    exact Int.tdiv_eq_ediv_of_nonneg (by omega)
  obtain ⟨hyoe₀, hyoe₁⟩ := yoe_lt hnonneg hle
  obtain ⟨hdoy, -⟩ := (yoe_iff hnonneg hle hyoe₀ hyoe₁).1 rfl
  rw [hyoe]
  generalize commonDays doe / 365 = yoe at hyoe₀ hdoy ⊢
  have hyear : 365 * yoe + yoe.tdiv 4 - yoe.tdiv 100 = eraDays yoe := by
    rw [Int.tdiv_eq_ediv_of_nonneg hyoe₀, Int.tdiv_eq_ediv_of_nonneg hyoe₀, eraDays]
  rw [hyear]
  have hmonth : (5 * (doe - eraDays yoe) + 2).tdiv 153 = monthOf (doe - eraDays yoe) :=
    Int.tdiv_eq_ediv_of_nonneg (by omega)
  have hnonneg' : 0 ≤ 153 * monthOf (doe - eraDays yoe) + 2 := by
    rw [monthOf]
    omega
  rw [hmonth, Int.tdiv_eq_ediv_of_nonneg hnonneg', mul_comm era]
  rfl

lemma yoe_spec (days : ℤ) :
    let doe := (days + 719468) % 146097
    let yoe := commonDays doe / 365
    0 ≤ yoe ∧ yoe < 400 ∧ 0 ≤ doe - eraDays yoe ∧ ∀ era,
      doe - eraDays yoe ≤ if Leap (yoe + 400 * era + 1) then 365 else 364 := by
  dsimp only
  have hnonneg : 0 ≤ (days + 719468) % 146097 := Int.emod_nonneg _ (by decide)
  have hle : (days + 719468) % 146097 ≤ 146096 := by omega
  obtain ⟨hyoe, hyoe'⟩ := yoe_lt hnonneg hle
  obtain ⟨hfirst, hlast⟩ := (yoe_iff hnonneg hle hyoe hyoe').1 rfl
  refine ⟨hyoe, hyoe', by omega, fun era => ?_⟩
  have hday := lastDay_eq hyoe hyoe' era
  rw [add_right_comm] at hday
  omega

lemma marchYear_civil (year day : ℤ) {mp : ℤ} (h : 0 ≤ mp) (h' : mp ≤ 11) :
    marchYear ⟨year + if civilMonth mp ≤ 2 then 1 else 0, civilMonth mp, day⟩ = year ∧
      marchMonth (civilMonth mp) = mp := by
  rw [marchYear, marchMonth]
  dsimp only
  by_cases hlate : mp < 10
  · have hmonth : civilMonth mp = mp + 3 := by rw [civilMonth, if_pos hlate]
    rw [hmonth, if_neg (by omega), if_neg (by omega), if_neg (by omega)]
    omega
  · have hmonth : civilMonth mp = mp - 9 := by
      rw [civilMonth, if_neg hlate]
      rfl
    rw [hmonth, if_pos (by omega), if_pos (by omega), if_pos (by omega)]
    omega

/-- The date of a day number is a date with this number. -/
lemma civilOfDays_spec (days : ℤ) :
    (civilOfDays days).Valid ∧ dayNumber (civilOfDays days) = days := by
  obtain ⟨hyoe, hyoe', hdoy, hdoy'⟩ := yoe_spec days
  have hmonth := monthOf_spec hdoy (hdoy' ((days + 719468) / 146097))
  rw [civilOfDays_eq]
  obtain ⟨hmp, hmp', hday, hday'⟩ := hmonth
  obtain ⟨hyear, hback⟩ := marchYear_civil
    (commonDays ((days + 719468) % 146097) / 365 + 400 * ((days + 719468) / 146097))
    (dayOf ((days + 719468) % 146097 - eraDays (commonDays ((days + 719468) % 146097) / 365)))
    hmp hmp'
  constructor
  · refine ⟨?_, ?_, hday, hday'⟩ <;> dsimp only <;> rw [civilMonth] <;> split_ifs <;> omega
  · rw [dayNumber, hyear, hback, daysBefore_era hyoe hyoe', dayOf]
    dsimp only
    omega

/-- A date is the date of its number. -/
lemma civilOfDays_dayNumber {date : Date} (hvalid : date.Valid) :
    civilOfDays (dayNumber date) = date := by
  obtain ⟨year, month, day⟩ := date
  obtain ⟨hdoy, hdoy', hmonth, hday'⟩ := monthOf_eq hvalid
  have hnumber : dayNumber ⟨year, month, day⟩ = daysBefore (marchYear ⟨year, month, day⟩) +
      ((153 * marchMonth month + 2) / 5 + day - 1) - 719468 := by
    rw [dayNumber]
    dsimp only
    omega
  have hback : (⟨marchYear ⟨year, month, day⟩ + if civilMonth (marchMonth month) ≤ 2 then 1 else 0,
      civilMonth (marchMonth month), day⟩ : Date) = ⟨year, month, day⟩ := by
    have hmonths := hvalid.one_le_month
    have hmonths' := hvalid.month_le
    dsimp only at hmonths hmonths'
    rw [marchYear, marchMonth]
    by_cases hearly : month ≤ 2
    · have hcivil : civilMonth (month + 9) = month := by
        rw [civilMonth, if_neg (by omega)]
        omega
      rw [if_pos hearly, if_pos hearly, hcivil, if_pos hearly, sub_add_cancel]
    · have hcivil : civilMonth (month - 3) = month := by
        rw [civilMonth, if_pos (by omega), sub_add_cancel]
      rw [if_neg hearly, if_neg hearly, hcivil, if_neg hearly, add_zero]
  generalize marchYear ⟨year, month, day⟩ = march at hdoy' hnumber hback
  generalize (153 * marchMonth month + 2) / 5 + day - 1 = doy at hdoy hdoy' hmonth hday' hnumber
  obtain ⟨yoe, era, hyoe, hyoe', rfl⟩ : ∃ yoe era, 0 ≤ yoe ∧ yoe < 400 ∧ march = yoe + 400 * era :=
    ⟨march % 400, march / 400, by omega, by omega, by omega⟩
  rw [daysBefore_era hyoe hyoe'] at hnumber
  have hday := lastDay_eq hyoe hyoe' era
  rw [add_right_comm] at hday
  have hfirst : 0 ≤ eraDays yoe := by
    rw [eraDays]
    omega
  have hlast : lastDay yoe ≤ 146096 := by
    rw [lastDay, eraDays]
    split_ifs <;> omega
  have hdoe : eraDays yoe + doy ≤ lastDay yoe := by omega
  have hmod : (dayNumber ⟨year, month, day⟩ + 719468) % 146097 = eraDays yoe + doy := by omega
  have hdiv : (dayNumber ⟨year, month, day⟩ + 719468) / 146097 = era := by omega
  have hyear : commonDays (eraDays yoe + doy) / 365 = yoe :=
    (yoe_iff (by omega) (by omega) hyoe hyoe').2 ⟨by omega, hdoe⟩
  rw [civilOfDays_eq, hmod, hdiv, hyear, add_sub_cancel_left, hmonth, hday']
  exact hback

lemma dayNumber_injective {date date' : Date} (h : date.Valid) (h' : date'.Valid)
    (heq : dayNumber date = dayNumber date') : date = date' := by
  rw [← civilOfDays_dayNumber h, heq, civilOfDays_dayNumber h']

/-- The dates by their numbers. -/
lemma isDay_iff {days : ℤ} {date : Date} :
    IsDay days date ↔ date.Valid ∧ dayNumber date = days := by
  constructor
  · intro h
    induction h with
    | epoch => exact ⟨⟨by decide, by decide, by decide, by decide⟩, rfl⟩
    | next _ ih => exact ⟨ih.1.next, by rw [dayNumber_next ih.1, ih.2]⟩
    | previous hvalid _ ih =>
      have hnext := dayNumber_next hvalid
      exact ⟨hvalid, by omega⟩
  · have hcivil (days : ℤ) : IsDay days (civilOfDays days) := by
      have hnext (days : ℤ) : (civilOfDays days).next = civilOfDays (days + 1) := by
        obtain ⟨hvalid, hnumber⟩ := civilOfDays_spec days
        obtain ⟨hvalid', hnumber'⟩ := civilOfDays_spec (days + 1)
        exact dayNumber_injective hvalid.next hvalid'
          (by rw [dayNumber_next hvalid, hnumber, hnumber'])
      induction days with
      | zero => exact .epoch
      | succ days ih => exact hnext days ▸ ih.next
      | pred days ih =>
        refine .previous (civilOfDays_spec _).1 ?_
        rw [hnext, sub_add_cancel]
        exact ih
    rintro ⟨hvalid, rfl⟩
    have hday := hcivil (dayNumber date)
    rwa [civilOfDays_dayNumber hvalid] at hday

lemma daysFromCivil_eq {date : Date} (hvalid : date.Valid) :
    daysFromCivil date.year date.month date.day = dayNumber date := by
  obtain ⟨year, month, day⟩ := date
  have hmonth := hvalid.one_le_month
  have hmonth' := hvalid.month_le
  dsimp only at hmonth hmonth' ⊢
  have hmarch : year - (if month ≤ 2 then 1 else 0) = marchYear ⟨year, month, day⟩ := by
    rw [marchYear]
    split_ifs
    · rfl
    · rw [sub_zero]
  have hmp : (month + if month > 2 then -3 else 9) = marchMonth month := by
    rw [marchMonth]
    split_ifs <;> omega
  have hnonneg : 0 ≤ 153 * marchMonth month + 2 := by
    rw [marchMonth]
    split_ifs <;> omega
  rw [daysFromCivil, hmarch, hmp, Int.tdiv_eq_ediv_of_nonneg hnonneg, dayNumber]
  dsimp only
  generalize marchYear ⟨year, month, day⟩ = march
  generalize (153 * marchMonth month + 2) / 5 = doy
  have hera : (if march ≥ 0 then march else march - 399).tdiv 400 = march / 400 := by
    split_ifs with h
    · exact Int.tdiv_eq_ediv_of_nonneg h
    · have hsign : Int.sign 400 = 1 := rfl
      rw [Int.tdiv_eq_ediv, hsign]
      split_ifs <;> omega
  have hyoe : 0 ≤ march - march / 400 * 400 := by omega
  rw [hera, Int.tdiv_eq_ediv_of_nonneg hyoe, Int.tdiv_eq_ediv_of_nonneg hyoe, daysBefore]
  omega

/-! ## Timestamps -/

lemma isLeapYear_eq (year : ℤ) : isLeapYear year = decide (Leap year) := by
  have hmod (n : ℤ) : (year.tmod n == 0) = decide (year % n = 0) := by
    rw [Bool.eq_iff_iff, beq_iff_eq, decide_eq_true_eq, ← Int.dvd_iff_tmod_eq_zero,
      Int.dvd_iff_emod_eq_zero]
  have hne : (year.tmod 100 != 0) = decide (year % 100 ≠ 0) := by
    rw [bne, hmod, decide_not]
  rw [isLeapYear, hmod, hmod, hne, Bool.eq_iff_iff, decide_eq_true_eq, Leap]
  simp

/-- The days of a year up to a date. -/
lemma dayOfYear_eq {date : Date} (hvalid : date.Valid) :
    dayOfYear date.year date.month date.day =
      dayNumber date - dayNumber ⟨date.year, 1, 1⟩ + 1 := by
  obtain ⟨year, month, day⟩ := date
  have hmonth := hvalid.one_le_month
  have hmonth' := hvalid.month_le
  dsimp only at hmonth hmonth' ⊢
  have hleap := daysBefore_succ (year - 1)
  rw [sub_add_cancel] at hleap
  have hcases := months_cases (month - 1) (by omega) (by omega)
  simp only [sub_eq_iff_eq_add] at hcases
  rw [dayOfYear, monthDays, isLeapYear_eq]
  rcases hcases with rfl | rfl | rfl | rfl | rfl | rfl | rfl | rfl | rfl | rfl | rfl | rfl <;>
    simp [dayNumber, marchYear, marchMonth] <;>
    first | omega | (split_ifs at hleap ⊢ <;> omega)

def FitsI32 (year : ℤ) : Prop := -2 ^ 31 ≤ year ∧ year < 2 ^ 31

lemma asI32_eq {value : ℤ} (h : FitsI32 value) : asI32 value = value := by
  obtain ⟨hle, hlt⟩ := h
  rw [asI32, Int.bmod_def]
  split_ifs <;> omega

lemma asU32_eq {value : ℤ} (h : 0 ≤ value) (h' : value < 2 ^ 32) : asU32 value = value :=
  Int.emod_eq_of_lt h h'

lemma daysInMonth_le (year month : ℤ) : daysInMonth year month ≤ 31 := by
  rw [daysInMonth]
  split_ifs <;> decide

lemma civilFromDays_eq {days : ℤ} {date : Date} (hday : IsDay days date)
    (hyear : FitsI32 date.year) : civilFromDays days = date := by
  obtain ⟨hvalid, rfl⟩ := isDay_iff.1 hday
  have hmonth := hvalid.one_le_month
  have hmonth' := hvalid.month_le
  have hone := hvalid.one_le_day
  have hle := hvalid.day_le
  have hlast := daysInMonth_le date.year date.month
  rw [civilFromDays, civilOfDays_dayNumber hvalid, asI32_eq hyear, asU32_eq (by omega) (by omega),
    asU32_eq (by omega) (by omega)]

/-- The conversions are right about the date of a day. -/
structure SoundDay (days : ℤ) (date : Date) : Prop where
  valid : date.Valid
  civil : civilFromDays days = date
  back : daysFromCivil date.year date.month date.day = days

/-- The fields of a timestamp on a date. -/
structure SoundTimestamp (totalSecs : ℤ) (date : Date) (parts : TimeParts) : Prop where
  civil : (⟨parts.year, parts.month, parts.day⟩ : Date) = date
  seconds : totalSecs =
    86400 * (totalSecs / 86400) + 3600 * parts.hour + 60 * parts.minute + parts.second
  hour : 0 ≤ parts.hour ∧ parts.hour < 24
  minute : 0 ≤ parts.minute ∧ parts.minute < 60
  second : 0 ≤ parts.second ∧ parts.second < 60
  weekday : parts.weekday = (totalSecs / 86400 + 3) % 7
  yearday : ∀ first, IsDay first ⟨date.year, 1, 1⟩ →
    parts.yearday = totalSecs / 86400 - first + 1

lemma splitUnixTimestamp_sound {totalSecs : ℤ} {date : Date}
    (hday : IsDay (totalSecs / 86400) date) (hyear : FitsI32 date.year) :
    SoundTimestamp totalSecs date (splitUnixTimestamp totalSecs) := by
  have hcivil := civilFromDays_eq hday hyear
  obtain ⟨hvalid, hnumber⟩ := isDay_iff.1 hday
  have hnonneg : 0 ≤ totalSecs % 86400 := Int.emod_nonneg _ (by decide)
  have hhour : (totalSecs % 86400).tdiv 3600 = totalSecs % 86400 / 3600 :=
    Int.tdiv_eq_ediv_of_nonneg hnonneg
  have hminute : ((totalSecs % 86400).tmod 3600).tdiv 60 = totalSecs % 86400 % 3600 / 60 := by
    rw [Int.tmod_eq_emod_of_nonneg hnonneg, Int.tdiv_eq_ediv_of_nonneg (by omega)]
  have hsecond : (totalSecs % 86400).tmod 60 = totalSecs % 86400 % 60 :=
    Int.tmod_eq_emod_of_nonneg hnonneg
  have hparts : splitUnixTimestamp totalSecs =
      ⟨date.year, date.month, date.day, totalSecs % 86400 / 3600,
        totalSecs % 86400 % 3600 / 60, totalSecs % 86400 % 60, (totalSecs / 86400 + 3) % 7,
        dayOfYear date.year date.month date.day, -1, none⟩ := by
    rw [splitUnixTimestamp, hcivil, hhour, hminute, hsecond, asU32_eq (by omega) (by omega),
      asU32_eq (by omega) (by omega), asU32_eq (by omega) (by omega),
      asU32_eq (by omega) (by omega)]
  rw [hparts]
  refine ⟨rfl, ?_, ?_, ?_, ?_, rfl, fun first hfirst => ?_⟩
  · dsimp only
    omega
  · dsimp only
    omega
  · dsimp only
    omega
  · dsimp only
    omega
  · dsimp only
    rw [dayOfYear_eq hvalid, hnumber, (isDay_iff.1 hfirst).2]

/-- Every day has one date.  Where its year is an `i32`, the conversions between the two are inverse
to each other, and the timestamps of the day have the fields of its date. -/
theorem calendar_sound :
    (∀ days, ∃! date, IsDay days date) ∧
      (∀ days date, IsDay days date → FitsI32 date.year → SoundDay days date) ∧
      (∀ date, date.Valid → FitsI32 date.year →
        IsDay (daysFromCivil date.year date.month date.day) date) ∧
      ∀ totalSecs date, IsDay (totalSecs / 86400) date → FitsI32 date.year →
        SoundTimestamp totalSecs date (splitUnixTimestamp totalSecs) := by
  refine ⟨fun days => ?_, fun days date hday hyear => ?_, fun date hvalid _ => ?_,
    fun _ _ => splitUnixTimestamp_sound⟩
  · refine ⟨civilOfDays days, isDay_iff.2 (civilOfDays_spec days), fun date hday => ?_⟩
    obtain ⟨hvalid, rfl⟩ := isDay_iff.1 hday
    exact (civilOfDays_dayNumber hvalid).symm
  · obtain ⟨hvalid, hnumber⟩ := isDay_iff.1 hday
    exact ⟨hvalid, civilFromDays_eq hday hyear, by rw [daysFromCivil_eq hvalid, hnumber]⟩
  · exact isDay_iff.2 ⟨hvalid, (daysFromCivil_eq hvalid).symm⟩

/-- The day before the first one. -/
theorem calendar_sound_eve : SoundDay (-1) ⟨1969, 12, 31⟩ :=
  calendar_sound.2.1 _ _ (.previous ⟨by decide, by decide, by decide, by decide⟩ .epoch)
    ⟨by decide, by decide⟩

end Calendar

end Pyrs

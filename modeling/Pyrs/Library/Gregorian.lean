import Mathlib.Data.Int.Notation
import Mathlib.Data.Nat.Notation
import Mathlib.Tactic.SplitIfs

/-!
# The proleptic Gregorian calendar

Dates, the date that follows a date, and the day numbers, which count the days from the first of
January 1970 on.  The number of a day is computed with years that begin in March, so that a leap day
is the last one of its year.
-/

namespace Gregorian

/-- A date of the calendar. -/
structure Date where
  year : ℤ
  month : ℤ
  day : ℤ
  deriving DecidableEq

/-- A year with a leap day. -/
def Leap (year : ℤ) : Prop := year % 4 = 0 ∧ year % 100 ≠ 0 ∨ year % 400 = 0

instance (year : ℤ) : Decidable (Leap year) := inferInstanceAs (Decidable (_ ∨ _))

def daysInMonth (year month : ℤ) : ℤ :=
  if month = 2 then if Leap year then 29 else 28
  else if month = 4 ∨ month = 6 ∨ month = 9 ∨ month = 11 then 30 else 31

namespace Date

structure Valid (date : Date) : Prop where
  one_le_month : 1 ≤ date.month
  month_le : date.month ≤ 12
  one_le_day : 1 ≤ date.day
  day_le : date.day ≤ daysInMonth date.year date.month

/-- The following date. -/
def next (date : Date) : Date :=
  if date.day < daysInMonth date.year date.month then { date with day := date.day + 1 }
  else if date.month < 12 then ⟨date.year, date.month + 1, 1⟩
  else ⟨date.year + 1, 1, 1⟩

end Date

/-- The date so many days after the first of January 1970. -/
inductive IsDay : ℤ → Date → Prop
  | epoch : IsDay 0 ⟨1970, 1, 1⟩
  | next {days : ℤ} {date : Date} (h : IsDay days date) : IsDay (days + 1) date.next
  | previous {days : ℤ} {date : Date} (hvalid : date.Valid) (h : IsDay (days + 1) date.next) :
    IsDay days date

/-! ## Day numbers -/

/-- The year that begins in March. -/
def marchYear (date : Date) : ℤ := if date.month ≤ 2 then date.year - 1 else date.year

/-- The months since March. -/
def marchMonth (month : ℤ) : ℤ := if month ≤ 2 then month + 9 else month - 3

/-- The days in front of the first of March of a year, from that of the year 0 on. -/
def daysBefore (year : ℤ) : ℤ := 365 * year + year / 4 - year / 100 + year / 400

def dayNumber (date : Date) : ℤ :=
  daysBefore (marchYear date) + (153 * marchMonth date.month + 2) / 5 + date.day - 1 - 719468

lemma daysBefore_succ (year : ℤ) :
    daysBefore (year + 1) = daysBefore year + if Leap (year + 1) then 366 else 365 := by
  rw [daysBefore, daysBefore]
  split_ifs with hleap <;> rw [Leap] at hleap <;> omega

lemma one_le_daysInMonth (year month : ℤ) : 1 ≤ daysInMonth year month := by
  rw [daysInMonth]
  split_ifs <;> decide

lemma Date.Valid.next {date : Date} (h : date.Valid) : date.next.Valid := by
  obtain ⟨hmonth, hmonth', hday, hday'⟩ := h
  rw [Date.next]
  split_ifs with hlt hmonths
  · exact ⟨hmonth, hmonth', by dsimp only; omega, hlt⟩
  · exact ⟨by dsimp only; omega, by dsimp only; omega, Int.le_refl 1, one_le_daysInMonth _ _⟩
  · exact ⟨Int.le_refl 1, by dsimp only; omega, Int.le_refl 1, one_le_daysInMonth _ _⟩

lemma dayNumber_next {date : Date} (h : date.Valid) :
    dayNumber date.next = dayNumber date + 1 := by
  obtain ⟨hmonth, hmonth', hday, hday'⟩ := h
  obtain ⟨year, month, day⟩ := date
  dsimp only at hmonth hmonth' hday hday'
  rw [Date.next]
  dsimp only
  split_ifs with hlt hmonths
  · simp only [dayNumber, marchYear]
    omega
  · have hlast : day = daysInMonth year month := by omega
    have hleap := daysBefore_succ (year - 1)
    rw [Int.sub_add_cancel] at hleap
    have hcases : month = 1 ∨ month = 2 ∨ month = 3 ∨ month = 4 ∨ month = 5 ∨ month = 6 ∨
        month = 7 ∨ month = 8 ∨ month = 9 ∨ month = 10 ∨ month = 11 := by omega
    rcases hcases with rfl | rfl | rfl | rfl | rfl | rfl | rfl | rfl | rfl | rfl | rfl <;>
      simp [dayNumber, marchYear, marchMonth, daysInMonth] at hlast ⊢ <;>
      first | omega | (split_ifs at hlast hleap <;> omega)
  · obtain rfl : month = 12 := by omega
    have hlast : day = daysInMonth year 12 := by omega
    simp [dayNumber, marchYear, marchMonth, daysInMonth] at hlast ⊢
    omega

end Gregorian

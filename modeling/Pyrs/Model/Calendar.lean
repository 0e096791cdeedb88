import Mathlib.Algebra.Group.Int.Defs
import Mathlib.Algebra.Group.Nat.Defs
import Pyrs.Library.Gregorian

/-!
# Calendar arithmetic

The functions of `vm/mod.rs` from days to dates and back.  A machine integer is an integer: no
operation overflows on a day whose year fits into an `i32`.
-/

namespace Pyrs

namespace Calendar

open Gregorian

/-- The date, before it is cast to machine integers of half the size. -/
def civilOfDays (days : ℤ) : Date :=
  let z := days + 719468
  let era := (if z ≥ 0 then z else z - 146096).tdiv 146097
  let doe := z - era * 146097
  let yoe := (doe - doe.tdiv 1460 + doe.tdiv 36524 - doe.tdiv 146096).tdiv 365
  let y := yoe + era * 400
  let doy := doe - (365 * yoe + yoe.tdiv 4 - yoe.tdiv 100)
  let mp := (5 * doy + 2).tdiv 153
  let d := doy - (153 * mp + 2).tdiv 5 + 1
  let m := mp + if mp < 10 then 3 else -9
  ⟨y + if m ≤ 2 then 1 else 0, m, d⟩

/-- `as i32`. -/
def asI32 (value : ℤ) : ℤ := value.bmod (2 ^ 32)

/-- `as u32`. -/
def asU32 (value : ℤ) : ℤ := value % 2 ^ 32

def civilFromDays (days : ℤ) : Date :=
  let date := civilOfDays days
  ⟨asI32 date.year, asU32 date.month, asU32 date.day⟩

def daysFromCivil (year month day : ℤ) : ℤ :=
  let year := year - if month ≤ 2 then 1 else 0
  let era := (if year ≥ 0 then year else year - 399).tdiv 400
  let yoe := year - era * 400
  let doy := (153 * (month + if month > 2 then -3 else 9) + 2).tdiv 5 + day - 1
  let doe := yoe * 365 + yoe.tdiv 4 - yoe.tdiv 100 + doy
  era * 146097 + doe - 719468

def isLeapYear (year : ℤ) : Bool :=
  year.tmod 4 == 0 && year.tmod 100 != 0 || year.tmod 400 == 0

/-- The days of the months. -/
def monthDays (year : ℤ) : List ℤ :=
  [31, if isLeapYear year then 29 else 28, 31, 30, 31, 30, 31, 31, 30, 31, 30, 31]

def dayOfYear (year month day : ℤ) : ℤ :=
  ((monthDays year).take (month.toNat - 1)).foldl (· + ·) day

/-- The fields that the timestamp determines. -/
structure TimeParts where
  year : ℤ
  month : ℤ
  day : ℤ
  hour : ℤ
  minute : ℤ
  second : ℤ
  weekday : ℤ
  yearday : ℤ
  isdst : ℤ
  utcOffsetSeconds : Option ℤ
  deriving DecidableEq

def splitUnixTimestamp (totalSecs : ℤ) : TimeParts :=
  let days := totalSecs / 86400
  let secOfDay := totalSecs % 86400
  let date := civilFromDays days
  { year := date.year
    month := date.month
    day := date.day
    hour := asU32 (secOfDay.tdiv 3600)
    minute := asU32 ((secOfDay.tmod 3600).tdiv 60)
    second := asU32 (secOfDay.tmod 60)
    weekday := asU32 ((days + 3) % 7)
    yearday := dayOfYear date.year date.month date.day
    isdst := -1
    utcOffsetSeconds := none }

end Calendar

end Pyrs

/-!
# The calendar

Instants are milliseconds since the start of 1970 in universal time. Dates are those of the
Gregorian calendar, continued to both sides.

Main statements: `Date.ofDay_epoch` and `Date.ofDay_leapDay` (two dates), `month_le` (months are
those of a year).
-/
namespace StackScript

/-- A day of the calendar. -/
structure Date where
  year : Int
  /-- From 1 to 12. -/
  month : Nat
  /-- From 1. -/
  day : Nat
deriving Repr, DecidableEq

namespace Date

/-- Days from the first of March of the year zero to the start of 1970. -/
def epochOffset : Int := 719468

/-- Days of four centuries. -/
def eraLength : Int := 146097

/-- The month of a number of days after the first of March. -/
def monthOf (dayOfYear : Nat) : Nat :=
  let m := (5 * dayOfYear + 2) / 153
  if m < 10 then m + 3 else if m < 12 then m - 9 else 12

/-- The date of a number of days since the start of 1970. Years are counted from March on, so
that a leap day ends its year. -/
def ofDay (days : Int) : Date :=
  let shifted := days + epochOffset
  let era := shifted / eraLength
  let dayOfEra := (shifted % eraLength).toNat
  let yearOfEra := (dayOfEra - dayOfEra / 1460 + dayOfEra / 36524 - dayOfEra / 146096) / 365
  let dayOfYear := dayOfEra - (365 * yearOfEra + yearOfEra / 4 - yearOfEra / 100)
  let m := (5 * dayOfYear + 2) / 153
  let month := monthOf dayOfYear
  { year := era * 400 + yearOfEra + if month ≤ 2 then 1 else 0
    month := month
    day := dayOfYear - (153 * m + 2) / 5 + 1 }

/-- Whether a year has a leap day. -/
def isLeap (year : Int) : Bool := year % 4 == 0 && (year % 100 != 0 || year % 400 == 0)

/-- The number of a day in its year, from 1. -/
def ordinal (d : Date) : Nat :=
  let before := [0, 31, 59, 90, 120, 151, 181, 212, 243, 273, 304, 334].getD (d.month - 1) 0
  before + d.day + if isLeap d.year && 2 < d.month then 1 else 0

theorem ofDay_epoch : ofDay 0 = ⟨1970, 1, 1⟩ := by decide

theorem ofDay_leapDay : ofDay 11016 = ⟨2000, 2, 29⟩ := by decide

theorem month_le (days : Int) : (ofDay days).month ≤ 12 := by
  simp only [ofDay, monthOf]
  split
  · omega
  · split <;> omega

end Date

/-- An instant in universal time. -/
structure Instant where
  /-- Days since the start of 1970. -/
  days : Int
  /-- Milliseconds since midnight. -/
  millis : Nat
deriving Repr, DecidableEq

namespace Instant

/-- Milliseconds of a day. -/
def dayLength : Int := 86400000

/-- The years that instants lie in. -/
def firstYear : Int := -262143

/-- The last year that instants lie in. -/
def lastYear : Int := 262142

/-- The date of an instant. -/
def date (t : Instant) : Date := Date.ofDay t.days

/-- The instant of a number of milliseconds, if its year is in range. -/
def ofMillis? (millis : Int) : Option Instant :=
  let t : Instant := ⟨millis / dayLength, (millis % dayLength).toNat⟩
  if firstYear ≤ t.date.year ∧ t.date.year ≤ lastYear then some t else none

/-- The hour. -/
def hour (t : Instant) : Nat := t.millis / 3600000

/-- The hour on a clock face. -/
def hour12 (t : Instant) : Nat := if t.hour % 12 = 0 then 12 else t.hour % 12

/-- The minute. -/
def minute (t : Instant) : Nat := t.millis / 60000 % 60

/-- The second. -/
def second (t : Instant) : Nat := t.millis / 1000 % 60

/-- The milliseconds of the second. -/
def fraction (t : Instant) : Nat := t.millis % 1000

/-- Seconds since the start of 1970. -/
def timestamp (t : Instant) : Int := t.days * 86400 + t.millis / 1000

/-- Days since Monday. -/
def weekday (t : Instant) : Nat := ((t.days + 3) % 7).toNat

/-- The number of the week that started on a Sunday, or on a Monday, in the year. -/
def week (t : Instant) (fromSunday : Bool) : Nat :=
  let passed := if fromSunday then (t.weekday + 1) % 7 else t.weekday
  (t.date.ordinal + 6 - passed) / 7

/-- The Thursday of the week from Monday to Sunday, whose year is the week's. -/
def thursday (t : Instant) : Date := Date.ofDay (t.days - t.weekday + 3)

/-- The number of the week from Monday to Sunday in the year that has its Thursday. -/
def isoWeek (t : Instant) : Nat := (t.thursday.ordinal - 1) / 7 + 1

end Instant

end StackScript

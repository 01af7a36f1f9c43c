/-! Points in time to the nanosecond, and the calendar. -/
namespace Workflow

/-- Seconds since the beginning of 1970 in coordinated universal time, and nanoseconds. Inside of a leap
second the nanoseconds go on from a thousand million. -/
structure Timestamp where
  seconds : Int
  nanoseconds : Nat
deriving DecidableEq, Repr, Inhabited

/-- A day of the Gregorian calendar, extended to all years. -/
structure CalendarDay where
  year : Int
  month : Nat
  day : Nat
deriving DecidableEq, Repr

namespace CalendarDay

def isLeapYear (year : Int) : Bool :=
  year % 4 == 0 && (year % 100 != 0 || year % 400 == 0)

def monthLength (year : Int) (month : Nat) : Nat :=
  if month = 2 then (if isLeapYear year then 29 else 28)
  else if month = 4 ∨ month = 6 ∨ month = 9 ∨ month = 11 then 30
  else 31

def isValid (day : CalendarDay) : Bool :=
  1 ≤ day.month && day.month ≤ 12 && 1 ≤ day.day && day.day ≤ monthLength day.year day.month

/-- The number of days since the beginning of 1970. Years are taken to begin in March, so that a leap day is
the last of its year. -/
def toDays (day : CalendarDay) : Int :=
  let year := if day.month ≤ 2 then day.year - 1 else day.year
  let era := year / 400
  let yearOfEra := year % 400
  let month := (day.month + 9) % 12
  let dayOfYear : Int := (153 * month + 2) / 5 + (day.day - 1 : Nat)
  let dayOfEra := yearOfEra * 365 + yearOfEra / 4 - yearOfEra / 100 + dayOfYear
  era * 146097 + dayOfEra - 719468

/-- The day that is a number of days after the beginning of 1970. -/
def ofDays (days : Int) : CalendarDay :=
  let shifted := days + 719468
  let era := shifted / 146097
  let dayOfEra := (shifted % 146097).toNat
  let yearOfEra := (dayOfEra - dayOfEra / 1460 + dayOfEra / 36524 - dayOfEra / 146096) / 365
  let dayOfYear := dayOfEra - (365 * yearOfEra + yearOfEra / 4 - yearOfEra / 100)
  let month := (5 * dayOfYear + 2) / 153
  let day := dayOfYear - (153 * month + 2) / 5 + 1
  let month := if month < 10 then month + 3 else month - 9
  let year : Int := yearOfEra + era * 400
  ⟨if month ≤ 2 then year + 1 else year, month, day⟩

end CalendarDay

namespace Timestamp

def epoch : Timestamp := ⟨0, 0⟩

/-- The first second of the first year that can be represented. -/
def earliest : Int := CalendarDay.toDays ⟨-262143, 1, 1⟩ * 86400

/-- The second after the last year that can be represented. -/
def latest : Int := CalendarDay.toDays ⟨262143, 1, 1⟩ * 86400

end Timestamp

end Workflow

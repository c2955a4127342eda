/-! # The calendar

  Days are counted from 1970-01-01 in the proleptic Gregorian calendar, in
  eras of 400 years that start on March 1, so that the leap day is the last
  day of a year.
-/

namespace RecordGate.Time

/-- A calendar date. -/
structure Date where
  /-- The year; year 0 precedes year 1. -/
  year : Int
  /-- The month, from 1 to 12. -/
  month : Nat
  /-- The day of the month, from 1. -/
  day : Nat
  deriving DecidableEq, Repr

/-- Every fourth year, but of the hundreds only every fourth. -/
def isLeap (year : Int) : Bool :=
  year % 4 = 0 && (year % 100 ≠ 0 || year % 400 = 0)

/-- The count of days of a month. -/
def daysInMonth (year : Int) (month : Nat) : Nat :=
  if month = 2 then if isLeap year then 29 else 28
  else if month = 4 || month = 6 || month = 9 || month = 11 then 30
  else 31

/-- The least year that is supported. -/
def minYear : Int := -262143

/-- The greatest year that is supported. -/
def maxYear : Int := 262142

/-- A date that exists, in a year that is supported. -/
def Date.valid (d : Date) : Bool :=
  minYear ≤ d.year && d.year ≤ maxYear && 1 ≤ d.month && d.month ≤ 12 &&
  1 ≤ d.day && d.day ≤ daysInMonth d.year d.month

/-- The day number of a date, counted from 1970-01-01. -/
def Date.toDays (d : Date) : Int :=
  let y := if d.month ≤ 2 then d.year - 1 else d.year
  let era := y / 400
  let yearOfEra := y % 400
  let monthFromMarch : Int := ((d.month : Int) + 9) % 12
  let dayOfYear := (153 * monthFromMarch + 2) / 5 + d.day - 1
  let dayOfEra := yearOfEra * 365 + yearOfEra / 4 - yearOfEra / 100 + dayOfYear
  era * 146097 + dayOfEra - 719468

/-- The date of a day number. -/
def Date.ofDays (days : Int) : Date :=
  let z := days + 719468
  let era := z / 146097
  let dayOfEra := z % 146097
  let yearOfEra :=
    (dayOfEra - dayOfEra / 1460 + dayOfEra / 36524 - dayOfEra / 146096) / 365
  let dayOfYear := dayOfEra - (365 * yearOfEra + yearOfEra / 4 - yearOfEra / 100)
  let monthFromMarch := (5 * dayOfYear + 2) / 153
  let day := dayOfYear - (153 * monthFromMarch + 2) / 5 + 1
  let month := if monthFromMarch < 10 then monthFromMarch + 3 else monthFromMarch - 9
  let year := yearOfEra + era * 400 + (if month ≤ 2 then 1 else 0)
  ⟨year, month.toNat, day.toNat⟩

end RecordGate.Time

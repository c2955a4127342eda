import RecordGate.Decimal.Layout
import RecordGate.Time.Calendar

/-! # Instants

  A point in time to the nanosecond, in UTC. A leap second is kept as the
  second before it with a nanosecond count of a thousand million or more, so
  that `23:59:60` is written again as it was read.

  - `Instant.render` writes RFC 3339 with the fraction and the offset mark
    that the place of use asks for.
-/

namespace RecordGate.Time

/-- A point in time, as whole seconds since 1970-01-01T00:00:00Z and
    nanoseconds within the second. -/
structure Instant where
  /-- Whole seconds since the epoch. -/
  seconds : Int
  /-- Nanoseconds; a thousand million or more inside a leap second. -/
  nanos : Nat
  deriving DecidableEq, Repr

/-- Earlier in time. -/
def Instant.lt (a b : Instant) : Bool :=
  a.seconds < b.seconds || (a.seconds = b.seconds && a.nanos < b.nanos)

/-- Earlier or the same. -/
def Instant.le (a b : Instant) : Bool :=
  !b.lt a

/-- The instant a whole number of seconds later. -/
def Instant.addSeconds (t : Instant) (n : Int) : Instant :=
  { t with seconds := t.seconds + n }

/-- The instant of a count of milliseconds since the epoch, if its year is
    supported. -/
def Instant.ofMillis? (millis : Int) : Option Instant :=
  let seconds := millis / 1000
  let date := Date.ofDays (seconds / 86400)
  if minYear ≤ date.year && date.year ≤ maxYear then
    some ⟨seconds, (millis % 1000).toNat * 1000000⟩
  else none

/-- A time of day on a date, in UTC. -/
structure Clock where
  /-- The hour, from 0 to 23. -/
  hour : Nat
  /-- The minute, from 0 to 59. -/
  minute : Nat
  /-- The second, from 0 to 60. -/
  second : Nat
  /-- Nanoseconds below a thousand million. -/
  nanos : Nat
  deriving DecidableEq, Repr

/-- The instant of a date and a time of day that stand `offset` seconds east
    of UTC, if the date in UTC is supported. -/
def Instant.ofParts? (date : Date) (clock : Clock) (offset : Int) : Option Instant :=
  let (second, extra) := if clock.second = 60 then (59, 1000000000) else (clock.second, 0)
  let time : Int := (clock.hour : Int) * 3600 + clock.minute * 60 + second
  let seconds := date.toDays * 86400 + time - offset
  let shifted := Date.ofDays (seconds / 86400)
  if minYear ≤ shifted.year && shifted.year ≤ maxYear then
    some ⟨seconds, clock.nanos + extra⟩
  else none

/-! ### Writing -/

/-- How many digits of the fraction are written. -/
inductive Fraction where
  /-- Three digits, the rest cut off. -/
  | millis
  /-- None, three, six or nine digits, whichever is exact. -/
  | exact

/-- How the offset of UTC is written. -/
inductive Offset where
  /-- `Z`. -/
  | zulu
  /-- `+00:00`. -/
  | numeric

/-- A number with zeros in front up to a width. -/
def padded (width n : Nat) : String :=
  let text := Decimal.natText n
  Decimal.zeros (width - text.length) ++ text

/-- Four digits, or a sign and at least four. -/
def yearText (year : Int) : String :=
  if 0 ≤ year && year ≤ 9999 then padded 4 year.toNat
  else (if year < 0 then "-" else "+") ++ padded 4 year.natAbs

/-- The fraction of a second with its point. -/
def Fraction.text (f : Fraction) (nanos : Nat) : String :=
  match f with
  | .millis => "." ++ padded 3 (nanos / 1000000)
  | .exact =>
    if nanos = 0 then ""
    else if nanos % 1000000 = 0 then "." ++ padded 3 (nanos / 1000000)
    else if nanos % 1000 = 0 then "." ++ padded 6 (nanos / 1000)
    else "." ++ padded 9 nanos

/-- The text of an offset of zero. -/
def Offset.text : Offset → String
  | .zulu => "Z"
  | .numeric => "+00:00"

/-- Writes an instant in RFC 3339. -/
def Instant.render (f : Fraction) (o : Offset) (t : Instant) : String :=
  let date := Date.ofDays (t.seconds / 86400)
  let time := (t.seconds % 86400).toNat
  let leap := 1000000000 ≤ t.nanos
  let second := time % 60 + (if leap then 1 else 0)
  let nanos := if leap then t.nanos - 1000000000 else t.nanos
  yearText date.year ++ "-" ++ padded 2 date.month ++ "-" ++ padded 2 date.day ++ "T" ++
    padded 2 (time / 3600) ++ ":" ++ padded 2 (time / 60 % 60) ++ ":" ++ padded 2 second ++
    f.text nanos ++ o.text

/-- The form in which dates are stored: milliseconds and `Z`. -/
def Instant.stored (t : Instant) : String :=
  t.render .millis .zulu

end RecordGate.Time

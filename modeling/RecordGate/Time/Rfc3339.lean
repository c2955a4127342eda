import RecordGate.Decimal.Read
import RecordGate.Text.Blank
import RecordGate.Time.Instant

/-! # Reading dates and times

  Four readers, from strict to lenient.

  - `strict?` takes RFC 3339 with `T`, `t` or one blank between date and time.
  - `date?` takes a bare `year-month-day` with loose digit counts.
  - `relaxed?` takes what a claim may hold: loose digit counts, blanks between
    the parts and `UTC` for the offset.
  - `separated?` takes any one ASCII character between date and time, and a
    second of 60 only at the end of a month.

  Each step returns what is left of the text.
-/

namespace RecordGate.Time

/-- Between `least` and `most` digits as a number. -/
def number (least most : Nat) (cs : List Char) : Option (Nat × List Char) :=
  let digits := (cs.take most).takeWhile Decimal.isDigit
  if digits.length < least then none
  else some (Decimal.ofDigits digits, cs.drop digits.length)

/-- Exactly one given character. -/
def char (c : Char) : List Char → Option (List Char)
  | d :: cs => if d = c then some cs else none
  | [] => none

/-- The digits of a fraction as nanoseconds: nine count, further ones are
    skipped. -/
def fraction (cs : List Char) : Option (Nat × List Char) :=
  let (digits, rest) := Decimal.spanDigits cs
  if digits.isEmpty then none
  else
    let kept := digits.take 9
    some (Decimal.ofDigits kept * Nat.pow 10 (9 - kept.length), rest)

/-- A fraction after a point, or none. -/
def optionalFraction : List Char → Option (Nat × List Char)
  | '.' :: cs => fraction cs
  | cs => some (0, cs)

/-- The sign of an offset; the typographic minus counts as one. -/
def offsetSign : List Char → Option (Int × List Char)
  | '+' :: cs => some (1, cs)
  | '-' :: cs => some (-1, cs)
  | '−' :: cs => some (-1, cs)
  | _ => none

/-- An offset in seconds: `Z`, or a sign and hours and minutes of two digits
    with `separator` between them. -/
def offset (separator : List Char → Option (List Char)) : List Char → Option (Int × List Char)
  | 'Z' :: cs => some (0, cs)
  | 'z' :: cs => some (0, cs)
  | cs => do
    let (sign, cs) ← offsetSign cs
    let (hours, cs) ← number 2 2 cs
    let cs ← separator cs
    let (minutes, cs) ← number 2 2 cs
    if minutes < 60 && hours < 24 then
      some (sign * ((hours : Int) * 3600 + minutes * 60), cs)
    else none

/-- The date if it exists. -/
def checkedDate (year : Int) (month day : Nat) : Option Date :=
  let date : Date := ⟨year, month, day⟩
  if date.valid then some date else none

/-- The time of day if it exists; a second of 60 does. -/
def checkedClock (hour minute second nanos : Nat) : Option Clock :=
  if hour < 24 && minute < 60 && second ≤ 60 then some ⟨hour, minute, second, nanos⟩ else none

/-! ### RFC 3339 -/

/-- A date of fixed width. -/
def fixedDate (cs : List Char) : Option (Date × List Char) := do
  let (year, cs) ← number 4 4 cs
  let cs ← char '-' cs
  let (month, cs) ← number 2 2 cs
  let cs ← char '-' cs
  let (day, cs) ← number 2 2 cs
  let date ← checkedDate year month day
  some (date, cs)

/-- A time of day of fixed width. -/
def fixedClock (cs : List Char) : Option (Clock × List Char) := do
  let (hour, cs) ← number 2 2 cs
  let cs ← char ':' cs
  let (minute, cs) ← number 2 2 cs
  let cs ← char ':' cs
  let (second, cs) ← number 2 2 cs
  let (nanos, cs) ← optionalFraction cs
  let clock ← checkedClock hour minute second nanos
  some (clock, cs)

/-- `T`, `t` or one blank. -/
def dateTimeMark : List Char → Option (List Char)
  | c :: cs => if c = 'T' || c = 't' || c = ' ' then some cs else none
  | [] => none

/-- A whole text in RFC 3339. -/
def strict? (cs : List Char) : Option Instant := do
  let (date, cs) ← fixedDate cs
  let cs ← dateTimeMark cs
  let (clock, cs) ← fixedClock cs
  let (seconds, cs) ← offset (char ':') cs
  if cs.isEmpty then Instant.ofParts? date clock seconds else none

/-! ### Loose numbers -/

/-- A year after optional blanks: up to four digits, or a sign and any
    number of digits. -/
def looseYear (cs : List Char) : Option (Int × List Char) :=
  match Text.trimStart cs with
  | '-' :: cs => (number 1 cs.length cs).map fun (n, cs) => (-(n : Int), cs)
  | '+' :: cs => (number 1 cs.length cs).map fun (n, cs) => ((n : Int), cs)
  | cs => (number 1 4 cs).map fun (n, cs) => ((n : Int), cs)

/-- One or two digits after optional blanks. -/
def looseTwo (cs : List Char) : Option (Nat × List Char) :=
  number 1 2 (Text.trimStart cs)

/-- A date with loose digit counts; `gap` is what may stand before a dash. -/
def looseDate (gap : List Char → List Char) (cs : List Char) : Option (Date × List Char) := do
  let (year, cs) ← looseYear cs
  let cs ← char '-' (gap cs)
  let (month, cs) ← looseTwo cs
  let cs ← char '-' (gap cs)
  let (day, cs) ← looseTwo cs
  let date ← checkedDate year month day
  some (date, cs)

/-- A whole text `year-month-day`, as its midnight in UTC. -/
def date? (cs : List Char) : Option Instant := do
  let (date, cs) ← looseDate id cs
  if cs.isEmpty then Instant.ofParts? date ⟨0, 0, 0, 0⟩ 0 else none

/-- A time of day with loose digit counts and blanks before the colons. -/
def looseClock (cs : List Char) : Option (Clock × List Char) := do
  let (hour, cs) ← looseTwo cs
  let cs ← char ':' (Text.trimStart cs)
  let (minute, cs) ← looseTwo cs
  let cs ← char ':' (Text.trimStart cs)
  let (second, cs) ← looseTwo cs
  let (nanos, cs) ← optionalFraction cs
  let clock ← checkedClock hour minute second nanos
  some (clock, cs)

/-- Colons and blanks in any number. -/
def looseSeparator (cs : List Char) : Option (List Char) :=
  some (cs.dropWhile fun c => c = ':' || Text.isBlank c)

/-- `UTC` in any case, or an offset. -/
def looseOffset : List Char → Option (Int × List Char)
  | a :: b :: c :: cs =>
    if a.toUpper = 'U' && b.toUpper = 'T' && c.toUpper = 'C' then some (0, cs)
    else offset looseSeparator (a :: b :: c :: cs)
  | cs => offset looseSeparator cs

/-- A whole text in the form that claims may use. -/
def relaxed? (cs : List Char) : Option Instant := do
  let (date, cs) ← looseDate Text.trimStart cs
  let cs ← dateTimeMark cs
  let (clock, cs) ← looseClock cs
  let (seconds, cs) ← looseOffset (Text.trimStart cs)
  if (Text.trimStart cs).isEmpty then Instant.ofParts? date clock seconds else none

/-! ### Any separator -/

/-- The last second of a month in UTC. -/
def endsMonth (t : Instant) : Bool :=
  let date := Date.ofDays (t.seconds / 86400)
  t.seconds % 86400 = 86399 && date.day = daysInMonth date.year date.month

/-- Any one character of ASCII. -/
def anyMark : List Char → Option (List Char)
  | c :: cs => if c.toNat < 0x80 then some cs else none
  | [] => none

/-- A whole text in RFC 3339 with any one ASCII character between date and
    time and an ASCII sign before the offset. A leap second is taken for the
    last nanosecond before it. -/
def separated? (cs : List Char) : Option Instant := do
  let (date, cs) ← fixedDate cs
  let cs ← anyMark cs
  let (clock, cs) ← fixedClock cs
  let (seconds, rest) ← offset (char ':') cs
  if !rest.isEmpty || cs.head? = some '−' then none
  else if clock.second = 60 then
    let t ← Instant.ofParts? date { clock with second := 59, nanos := 999999999 } seconds
    if endsMonth t then some t else none
  else Instant.ofParts? date clock seconds

end RecordGate.Time

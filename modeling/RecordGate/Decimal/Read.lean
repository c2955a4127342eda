/-! # Reading decimals

  The digit runs that every number reader shares, and the reading of a
  free-standing decimal: an optional sign, digits with at most one point and
  at least one digit, and an optional exponent. The double is the nearest one;
  a text that would overflow is no number.
-/

namespace RecordGate.Decimal

/-- A decimal digit. -/
def isDigit (c : Char) : Bool :=
  '0' ≤ c && c ≤ '9'

/-- The value of a digit. -/
def digitValue (c : Char) : Nat :=
  c.toNat - 48

/-- The leading digits and what follows them. -/
def spanDigits (cs : List Char) : List Char × List Char :=
  (cs.takeWhile isDigit, cs.dropWhile isDigit)

/-- The number that a run of digits writes. -/
def ofDigits (cs : List Char) : Nat :=
  cs.foldl (fun n c => n * 10 + digitValue c) 0

/-- A non-empty run of digits and nothing else. -/
def natOf? (cs : List Char) : Option Nat :=
  if !cs.isEmpty && cs.all isDigit then some (ofDigits cs) else none

/-- An optional sign and a non-empty run of digits. -/
def intOf? : List Char → Option Int
  | '-' :: cs => (natOf? cs).map fun n => -(n : Int)
  | '+' :: cs => (natOf? cs).map fun n => (n : Int)
  | cs => (natOf? cs).map fun n => (n : Int)

/-- The double nearest to `mantissa · 10^exponent`, unless it overflows. The
    lengths are compared first so that a far exponent is never computed. -/
def nearest? (mantissa : Nat) (exponent : Int) : Option Float :=
  if mantissa = 0 then some 0.0
  else
    let size : Int := (Nat.toDigits 10 mantissa).length + exponent
    if size < -400 then some 0.0
    else if 400 < size then none
    else
      let x := Float.ofScientific mantissa (exponent < 0) exponent.natAbs
      if x.isFinite then some x else none

/-- The exponent part: nothing, or `e`, an optional sign and digits. -/
def exponentOf? : List Char → Option Int
  | [] => some 0
  | c :: cs => if c = 'e' || c = 'E' then intOf? cs else none

/-- An unsigned decimal with an optional exponent. -/
def magnitudeOf? (cs : List Char) : Option Float :=
  let (whole, rest) := spanDigits cs
  let (fraction, rest) :=
    match rest with
    | '.' :: more => spanDigits more
    | _ => ([], rest)
  if whole.isEmpty && fraction.isEmpty then none
  else do
    let exponent ← exponentOf? rest
    nearest? (ofDigits (whole ++ fraction)) (exponent - fraction.length)

/-- An optionally signed decimal that a finite double can stand for. -/
def floatOf? : List Char → Option Float
  | '-' :: cs => (magnitudeOf? cs).map Float.neg
  | '+' :: cs => magnitudeOf? cs
  | cs => magnitudeOf? cs

end RecordGate.Decimal

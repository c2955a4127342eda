/-! # The shortest decimal of a double

  A finite double stands for an interval of reals: all that round to it. Its
  shortest decimal is the number with the fewest significant digits inside
  that interval, and among those the one nearest to the double.

  Everything is exact arithmetic on `Nat`: the double is `m · 2^q`, and for
  one digit, two digits and so on up to seventeen its two neighbours on that
  decimal grid are tested. Seventeen digits always suffice.
-/

namespace RecordGate.Decimal

/-- A positive double as `mantissa · 2^exponent`. -/
structure Binary where
  /-- The mantissa, hidden bit included. -/
  mantissa : Nat
  /-- The power of two. -/
  exponent : Int
  /-- Whether the next double below is only half as far as the one above. -/
  narrowBelow : Bool
  deriving DecidableEq, Repr

/-- Takes the magnitude of a finite double apart. -/
def Binary.ofBits (bits : UInt64) : Binary :=
  let fraction : Nat := bits.toNat % 0x10000000000000
  let biased : Nat := bits.toNat / 0x10000000000000 % 0x800
  if biased = 0 then ⟨fraction, -1074, false⟩
  else ⟨0x10000000000000 + fraction, (biased : Int) - 1075, fraction = 0 && biased > 1⟩

/-- Digits and the power of ten of the last one: `digits · 10^exponent`. -/
structure Digits where
  /-- The significant digits as one number. -/
  digits : Nat
  /-- The power of ten of the last digit. -/
  exponent : Int
  deriving DecidableEq, Repr

/-- A fraction `num / den` with positive denominator. -/
structure Ratio where
  /-- The numerator. -/
  num : Nat
  /-- The denominator. -/
  den : Nat

/-- The value `n · 2^e`. -/
def Ratio.ofBinary (n : Nat) (e : Int) : Ratio :=
  if 0 ≤ e then ⟨n * Nat.pow 2 e.toNat, 1⟩ else ⟨n, Nat.pow 2 (-e).toNat⟩

/-- The value divided by `10^e`. -/
def Ratio.shift (r : Ratio) (e : Int) : Ratio :=
  if 0 ≤ e then ⟨r.num, r.den * Nat.pow 10 e.toNat⟩
  else ⟨r.num * Nat.pow 10 (-e).toNat, r.den⟩

/-- Strictly below a whole number. -/
def Ratio.ltNat (r : Ratio) (n : Nat) : Bool := r.num < n * r.den

/-- Strictly above a whole number. -/
def Ratio.gtNat (r : Ratio) (n : Nat) : Bool := n * r.den < r.num

/-- The count of decimal digits of a positive number. -/
def digitCount (n : Nat) : Nat := (Nat.toDigits 10 n).length

/-- The power of ten of the leading digit of `num / den`, from a first guess
    by the lengths of the two numbers that is at most one too high. -/
def Ratio.leading (r : Ratio) : Int :=
  let guess : Int := (digitCount r.num : Int) - (digitCount r.den : Int)
  let scaled := r.shift guess
  if scaled.num < scaled.den then guess - 1 else guess

/-- Half-way points below and above, where rounding to the double ends. -/
def Binary.bounds (b : Binary) : Ratio × Ratio :=
  let high := Ratio.ofBinary (2 * b.mantissa + 1) (b.exponent - 1)
  if b.narrowBelow then (Ratio.ofBinary (4 * b.mantissa - 1) (b.exponent - 2), high)
  else (Ratio.ofBinary (2 * b.mantissa - 1) (b.exponent - 1), high)

/-- Whether `n · 10^e` rounds to the double; the ends of the interval belong
    to it when the mantissa is even. -/
def Binary.covers (b : Binary) (n : Nat) (e : Int) : Bool :=
  let (low, high) := b.bounds
  let low := low.shift e
  let high := high.shift e
  if b.mantissa % 2 = 0 then !low.gtNat n && !high.ltNat n
  else low.ltNat n && high.gtNat n

/-- The better of the two neighbours of the double on the grid `10^e`, if one
    of them rounds to it. A tie goes to the even one. -/
def Binary.onGrid (b : Binary) (e : Int) : Option Nat :=
  let r := (Ratio.ofBinary b.mantissa b.exponent).shift e
  let below := r.num / r.den
  let above := below + 1
  match b.covers below e, b.covers above e with
  | true, false => some below
  | false, true => some above
  | false, false => none
  | true, true =>
    let rest := 2 * (r.num % r.den)
    if rest < r.den then some below
    else if r.den < rest then some above
    else if below % 2 = 0 then some below else some above

/-- Tries the grids with `count`, `count + 1`, … digits, `fuel` of them. -/
def Binary.search (b : Binary) (leading : Int) : Nat → Nat → Digits
  | 0, count =>
    let e := leading - count
    let r := (Ratio.ofBinary b.mantissa b.exponent).shift e
    ⟨r.num / r.den, e⟩
  | fuel + 1, count =>
    let e := leading - count
    match b.onGrid e with
    | some n => if n = 0 then b.search leading fuel (count + 1) else ⟨n, e⟩
    | none => b.search leading fuel (count + 1)

/-- Moves trailing zeros from the digits to the exponent. -/
def Digits.strip : Nat → Digits → Digits
  | 0, d => d
  | fuel + 1, d =>
    if d.digits ≠ 0 && d.digits % 10 = 0 then strip fuel ⟨d.digits / 10, d.exponent + 1⟩ else d

/-- The shortest digits of a positive finite double. -/
def shortest (bits : UInt64) : Digits :=
  let b := Binary.ofBits bits
  let leading := (Ratio.ofBinary b.mantissa b.exponent).leading
  (b.search leading 17 0).strip 400

end RecordGate.Decimal

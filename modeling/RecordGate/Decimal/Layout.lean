import RecordGate.Decimal.Shortest

/-! # How a double is written

  One layout serves every place where a number becomes text: stored strings,
  documents and answers. The digits are the shortest ones; plain notation
  covers the leading exponents from -5 to 15 and always shows a decimal, all
  else is `d.ddde±x` with a bare `-` or an explicit `+`.
-/

namespace RecordGate.Decimal

/-- Decisions of a number layout. -/
structure Layout where
  /-- The least leading exponent written plainly. -/
  plainFrom : Int
  /-- The first leading exponent above, written in scientific notation. -/
  plainBelow : Int
  /-- The mark written before a positive exponent. -/
  positiveMark : String

/-- Plain from `1e-5` up to but not including `1e16`; `e+16` above. -/
def layout : Layout := ⟨-5, 16, "+"⟩

/-- `count` zeros. -/
def zeros (count : Nat) : String :=
  String.ofList (List.replicate count '0')

/-- A whole number in decimal digits. -/
def natText (n : Nat) : String :=
  String.ofList (Nat.toDigits 10 n)

/-- A whole number with a sign in front when it is negative. -/
def intText : Int → String
  | .ofNat n => natText n
  | .negSucc n => "-" ++ natText (n + 1)

/-- Writes `digits · 10^exponent`. -/
def Layout.write (l : Layout) (d : Digits) : String :=
  let text := natText d.digits
  let count := text.length
  let leading : Int := d.exponent + count - 1
  if l.plainFrom ≤ leading && leading < l.plainBelow then
    if 0 ≤ d.exponent then text ++ zeros d.exponent.toNat ++ ".0"
    else
      let places := (-d.exponent).toNat
      if places < count then
        let (whole, rest) := text.toList.splitAt (count - places)
        String.ofList whole ++ "." ++ String.ofList rest
      else "0." ++ zeros (places - count) ++ text
  else
    let mark := if leading < 0 then "-" else l.positiveMark
    let (head, rest) := text.toList.splitAt 1
    let fraction := if rest.isEmpty then "" else "." ++ String.ofList rest
    String.ofList head ++ fraction ++ "e" ++ mark ++ natText leading.natAbs

/-- The text of a finite double. -/
def floatText (x : Float) : String :=
  let bits := x.toBits
  let sign := if bits.toNat / 0x8000000000000000 = 1 then "-" else ""
  let magnitude := bits.toNat % 0x8000000000000000
  if magnitude = 0 then sign ++ "0.0"
  else sign ++ layout.write (shortest (UInt64.ofNat magnitude))

end RecordGate.Decimal

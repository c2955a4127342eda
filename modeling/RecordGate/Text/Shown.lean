import RecordGate.Hex

/-! # One character, shown between quotes

  A message that points at a single byte shows it as the Latin-1 character of
  that number, between single quotes, with what cannot be seen written as an
  escape.
-/

namespace RecordGate.Text

/-- Whether a Latin-1 character can be seen: no control character, no
    no-break space and no soft hyphen. -/
def isVisibleLatin (n : Nat) : Bool :=
  (0x20 ≤ n && n < 0x7F) || (0xA0 < n && n ≠ 0xAD)

/-- The character of a byte between single quotes, escaped where needed. -/
def shownByte (b : UInt8) : String :=
  let body :=
    match b.toNat with
    | 0x00 => "\\0"
    | 0x09 => "\\t"
    | 0x0A => "\\n"
    | 0x0D => "\\r"
    | 0x27 => "\\'"
    | 0x5C => "\\\\"
    | n =>
      if isVisibleLatin n then String.singleton (Char.ofNat n)
      else "\\u\x7b" ++ Hex.ofNat n ++ "\x7d"
  "'" ++ body ++ "'"

end RecordGate.Text

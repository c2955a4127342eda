/-! # Hexadecimal text

  Bytes are written as two lower-case digits each. Reading takes digits of
  either case and names the first fault: an odd count of bytes, a wrong count,
  or the first byte that is no digit.
-/

namespace RecordGate.Hex

/-- The digit of a number below sixteen. -/
def digit (n : Nat) : Char :=
  if n < 10 then Char.ofNat (48 + n) else Char.ofNat (87 + n)

/-- The value of a digit of either case, given as a byte. -/
def value? (b : UInt8) : Option UInt8 :=
  if 48 ≤ b && b ≤ 57 then some (b - 48)
  else if 65 ≤ b && b ≤ 70 then some (b - 55)
  else if 97 ≤ b && b ≤ 102 then some (b - 87)
  else none

/-- A byte that is a digit of either case. -/
def isDigit (b : UInt8) : Bool :=
  (value? b).isSome

/-- The digits of a number without leading zeros; zero is one digit. -/
def ofNat (n : Nat) : String :=
  String.ofList (Nat.toDigits 16 n)

/-- The two digits of a byte. -/
def ofByte (b : UInt8) : List Char :=
  [digit (b.toNat / 16), digit (b.toNat % 16)]

/-- Two lower-case digits for each byte. -/
def encodeChars (bytes : List UInt8) : List Char :=
  bytes.flatMap ofByte

/-- `encodeChars` as a string. -/
def encode (bytes : List UInt8) : String :=
  String.ofList (encodeChars bytes)

theorem digit_injOn : ∀ a < 16, ∀ b < 16, digit a = digit b → a = b := by decide

theorem ofByte_injective {a b : UInt8} (h : ofByte a = ofByte b) : a = b := by
  have ha := a.toNat_lt
  have hb := b.toNat_lt
  simp only [ofByte, List.cons.injEq, and_true] at h
  have hhi := digit_injOn _ (by omega) _ (by omega) h.1
  have hlo := digit_injOn _ (by omega) _ (by omega) h.2
  exact UInt8.toNat_inj.mp (by omega)

/-- Different bytes have different digits. -/
theorem encode_injective {as bs : List UInt8} (h : encode as = encode bs) : as = bs := by
  have hchars : encodeChars as = encodeChars bs := String.ofList_inj.mp h
  clear h
  induction as generalizing bs with
  | nil =>
    cases bs with
    | nil => rfl
    | cons b bs => simp [encodeChars, ofByte] at hchars
  | cons a as ih =>
    cases bs with
    | nil => simp [encodeChars, ofByte] at hchars
    | cons b bs =>
      obtain ⟨hbyte, hrest⟩ := List.append_inj hchars rfl
      rw [ofByte_injective hbyte, ih hrest]

/-- Why a text is no hexadecimal form of so many bytes. -/
inductive Fault where
  /-- The count of bytes of the text is odd. -/
  | oddLength
  /-- The count is even and not twice the count wanted. -/
  | wrongLength
  /-- The byte at this position is no digit. -/
  | badDigit (byte : UInt8) (position : Nat)
  deriving DecidableEq, Repr

/-- Reads pairs of digits; `position` counts the bytes of the text read so far. -/
def decodePairs (position : Nat) : List UInt8 → Except Fault (List UInt8)
  | [] => .ok []
  | [_] => .error .oddLength
  | hi :: lo :: rest =>
    match value? hi, value? lo with
    | none, _ => .error (.badDigit hi position)
    | some _, none => .error (.badDigit lo (position + 1))
    | some h, some l => (decodePairs (position + 2) rest).map ((h * 16 + l) :: ·)

/-- Reads the hexadecimal form of `count` bytes. -/
def decode (count : Nat) (text : List UInt8) : Except Fault (List UInt8) :=
  if text.length % 2 = 1 then .error .oddLength
  else if text.length ≠ 2 * count then .error .wrongLength
  else decodePairs 0 text

end RecordGate.Hex

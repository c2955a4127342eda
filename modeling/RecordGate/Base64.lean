/-! # Base64

  Two forms of the same six-bit text: the standard alphabet with its padding,
  and the URL-safe alphabet without padding. Reading is strict: the padding is
  there exactly when the form asks for it, and the bits that the last
  character has to spare are zero, so each list of bytes has one text.
-/

namespace RecordGate.Base64

/-- An alphabet and whether the text is padded to a multiple of four. -/
structure Form where
  /-- The characters for 62 and 63. -/
  tail : Char × Char
  /-- Whether `=` fills the last group. -/
  padded : Bool
  deriving DecidableEq, Repr

/-- The standard alphabet with padding. -/
def Form.standard : Form := ⟨('+', '/'), true⟩

/-- The URL-safe alphabet without padding. -/
def Form.urlSafe : Form := ⟨('-', '_'), false⟩

/-- The character of a number below 64. -/
def Form.digit (f : Form) (n : Nat) : Char :=
  if n < 26 then Char.ofNat (65 + n)
  else if n < 52 then Char.ofNat (71 + n)
  else if n < 62 then Char.ofNat (n - 4)
  else if n = 62 then f.tail.1
  else f.tail.2

/-- The number of a character of the alphabet. -/
def Form.value? (f : Form) (c : Char) : Option Nat :=
  if c.isUpper then some (c.toNat - 65)
  else if c.isLower then some (c.toNat - 71)
  else if c.isDigit then some (c.toNat + 4)
  else if c = f.tail.1 then some 62
  else if c = f.tail.2 then some 63
  else none

/-- The padding of a form, or nothing. -/
def Form.pad (f : Form) (n : Nat) : List Char :=
  if f.padded then List.replicate n '=' else []

/-- The text of a list of bytes. -/
def encodeChars (f : Form) : List UInt8 → List Char
  | [] => []
  | [a] =>
    let n := a.toNat
    [f.digit (n / 4), f.digit (n % 4 * 16)] ++ f.pad 2
  | [a, b] =>
    let n := a.toNat * 256 + b.toNat
    [f.digit (n / 1024), f.digit (n / 16 % 64), f.digit (n % 16 * 4)] ++ f.pad 1
  | a :: b :: c :: rest =>
    let n := (a.toNat * 256 + b.toNat) * 256 + c.toNat
    f.digit (n / 262144) :: f.digit (n / 4096 % 64) :: f.digit (n / 64 % 64) ::
      f.digit (n % 64) :: encodeChars f rest

/-- `encodeChars` as a string. -/
def encode (f : Form) (bs : List UInt8) : String :=
  String.ofList (encodeChars f bs)

/-- The last group, of fewer than four characters once the padding is off. -/
def decodeLast (f : Form) : List Char → Option (List UInt8)
  | [] => some []
  | [x, y] => do
    let a ← f.value? x
    let b ← f.value? y
    if b % 16 = 0 then some [UInt8.ofNat (a * 4 + b / 16)] else none
  | [x, y, z] => do
    let a ← f.value? x
    let b ← f.value? y
    let c ← f.value? z
    if c % 4 = 0 then
      some [UInt8.ofNat (a * 4 + b / 16), UInt8.ofNat (b % 16 * 16 + c / 4)]
    else none
  | _ => none

/-- The last group with the padding that the form asks for. -/
def decodeFinal (f : Form) (cs : List Char) : Option (List UInt8) :=
  if f.padded then
    match cs with
    | [] => some []
    | [x, y, '=', '='] => decodeLast f [x, y]
    | [x, y, z, '='] => decodeLast f [x, y, z]
    | _ => none
  else decodeLast f cs

/-- Reads full groups of four while there are any, then the last group. -/
def decodeChars (f : Form) : List Char → Option (List UInt8)
  | x :: y :: z :: w :: rest =>
    match f.value? x, f.value? y, f.value? z, f.value? w with
    | some a, some b, some c, some d =>
      (decodeChars f rest).map
        ([UInt8.ofNat (a * 4 + b / 16), UInt8.ofNat (b % 16 * 16 + c / 4),
          UInt8.ofNat (c % 4 * 64 + d)] ++ ·)
    | _, _, _, _ => decodeFinal f (x :: y :: z :: w :: rest)
  | cs => decodeFinal f cs

/-- The bytes that a text stands for. -/
def decode (f : Form) (s : String) : Option (List UInt8) :=
  decodeChars f s.toList

end RecordGate.Base64

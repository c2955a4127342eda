import RecordGate.Decimal.Read
import RecordGate.Hex
import RecordGate.Json.Record
import RecordGate.Text.Utf8

/-! # Reading JSON

  A strict reader of JSON texts.

  - Of a repeated name the last value stays.
  - Arrays and objects nest at most `maxDepth` deep.
  - A number without fraction and exponent that fits 64 bits is whole; any
    other is a double, and one too large for a double is refused. `-0` is a
    double.
  - Escaped surrogates must come in pairs.

  Each step returns what it read and the rest of the text. The recursion runs
  on a fuel that the length of the text bounds, since every call takes at
  least one character.
-/

namespace RecordGate.Json.Reader

/-- How deep arrays and objects may nest. -/
def maxDepth : Nat := 127

/-- A character between tokens. -/
def isGap (c : Char) : Bool :=
  c = ' ' || c = '\n' || c = '\t' || c = '\r'

/-- Drops the characters between tokens. -/
def skipGap (cs : List Char) : List Char :=
  cs.dropWhile isGap

/-! ### Numbers -/

/-- Takes digits into a significand as long as it fits 64 bits; returns the
    significand, how many digits it took, and the rest. -/
def significand (acc taken : Nat) : List Char → Nat × Nat × List Char
  | [] => (acc, taken, [])
  | c :: cs =>
    if Decimal.isDigit c then
      let next := acc * 10 + Decimal.digitValue c
      if next < 0x10000000000000000 then significand next (taken + 1) cs else (acc, taken, c :: cs)
    else (acc, taken, c :: cs)

/-- The double `10^n` for `n` up to 308. -/
def powerOfTen (n : Nat) : Float :=
  Float.ofScientific 1 false n

/-- Scales a double by a power of ten with one rounding for each step of at
    most 308; none if it overflows. After `fuel` steps the value is zero. -/
def scaleFloat : Nat → Float → Int → Option Float
  | 0, x, _ => some x
  | fuel + 1, x, e =>
    if e.natAbs ≤ 308 then
      if 0 ≤ e then
        let y := x * powerOfTen e.natAbs
        if y.isFinite then some y else none
      else some (x / powerOfTen e.natAbs)
    else if x == 0.0 then some x
    else if 0 ≤ e then none
    else scaleFloat fuel (x / powerOfTen 308) (e + 308)

/-- The double of a sign, a significand and a power of ten. -/
def scaled (negative : Bool) (digits : Nat) (e : Int) : Option Json :=
  (scaleFloat 4 (Float.ofNat digits) e).map fun x =>
    .num (.float (if negative then -x else x))

/-- An exponent part, if one follows. -/
def exponent (cs : List Char) : Option (Option Int × List Char) :=
  match cs with
  | c :: rest =>
    if c = 'e' || c = 'E' then
      let (negative, rest) :=
        match rest with
        | '+' :: more => (false, more)
        | '-' :: more => (true, more)
        | _ => (false, rest)
      let (digits, rest) := Decimal.spanDigits rest
      if digits.isEmpty then none
      else
        let n : Int := Decimal.ofDigits digits
        some (some (if negative then -n else n), rest)
    else some (none, cs)
  | [] => some (none, [])

/-- The value of a whole number that fits 64 bits. -/
def whole (negative : Bool) (digits : Nat) : Json :=
  if !negative then .num (.int digits)
  else if digits = 0 || 0x8000000000000000 < digits then .num (.float (-(Float.ofNat digits)))
  else .num (.int (-(digits : Int)))

/-- A number after its sign. -/
def magnitude (negative : Bool) (cs : List Char) : Option (Json × List Char) :=
  let (lead, _) := Decimal.spanDigits cs
  if lead.isEmpty || (lead.length > 1 && lead.head? = some '0') then none
  else do
    let (digits, _, rest) := significand 0 0 cs
    let (dropped, rest) := Decimal.spanDigits rest
    let (digits, taken, fractional, rest) ←
      match rest with
      | '.' :: more =>
        let (run, _) := Decimal.spanDigits more
        if run.isEmpty then none
        else
          let (digits, taken, rest) := significand digits 0 more
          some (digits, taken, true, (Decimal.spanDigits rest).2)
      | _ => some (digits, 0, false, rest)
    let (e, rest) ← exponent rest
    match e with
    | none =>
      if !fractional && dropped.isEmpty then some (whole negative digits, rest)
      else (scaled negative digits ((dropped.length : Int) - taken)).map (·, rest)
    | some e => (scaled negative digits ((dropped.length : Int) - taken + e)).map (·, rest)

/-- A number. -/
def number : List Char → Option (Json × List Char)
  | '-' :: cs => magnitude true cs
  | cs => magnitude false cs

/-! ### Strings -/

/-- The value of four hexadecimal digits. -/
def hex4? (a b c d : Char) : Option Nat := do
  let digit (c : Char) : Option Nat :=
    if c.toNat < 0x80 then (Hex.value? (UInt8.ofNat c.toNat)).map UInt8.toNat else none
  let a ← digit a
  let b ← digit b
  let c ← digit c
  let d ← digit d
  some (((a * 16 + b) * 16 + c) * 16 + d)

/-- The character that a one-letter escape stands for. -/
def escape? (c : Char) : Option Char :=
  match c with
  | '"' => some '"'
  | '\\' => some '\\'
  | '/' => some '/'
  | 'b' => some '\x08'
  | 'f' => some '\x0c'
  | 'n' => some '\n'
  | 'r' => some '\r'
  | 't' => some '\t'
  | _ => none

/-- The characters of a string up to its closing quote, and the rest. -/
def stringBody : List Char → Option (List Char × List Char)
  | [] => none
  | '"' :: rest => some ([], rest)
  | '\\' :: 'u' :: a :: b :: c :: d :: rest =>
    match hex4? a b c d with
    | none => none
    | some n =>
      if 0xDC00 ≤ n && n < 0xE000 then none
      else if 0xD800 ≤ n && n < 0xDC00 then
        match rest with
        | '\\' :: 'u' :: e :: f :: g :: h :: rest =>
          match hex4? e f g h with
          | none => none
          | some m =>
            if 0xDC00 ≤ m && m < 0xE000 then
              (stringBody rest).map fun (s, rest) =>
                (Char.ofNat (0x10000 + (n - 0xD800) * 0x400 + (m - 0xDC00)) :: s, rest)
            else none
        | _ => none
      else (stringBody rest).map fun (s, rest) => (Char.ofNat n :: s, rest)
  | '\\' :: e :: rest =>
    match escape? e with
    | none => none
    | some c => (stringBody rest).map fun (s, rest) => (c :: s, rest)
  | c :: rest =>
    if c = '\\' || c.toNat < 0x20 then none
    else (stringBody rest).map fun (s, rest) => (c :: s, rest)

/-! ### Values -/

mutual

/-- A value, which may nest `depth` deep. -/
def value : (fuel depth : Nat) → List Char → Option (Json × List Char)
  | 0, _, _ => none
  | fuel + 1, depth, cs =>
    match skipGap cs with
    | 'n' :: 'u' :: 'l' :: 'l' :: rest => some (.null, rest)
    | 't' :: 'r' :: 'u' :: 'e' :: rest => some (.bool true, rest)
    | 'f' :: 'a' :: 'l' :: 's' :: 'e' :: rest => some (.bool false, rest)
    | '"' :: rest => (stringBody rest).map fun (s, rest) => (.str (String.ofList s), rest)
    | '[' :: rest =>
      match depth with
      | 0 => none
      | depth + 1 => (items fuel depth rest).map fun (xs, rest) => (.arr xs, rest)
    | '\x7b' :: rest =>
      match depth with
      | 0 => none
      | depth + 1 =>
        (members fuel depth rest).map fun (ms, rest) => (.obj (Record.ofList ms), rest)
    | cs => number cs

/-- The items of an array after its opening bracket. -/
def items : (fuel depth : Nat) → List Char → Option (List Json × List Char)
  | 0, _, _ => none
  | fuel + 1, depth, cs =>
    match skipGap cs with
    | ']' :: rest => some ([], rest)
    | cs => do
      let (v, rest) ← value fuel depth cs
      let (vs, rest) ← moreItems fuel depth rest
      some (v :: vs, rest)

/-- The items of an array after the first. -/
def moreItems : (fuel depth : Nat) → List Char → Option (List Json × List Char)
  | 0, _, _ => none
  | fuel + 1, depth, cs =>
    match skipGap cs with
    | ']' :: rest => some ([], rest)
    | ',' :: rest => do
      let (v, rest) ← value fuel depth rest
      let (vs, rest) ← moreItems fuel depth rest
      some (v :: vs, rest)
    | _ => none

/-- The members of an object after its opening brace, as written. -/
def members : (fuel depth : Nat) → List Char → Option (List (String × Json) × List Char)
  | 0, _, _ => none
  | fuel + 1, depth, cs =>
    match skipGap cs with
    | '\x7d' :: rest => some ([], rest)
    | cs => do
      let (m, rest) ← member fuel depth cs
      let (ms, rest) ← moreMembers fuel depth rest
      some (m :: ms, rest)

/-- The members of an object after the first. -/
def moreMembers : (fuel depth : Nat) → List Char → Option (List (String × Json) × List Char)
  | 0, _, _ => none
  | fuel + 1, depth, cs =>
    match skipGap cs with
    | '\x7d' :: rest => some ([], rest)
    | ',' :: rest => do
      let (m, rest) ← member fuel depth rest
      let (ms, rest) ← moreMembers fuel depth rest
      some (m :: ms, rest)
    | _ => none

/-- A name, a colon and a value. -/
def member : (fuel depth : Nat) → List Char → Option ((String × Json) × List Char)
  | 0, _, _ => none
  | fuel + 1, depth, cs =>
    match skipGap cs with
    | '"' :: rest => do
      let (name, rest) ← stringBody rest
      match skipGap rest with
      | ':' :: rest => do
        let (v, rest) ← value fuel depth rest
        some ((String.ofList name, v), rest)
      | _ => none
    | _ => none

end

/-- Fuel that no text of this length can use up. -/
def fuelFor (cs : List Char) : Nat :=
  4 * cs.length + 4

end Reader

/-- The value that a whole text writes. -/
def ofChars? (cs : List Char) : Option Json :=
  match Reader.value (Reader.fuelFor cs) Reader.maxDepth cs with
  | some (v, rest) => if (Reader.skipGap rest).isEmpty then some v else none
  | none => none

/-- The value that a whole text writes. -/
def ofText? (text : String) : Option Json :=
  ofChars? text.toList

/-- The value that the bytes of a text write. -/
def ofBytes? (bytes : List UInt8) : Option Json :=
  (Text.ofBytes? bytes).bind ofText?

/-- The members of the object that a whole text writes, in the order and as
    often as they are written. -/
def membersOfText? (text : String) : Option (List (String × Json)) :=
  match Reader.skipGap text.toList with
  | '\x7b' :: rest =>
    match Reader.members (Reader.fuelFor rest) (Reader.maxDepth - 1) rest with
    | some (ms, rest) => if (Reader.skipGap rest).isEmpty then some ms else none
    | none => none
  | _ => none

/-- The members of an object after its opening brace, with the texts of their
    values, up to the first that cannot be read. -/
def Reader.memberTexts : (fuel : Nat) → List Char → List (String × String)
  | 0, _ => []
  | fuel + 1, cs =>
    match skipGap cs with
    | '"' :: rest =>
      match (stringBody rest).map fun (name, rest) => (name, skipGap rest) with
      | some (name, ':' :: rest) =>
        let start := skipGap rest
        match value (fuelFor start) maxDepth start with
        | none => []
        | some (_, rest) =>
          (String.ofList name, String.ofList (start.take (start.length - rest.length))) ::
            match skipGap rest with
            | ',' :: rest => memberTexts fuel rest
            | _ => []
      | _ => []
    | _ => []

/-- The members of the object that a text opens with, each with the text of its
    value as it is written. -/
def textsOfMembers (text : String) : List (String × String) :=
  match Reader.skipGap text.toList with
  | '\x7b' :: rest => Reader.memberTexts (rest.length + 1) rest
  | _ => []

end RecordGate.Json

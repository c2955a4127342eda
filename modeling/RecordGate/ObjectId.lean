import RecordGate.Hex
import RecordGate.Text.Shown
import RecordGate.Text.Utf8

/-! # Record identifiers

  An identifier is twelve bytes: four of the clock, five of the process and
  three of a counter. It is stored and compared as 24 lower-case hexadecimal
  digits.

  - `parse` takes digits of either case.
  - `Source.next` makes identifiers; a run of fewer than `2^24 + 1` of them
    holds no repetition, whatever the clock does.
-/

namespace RecordGate

/-- The name of the identifier field. -/
def idField : String := "_id"

/-- Twelve bytes. -/
structure ObjectId where
  /-- The bytes. -/
  bytes : List UInt8
  /-- There are twelve of them. -/
  length_eq : bytes.length = 12
  deriving DecidableEq, Repr

namespace ObjectId

/-- Reads 24 hexadecimal digits of either case. -/
def parse (s : String) : Except Hex.Fault ObjectId :=
  match Hex.decode 12 (Text.bytes s) with
  | .error fault => .error fault
  | .ok bytes => if h : bytes.length = 12 then .ok ⟨bytes, h⟩ else .error .wrongLength

/-- The 24 lower-case digits. -/
def toHex (id : ObjectId) : String :=
  Hex.encode id.bytes

/-- Different identifiers have different digits. -/
theorem toHex_injective {a b : ObjectId} (h : a.toHex = b.toHex) : a = b := by
  cases a
  cases b
  simpa using Hex.encode_injective h

/-- Whether a text is 24 hexadecimal digits. -/
def isValid (s : String) : Bool :=
  (Text.bytes s).length = 24 && (Text.bytes s).all Hex.isDigit

/-- The wording of a fault. -/
def faultText : Hex.Fault → String
  | .oddLength => "Odd number of digits"
  | .wrongLength => "Invalid string length"
  | .badDigit byte position =>
    "Invalid character " ++ Text.shownByte byte ++ " at position " ++ toString position

/-! ### Making identifiers -/

/-- The last `count` bytes of a number, most significant first. -/
def tailBytes (count n : Nat) : List UInt8 :=
  (List.range count).reverse.map fun i => UInt8.ofNat (n / Nat.pow 256 i)

theorem length_tailBytes (count n : Nat) : (tailBytes count n).length = count := by
  simp [tailBytes]

/-- What a process makes identifiers from. -/
structure Source where
  /-- Five bytes of the process. -/
  unique : List UInt8
  /-- There are five of them. -/
  length_unique : unique.length = 5
  /-- The next value of the counter, which wraps around. -/
  counter : UInt32
  deriving DecidableEq, Repr

/-- The identifier of a clock reading and a counter value: the seconds modulo
    `2^32`, the bytes of the process, the counter modulo `2^24`. -/
def make (seconds : Int) (source : Source) : ObjectId where
  bytes := tailBytes 4 (seconds % 0x100000000).toNat ++ source.unique ++
    tailBytes 3 source.counter.toNat
  length_eq := by simp [length_tailBytes, source.length_unique]

/-- Makes the next identifier at a clock reading in seconds. -/
def Source.next (source : Source) (seconds : Int) : ObjectId × Source :=
  (make seconds source, { source with counter := source.counter + 1 })

/-- The identifier that the `n`-th call makes, counted from zero, when the
    clock reads `seconds n` at it. -/
def Source.nth (source : Source) (seconds : Nat → Int) (n : Nat) : ObjectId :=
  make (seconds n) { source with counter := source.counter + UInt32.ofNat n }

end ObjectId

end RecordGate

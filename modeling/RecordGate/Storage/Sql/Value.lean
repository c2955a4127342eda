import RecordGate.Decimal.Shortest
import RecordGate.Error
import RecordGate.Json.Printer
import RecordGate.Json.Reader

/-! # Values that SQL compares

  A filter is compared in SQL: a value is taken out of the stored document and
  held against the wanted one. What comes out of JSON is a number, a text or
  nothing.

  - Booleans are the numbers 1 and 0; arrays and objects are their minified
    text.
  - Nothing equals nothing else, not even itself; numbers are equal by exact
    value, texts by content, and a number never equals a text.
-/

namespace RecordGate.Storage.Sql

/-- What SQL makes of a JSON value. -/
inductive Value where
  /-- No value. -/
  | null
  /-- A whole number of 64 signed bits. -/
  | int (n : Int)
  /-- A double. -/
  | real (x : Float)
  /-- A text. -/
  | text (s : String)
  deriving Repr, DecidableEq

/-- The whole number that a double is, if it is one. -/
def wholeOf? (x : Float) : Option Int :=
  let bits := x.toBits
  let b := Decimal.Binary.ofBits bits
  let magnitude : Option Nat :=
    if 0 ≤ b.exponent then some (b.mantissa * Nat.pow 2 b.exponent.toNat)
    else
      let unit := Nat.pow 2 (-b.exponent).toNat
      if b.mantissa % unit = 0 then some (b.mantissa / unit) else none
  magnitude.map fun n => if bits.toNat / 0x8000000000000000 = 1 then -(n : Int) else n

/-- Equality in SQL. -/
def Value.equal : Value → Value → Bool
  | .int a, .int b => a = b
  | .real x, .real y => x == y
  | .int a, .real x | .real x, .int a => wholeOf? x = some a
  | .text s, .text t => s = t
  | _, _ => false

/-- What SQL makes of a JSON value. -/
def Value.ofJson : Json → Value
  | .null => .null
  | .bool b => .int (if b then 1 else 0)
  | .num n =>
    match n.signed? with
    | some i => .int i
    | none => .real n.toFloat
  | .str s => .text s
  | v => .text v.text

/-! ### Documents -/

/-- What the database itself refuses, under its own code. -/
def refusal (code : Nat) (text : String) : Error :=
  .storage s!"error returned from database: (code: {code}) {text}"

/-- The text in a row: JSON, or something that is not. -/
inductive Document where
  /-- A text that reads as this value. -/
  | json (v : Json)
  /-- A text that is no JSON. -/
  | corrupt
  deriving Repr, DecidableEq

/-- How a text reads. -/
def Document.ofText (text : String) : Document :=
  match Json.ofText? text with
  | some v => .json v
  | none => .corrupt

/-- The record in a document. -/
def Document.record : Document → Except Error Record
  | .json (.obj r) => .ok r
  | .json _ => .error (.storage "stored document is not an object")
  | .corrupt => .error (.storage "corrupt stored document: malformed JSON")

/-- The value of a member of a document; SQL refuses what is no JSON.

    The path to the member is the name between quotes. Names of fields are
    identifiers, and for these that is all. Of other names, one with a quote is
    refused here, and a backslash stands for itself: this is not how SQL reads
    such a path, where a quote ends the name and a backslash hides what follows
    it. -/
def Document.extract (d : Document) (name : String) : Except Error Value :=
  match d with
  | .corrupt => .error (refusal 1 "malformed JSON")
  | .json (.obj r) =>
    if name.toList.contains '"' then
      .error (refusal 1 ("bad JSON path: '$.\"" ++ name ++ "\"'"))
    else
      match Record.get? r name with
      | some v => .ok (Value.ofJson v)
      | none => .ok .null
  | .json _ => .ok .null

/-- Whether every member that a filter names has the wanted value; the first
    that has not settles it. -/
def Document.accepts (d : Document) : Record → Except Error Bool
  | [] => .ok true
  | (name, wanted) :: rest => do
    let v ← d.extract name
    if v.equal (Value.ofJson wanted) then d.accepts rest else .ok false

end RecordGate.Storage.Sql

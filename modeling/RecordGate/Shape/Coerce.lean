import RecordGate.Error
import RecordGate.Json.Printer
import RecordGate.Json.Record
import RecordGate.ObjectId
import RecordGate.Schema.FieldType
import RecordGate.Time.Rfc3339

/-! # Coercion

  An input value is brought into the stored form of its field's type, or
  refused. `null` fits every type: it clears the field.

  - Text becomes numbers, booleans, dates and identifiers, so that the same
    rule serves bodies, path parameters and defaults.
  - Whole numbers and booleans become text in a text field.
-/

namespace RecordGate.Shape

/-- Refuses a value of the wrong kind. -/
def mismatch (field : String) (type : FieldType) (got : Json) : Error :=
  .validation field s!"expected {type.expected}, got {got.kind}"

/-- Refuses a text that is no value of the type. -/
def notA (field text what : String) : Error :=
  .validation field s!"'{text}' is not {what}"

/-- A number from its text: whole if it fits 64 signed bits, else a double. -/
def numberOf? (text : String) : Option Number :=
  let cs := Text.trimChars text.toList
  let whole := (Decimal.intOf? cs).bind fun n => (Number.int n).signed?
  match whole with
  | some n => some (.int n)
  | none => (Decimal.floatOf? cs).map .float

/-- An instant from its text: RFC 3339, or a bare date. -/
def instantOf? (text : String) : Option Time.Instant :=
  let cs := Text.trimChars text.toList
  match Time.strict? cs with
  | some t => some t
  | none => Time.date? cs

/-- An identifier from its digits alone, with the reason if they are wrong. -/
def readIdentifier (text : String) : Except Error ObjectId :=
  (ObjectId.parse text).mapError fun fault =>
    .validation idField ("expected 24 hex characters: " ++ ObjectId.faultText fault)

/-- An identifier from its text, in the stored form. -/
def identifier (field text : String) : Except Error Json :=
  match ObjectId.parse (Text.trim text) with
  | .ok id => .ok (.str id.toHex)
  | .error _ => .error (notA field text "a valid ObjectId")

/-- An item of a list of identifiers. -/
def identifierItem (field : String) : Json → Except Error Json
  | .str s => identifier field s
  | got => .error (mismatch field .objectIds got)

/-- Every item of a list of identifiers, up to the first that is none. -/
def identifierItems (field : String) : List Json → Except Error (List Json)
  | [] => .ok []
  | item :: rest => do
    let item ← identifierItem field item
    let rest ← identifierItems field rest
    .ok (item :: rest)

/-- The stored form of a value that is not `null`. -/
def coercePresent (field : String) (type : FieldType) (value : Json) : Except Error Json :=
  match type, value with
  | .string, .str s => .ok (.str s)
  | .string, .num n => .ok (.str n.text)
  | .string, .bool b => .ok (.str (if b then "true" else "false"))
  | .number, .num n => .ok (.num n)
  | .number, .str s =>
    match numberOf? s with
    | some n => .ok (.num n)
    | none => .error (notA field s "a number")
  | .boolean, .bool b => .ok (.bool b)
  | .boolean, .str s =>
    match Text.trim s with
    | "true" => .ok (.bool true)
    | "false" => .ok (.bool false)
    | _ => .error (notA field s "a boolean")
  | .date, .str s =>
    match instantOf? s with
    | some t => .ok (.str t.stored)
    | none => .error (notA field s "a date")
  | .date, .num n =>
    match n.signed?.bind Time.Instant.ofMillis? with
    | some t => .ok (.str t.stored)
    | none => .error (.validation field "epoch millis out of range")
  | .objectId, .str s => identifier field s
  | .array, .arr items => .ok (.arr items)
  | .objectIds, .arr items => (identifierItems field items).map .arr
  | type, got => .error (mismatch field type got)

/-- The stored form of a value, or why it does not fit the field. -/
def coerce (field : String) (type : FieldType) (value : Json) : Except Error Json :=
  match value with
  | .null => .ok .null
  | value => coercePresent field type value

end RecordGate.Shape

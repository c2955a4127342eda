import RecordGate.Text.Blank

/-! # Field types

  The types that a field can be declared with. Dates and identifiers are
  strings of a fixed form.
-/

namespace RecordGate

/-- The type of a field. -/
inductive FieldType where
  | string
  | number
  | boolean
  /-- An instant, stored as an RFC 3339 string. -/
  | date
  /-- An identifier, stored as 24 lower-case hexadecimal digits. -/
  | objectId
  /-- An array of anything. -/
  | array
  /-- An array of identifiers. -/
  | objectIds
  deriving DecidableEq, Repr, Inhabited

namespace FieldType

/-- Reads a type name; blanks around it do not count. -/
def ofTag? (tag : String) : Option FieldType :=
  match Text.trim tag with
  | "String" | "string" => some string
  | "Number" | "number" => some number
  | "Boolean" | "boolean" | "bool" => some boolean
  | "Date" | "date" => some date
  | "ObjectId" | "objectId" => some objectId
  | "Array" | "array" => some array
  | "Array<ObjectId>" | "[ObjectId]" => some objectIds
  | _ => none

/-- The name of a type. -/
def tag : FieldType → String
  | string => "String"
  | number => "Number"
  | boolean => "Boolean"
  | date => "Date"
  | objectId => "ObjectId"
  | array => "Array"
  | objectIds => "Array<ObjectId>"

/-- Whether values of the type are identifiers. -/
def isIdentifier : FieldType → Bool
  | objectId => true
  | _ => false

/-- What an input of the type looks like, for messages. -/
def expected : FieldType → String
  | string => "string"
  | number => "number"
  | boolean => "boolean"
  | date => "date string or epoch millis"
  | objectId => "24-character hex string"
  | array => "array"
  | objectIds => "array of 24-character hex strings"

end FieldType

end RecordGate

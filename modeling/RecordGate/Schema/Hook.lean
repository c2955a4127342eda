import RecordGate.Schema.Model
import RecordGate.Text.Blank

/-! # The hooks that a configuration can name

  - `timestamps` sets `created_at` and `updated_at` on a create and
    `updated_at` on an update.
  - `trim` drops the blanks around every text value.
-/

namespace RecordGate.Hook

/-- The field that holds the time of the create. -/
def createdAt : String := "created_at"

/-- The field that holds the time of the last write. -/
def updatedAt : String := "updated_at"

/-- Sets both times. -/
def stampCreate : Hook where
  name := "timestamps"
  run now values := (values.insert createdAt (.str now.stored)).insert updatedAt (.str now.stored)

/-- Sets the time of the last write. -/
def stampUpdate : Hook where
  name := "timestamps"
  run now values := values.insert updatedAt (.str now.stored)

/-- A value without the blanks around it, if it is a text. -/
def trimValue : Json → Json
  | .str s => .str (Text.trim s)
  | v => v

/-- Drops the blanks around every text value. -/
def trimTexts : Hook where
  name := "trim"
  run _ values := values.mapValues trimValue

/-- The names that a configuration can use. -/
def available : List String := ["timestamps", "trim"]

/-- The hook of a name for an operation. -/
def ofName? (name : String) (op : Operation) : Option Hook :=
  match name, op with
  | "timestamps", .create => some stampCreate
  | "timestamps", .update => some stampUpdate
  | "trim", .create | "trim", .update => some trimTexts
  | _, _ => none

end RecordGate.Hook

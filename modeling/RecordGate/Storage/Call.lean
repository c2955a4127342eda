import RecordGate.Error
import RecordGate.Json.Record

/-! # Storage calls

  The engine asks a storage driver five things, each about one collection and
  each answered in one atomic step. Filters name fields and the values that
  they must have.
-/

namespace RecordGate.Storage

/-- A question to a storage driver. -/
inductive Call where
  /-- The first record that a filter accepts. -/
  | findOne (collection : String) (filter : Record)
  /-- All records that a filter accepts, in the order of insertion. -/
  | findAll (collection : String) (filter : Record)
  /-- Stores a record, with a fresh identifier if it brings none. -/
  | insertOne (collection : String) (values : Record)
  /-- Overwrites values in the first record that a filter accepts. -/
  | updateOne (collection : String) (filter values : Record)
  /-- Removes the first record that a filter accepts. -/
  | deleteOne (collection : String) (filter : Record)
  deriving Repr, DecidableEq

/-- What a question is answered with when the driver does not fail. -/
def Call.Answer : Call → Type
  | .findOne .. => Option Record
  | .findAll .. => List Record
  | .insertOne .. => Record
  | .updateOne .. => Option Record
  | .deleteOne .. => Bool

/-- The collection that a call is about. -/
def Call.collection : Call → String
  | .findOne c _ | .findAll c _ | .insertOne c _ | .updateOne c _ _ | .deleteOne c _ => c

/-- Whether a call can change what is stored. -/
def Call.writes : Call → Bool
  | .findOne .. | .findAll .. => false
  | .insertOne .. | .updateOne .. | .deleteOne .. => true

/-- Whether a record has, for every name of the filter, the same value. -/
def accepts (filter : Record) (record : Record) : Bool :=
  filter.all fun (k, expected) =>
    match record.get? k with
    | some v => v.same expected
    | none => false

end RecordGate.Storage

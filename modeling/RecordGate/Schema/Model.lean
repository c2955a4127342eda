import RecordGate.Json.Record
import RecordGate.Keyed
import RecordGate.Schema.FieldType
import RecordGate.Schema.Label
import RecordGate.Schema.Operation
import RecordGate.Time.Instant

/-! # Models

  A model declares the fields of one kind of record: their types, the
  operations that each allows, and their defaults. It may name the field that
  holds the owner of a record, and hooks that change the values of a write
  before they are stored.
-/

namespace RecordGate

/-- What a field of a new record holds when the input leaves it out. -/
inductive Default where
  /-- A fixed value. -/
  | literal (value : Json)
  /-- The time of the write. -/
  | now
  /-- A fresh identifier. -/
  | freshId
  /-- A value that code supplies. -/
  | computed (produce : Unit → Json)

/-- A field of a model. -/
structure Field where
  /-- The name, unique in its model. -/
  name : String
  /-- The type. -/
  type : FieldType
  /-- The operations that a client may use on it. -/
  operations : OperationSet
  /-- What it holds when a new record leaves it out. -/
  fallback : Option Default

/-- Whether the field takes part in an operation. -/
def Field.allows (f : Field) (op : Operation) : Bool :=
  f.operations.allows op

/-- Whether answers show the field. -/
def Field.isReadable (f : Field) : Bool :=
  f.allows .read

/-- A change to the values of a write before they are stored. -/
structure Hook where
  /-- The name. -/
  name : String
  /-- The change; it may use the time of the write. -/
  run : Time.Instant → Record → Record

/-- A kind of record. -/
structure Model where
  /-- The name. -/
  name : String
  /-- The labels. -/
  label : Label
  /-- The name of the collection. -/
  collection : String
  /-- The fields in the order of their declaration. -/
  fields : List Field
  /-- The field that holds the owner of a record. -/
  owner : Option String
  /-- The hooks of a create, in order. -/
  createHooks : List Hook
  /-- The hooks of an update, in order. -/
  updateHooks : List Hook

namespace Model

/-- The field of a name. -/
def field? (m : Model) (name : String) : Option Field :=
  m.fields.find? fun f => f.name = name

/-- Whether a name is a field. -/
def declares (m : Model) (name : String) : Bool :=
  (m.field? name).isSome

/-- The root under which permissions find the loaded record. -/
def bindingName (m : Model) : String :=
  m.label.singular

/-- The hooks of an operation; only writes have any. -/
def hooks (m : Model) : Operation → List Hook
  | .create => m.createHooks
  | .update => m.updateHooks
  | .read | .delete => []

/-- The model with one hook more at the end of an operation's list; none for
    an operation that has no hooks. -/
def addHook? (m : Model) (op : Operation) (hook : Hook) : Option Model :=
  match op with
  | .create => some { m with createHooks := m.createHooks ++ [hook] }
  | .update => some { m with updateHooks := m.updateHooks ++ [hook] }
  | .read | .delete => none

/-- The model with another default for a field. -/
def setFallback (m : Model) (name : String) (d : Default) : Model :=
  { m with
    fields := m.fields.map fun f => if f.name = name then { f with fallback := some d } else f }

end Model

end RecordGate

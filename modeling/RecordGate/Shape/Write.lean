import RecordGate.Flow
import RecordGate.Schema.Model
import RecordGate.Shape.Coerce

/-! # Shaping the input of a write

  Only declared fields that allow the operation get through; everything else
  that a client sends is dropped without notice. A create then fills in the
  defaults: those of fields that the input left out, and those of fields that
  a client may not set at all. Last come the hooks, and what they add beside
  the declared fields is dropped again.
-/

namespace RecordGate

/-- The value of a default. -/
def Default.produce : Default → Flow Json
  | .literal value => pure value
  | .now => do
    let now ← Flow.readClock
    pure (.str now.stored)
  | .freshId => do
    let id ← Flow.freshId
    pure (.str id.toHex)
  | .computed produce => pure (produce ())

namespace Shape

/-- What a field contributes to the input of an operation, if anything. -/
def inputValue (op : Operation) (raw : Record) (f : Field) : Flow (Option Json) :=
  if f.allows op then
    match raw.get? f.name with
    | some value => do
      let value ← Flow.ofExcept (coerce f.name f.type value)
      pure (some value)
    | none =>
      match op, f.fallback with
      | .create, some d => do
        let value ← d.produce
        pure (some value)
      | _, _ => pure none
  else pure none

/-- Takes the fields in order into a record. -/
def inputFields (op : Operation) (raw : Record) : List Field → Record → Flow Record
  | [], values => pure values
  | f :: fields, values => do
    match ← inputValue op raw f with
    | some value => inputFields op raw fields (values.insert f.name value)
    | none => inputFields op raw fields values

/-- The input of an operation, coerced and with the defaults of a create. -/
def input (m : Model) (op : Operation) (raw : Record) : Flow Record :=
  inputFields op raw m.fields []

/-- The defaults of the fields that a client may not set on a create. -/
def serverDefaults : List Field → Record → Flow Record
  | [], values => pure values
  | f :: fields, values =>
    if f.allows .create then serverDefaults fields values
    else
      match f.fallback with
      | some d => do
        let value ← d.produce
        serverDefaults fields (values.insert f.name value)
      | none => serverDefaults fields values

/-- Runs hooks one after the other, each at its own reading of the clock. -/
def runHooks : List Hook → Record → Flow Record
  | [], values => pure values
  | hook :: hooks, values => do
    let now ← Flow.readClock
    runHooks hooks (hook.run now values)

/-- Runs the hooks of an operation; fields that are not declared do not
    survive them. -/
def applyHooks (m : Model) (op : Operation) (values : Record) : Flow Record :=
  match m.hooks op with
  | [] => pure values
  | hooks => do
    let values ← runHooks hooks values
    pure (values.keep m.declares)

/-- The values that a write stores. -/
def prepare (m : Model) (op : Operation) (raw : Record) : Flow Record := do
  let values ← input m op raw
  let values ← if op = .create then serverDefaults m.fields values else pure values
  applyHooks m op values

/-- The record in a request body: none counts as an empty one. -/
def ofBody : Option Json → Except Error Record
  | none | some .null => .ok []
  | some (.obj r) => .ok r
  | some _ => .error (.invalidBody "request body must be a JSON object")

/-! ### Output -/

/-- Takes the readable fields that are there into a record. -/
def outputFields (stored : Record) : List Field → Record → Record
  | [], out => out
  | f :: fields, out =>
    if f.isReadable then
      match stored.get? f.name with
      | some value => outputFields stored fields (out.insert f.name value)
      | none => outputFields stored fields out
    else outputFields stored fields out

/-- What an answer shows of a stored record. -/
def output (m : Model) (stored : Record) : Record :=
  outputFields stored m.fields []

end Shape

end RecordGate

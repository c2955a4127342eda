import RecordGate.Engine.Request
import RecordGate.Flow
import RecordGate.Permission.Context
import RecordGate.Permission.Route

/-! # Binding the context

  Before a permission is evaluated, the caller's claims and the record that
  the path names are bound. The record is found by one lookup. On a model with
  an owner field only the caller's own records are found, so a record of
  somebody else looks like one that does not exist.
-/

namespace RecordGate.Engine

/-- The context of a request and the record that was loaded for it. -/
structure Bound where
  /-- The values under the roots. -/
  context : Context
  /-- The loaded record, if the rule loads one. -/
  resource : Option Record
  deriving Repr

/-- The context with nothing but the caller. -/
def callerContext : Caller → Context
  | .authenticated claims => Context.empty.bind callerRoot claims.toJson
  | _ => Context.empty

/-- The record of a model was not found. -/
def missing (m : Model) : Error := .notFound m.bindingName

/-- The caller's identifier in the stored form of the owner field; none if
    there is no owner field, no caller, or no fitting identifier. -/
def ownerValue? (m : Model) (c : Context) : Option Json := do
  let owner ← m.owner
  let field ← m.field? owner
  let id ← c.callerId?
  match Shape.coerce field.name field.type id with
  | .ok .null => none
  | .ok value => some value
  | .error _ => none

/-- The value of the path parameter in the stored form of its field. -/
def keyValue? (m : Model) (b : Binding) (params : Keyed String) : Option Json := do
  let raw ← params.get? b.param
  let field ← m.field? b.field
  (Shape.coerce field.name field.type (.str raw)).toOption

/-- The filter that finds the record of a request: the bound field, and the
    owner field if there is one. -/
def lookupFilter? (m : Model) (b : Binding) (c : Context) (params : Keyed String) :
    Option Record := do
  let key ← keyValue? m b params
  let filter := Record.insert [] b.field key
  match m.owner with
  | none => some filter
  | some owner =>
    let id ← ownerValue? m c
    some (filter.insert owner id)

/-- Binds the caller and, where the rule says so, the record. -/
def bindContext (m : Model) (rule : Rule) (req : Request) : Flow Bound :=
  let context := callerContext req.caller
  match rule.binding with
  | none => pure ⟨context, none⟩
  | some b =>
    match lookupFilter? m b context req.params with
    | none => Flow.fail (missing m)
    | some filter => do
      match ← Flow.ask (.findOne m.collection filter) with
      | none => Flow.fail (missing m)
      | some (record : Record) =>
        pure ⟨context.bind m.bindingName (.obj record), some record⟩

end RecordGate.Engine

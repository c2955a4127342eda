import RecordGate.Json.Record
import RecordGate.Keyed

/-! # Declarations

  What a configuration document says, before any rule is checked: models with
  their fields, and routes with their rules. Most places have a short and a
  long notation.
-/

namespace RecordGate

/-- How a label is written. -/
inductive LabelDecl where
  /-- The singular label alone. -/
  | one (singular : String)
  /-- The singular label and perhaps the plural one. -/
  | both (singular : String) (plural : Option String)
  deriving Repr, DecidableEq

/-- How a field is written. -/
inductive FieldDecl where
  /-- A list: type, operations and perhaps a default. -/
  | short (items : List Json)
  /-- A map with the same three entries by name. -/
  | long (type operations : String) (fallback : Option Json)
  deriving Repr, DecidableEq

/-- How a model is written. -/
structure ModelDecl where
  /-- The label, if it is not to follow from the model's name. -/
  label : Option LabelDecl
  /-- The collection, if it is not to be the plural label. -/
  storage : Option String
  /-- The field that holds the owner. -/
  owner : Option String
  /-- The fields. -/
  fields : Keyed FieldDecl
  /-- The names of the hooks of a create. -/
  createHooks : List String
  /-- The names of the hooks of an update. -/
  updateHooks : List String
  deriving Repr, DecidableEq

/-- How the loading of a record is written. -/
inductive WhereDecl where
  /-- One name for the path parameter and the field. -/
  | field (name : String)
  /-- Two names. -/
  | both (param field : String)
  deriving Repr, DecidableEq

/-- How a rule is written. -/
inductive RuleDecl where
  /-- The permission alone. -/
  | permission (source : String)
  /-- The permission and perhaps how the record is loaded. -/
  | full (allow : String) (binding : Option WhereDecl)
  deriving Repr, DecidableEq

/-- How a route is written. -/
structure RouteDecl where
  /-- The path. -/
  path : String
  /-- The name of the model. -/
  model : String
  /-- The rules by action code. -/
  rules : Keyed RuleDecl
  deriving Repr, DecidableEq

/-- A whole configuration document. -/
structure ApiDecl where
  /-- The models by name. -/
  models : Keyed ModelDecl
  /-- The routes. -/
  routes : List RouteDecl
  deriving Repr, DecidableEq

end RecordGate

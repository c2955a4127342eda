import RecordGate.Schema.Register

/-! # The catalog of models

  Models are added one by one and then looked up by name or by singular
  label. Both are unique. Code can add hooks and defaults to a model before
  the catalog is used.
-/

namespace RecordGate

/-- The models in the order in which they were added. -/
structure Catalog where
  /-- The models. -/
  models : List Model

namespace Catalog

/-- No model. -/
def empty : Catalog := ⟨[]⟩

/-- The model of a name. -/
def get? (c : Catalog) (name : String) : Option Model :=
  c.models.find? fun m => m.name = name

/-- The names of the models by singular label. -/
def labels (c : Catalog) : Keyed String :=
  Keyed.ofList (c.models.map fun m => (m.label.singular, m.name))

/-- The model of a singular label. -/
def byLabel? (c : Catalog) (label : String) : Option Model :=
  (c.labels.get? label).bind c.get?

/-- Replaces the model of a name. -/
def replace (c : Catalog) (name : String) (m : Model) : Catalog :=
  ⟨c.models.map fun old => if old.name = name then m else old⟩

/-- Adds a model whose name and label are new. -/
def add (c : Catalog) (m : Model) : Except Error Catalog :=
  match c.get? m.name with
  | some _ => .error (SchemaFault.duplicateModel m.name).error
  | none =>
    match c.models.find? fun old => old.label.singular = m.label.singular with
    | some other => .error (SchemaFault.sharedLabel other.name m.name m.label.singular).error
    | none => .ok ⟨c.models ++ [m]⟩

/-- Registers a declared model and adds it. -/
def declare (c : Catalog) (name : String) (decl : ModelDecl) : Except Error Catalog := do
  let m ← Schema.register name decl
  c.add m

/-- Adds a hook after the hooks that a model has for an operation. -/
def addHook (c : Catalog) (model : String) (op : Operation) (hook : Hook) :
    Except Error Catalog :=
  match c.get? model with
  | none => .error (SchemaFault.unknownModel model).error
  | some m =>
    match m.addHook? op hook with
    | some m => .ok (c.replace model m)
    | none => .error (SchemaFault.hookOperation model hook.name op).error

/-- Gives a field a default that code supplies. -/
def setDefault (c : Catalog) (model field : String) (produce : Unit → Json) :
    Except Error Catalog :=
  if field = idField then .error (SchemaFault.identifierAssigned model).error
  else
    match c.get? model with
    | none => .error (SchemaFault.unknownModel model).error
    | some m =>
      if m.declares field then .ok (c.replace model (m.setFallback field (.computed produce)))
      else .error (SchemaFault.unknownField model field).error

/-- Declares models in order. -/
def declareAll (c : Catalog) : Keyed ModelDecl → Except Error Catalog
  | [] => .ok c
  | (name, decl) :: rest => do
    let c ← c.declare name decl
    c.declareAll rest

end Catalog

end RecordGate

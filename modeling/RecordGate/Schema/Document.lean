import RecordGate.Error
import RecordGate.Schema.Declaration
import RecordGate.Yaml.Shape

/-! # Configuration documents

  Reads declarations from YAML. The model map and the rules of a route keep
  the order in which they are written. Labels, fields, rules and the loading
  of a record have a short and a long notation, and the value tells which.
-/

namespace RecordGate

open Yaml

/-! ### Places with two notations -/

/-- A label: its singular, or both names. -/
def LabelDecl.ofValue? : Value → Option LabelDecl
  | .str s => some (.one s)
  | v => do
    match ← v.long? ["singular", "plural"] with
    | [some singular, plural] =>
      let plural ← (plural.getD .null).optional? Value.text?
      some (.both (← singular.text?) plural)
    | _ => none

/-- A field: a list, or a map with `type`, `ops` and `default`. -/
def FieldDecl.ofValue? : Value → Option FieldDecl
  | .seq items => (Value.itemsToJson? items).map FieldDecl.short
  | v => do
    match ← v.long? ["type", "ops", "default"] with
    | [some type, operations, fallback] =>
      let operations ← (operations.getD (.str "")).text?
      let fallback ← (fallback.getD .null).optional? Value.toJson?
      some (.long (← type.text?) operations fallback)
    | _ => none

/-- How a record is loaded: one name for both, or two. -/
def WhereDecl.ofValue? : Value → Option WhereDecl
  | .str s => some (.field s)
  | v => do
    match ← v.long? ["param", "field"] with
    | [some param, some name] => some (.both (← param.text?) (← name.text?))
    | _ => none

/-- A rule: a permission, or a map with `allow` and `where`. -/
def RuleDecl.ofValue? : Value → Option RuleDecl
  | .str s => some (.permission s)
  | v => do
    match ← v.long? ["allow", "where"] with
    | [some allow, binding] =>
      let binding ← (binding.getD .null).optional? WhereDecl.ofValue?
      some (.full (← allow.text?) binding)
    | _ => none

/-! ### Records -/

/-- What a reader makes of an entry, or a default if it is missing. -/
def entryOr {α : Type} (fallback : α) (read : Node → Option α) : Option Node → Option α
  | none => some fallback
  | some n => read n

/-- The names of the hooks of a create and of an update. -/
def hooksOf? (n : Node) : Option (List String × List String) := do
  match ← n.record? ["create", "update"] with
  | [create, update] =>
    let names := entryOr [] (Node.list? Node.text?)
    some (← names create, ← names update)
  | _ => none

/-- A model. -/
def ModelDecl.ofNode? (n : Node) : Option ModelDecl := do
  match ← n.record? ["label", "storage", "owner", "fields", "hooks"] with
  | [label, storage, owner, some fields, hooks] =>
    let label ← entryOr none (Node.optional? fun n => n.value?.bind LabelDecl.ofValue?) label
    let storage ← entryOr none (Node.optional? Node.text?) storage
    let owner ← entryOr none (Node.optional? Node.text?) owner
    let fields ← fields.keyed? fun n => n.value?.bind FieldDecl.ofValue?
    let (createHooks, updateHooks) ← entryOr ([], []) hooksOf? hooks
    some { label, storage, owner, fields, createHooks, updateHooks }
  | _ => none

/-- A route. -/
def RouteDecl.ofNode? (n : Node) : Option RouteDecl := do
  match ← n.record? ["path", "model", "rules"] with
  | [some path, some model, rules] =>
    let rules ← entryOr [] (Node.keyed? fun n => n.value?.bind RuleDecl.ofValue?) rules
    some ⟨← path.text?, ← model.text?, rules⟩
  | _ => none

/-- A whole configuration. -/
def ApiDecl.ofNode? (n : Node) : Option ApiDecl := do
  match ← n.record? ["models", "routes"] with
  | [models, routes] =>
    let models ← entryOr [] (Node.keyed? ModelDecl.ofNode?) models
    let routes ← entryOr [] (Node.list? RouteDecl.ofNode?) routes
    some ⟨models, routes⟩
  | _ => none

/-! ### Texts -/

/-- What a reader makes of the document that a text writes. -/
def readDocument {α : Type} (read : Node → Option α) (text : String) : Except Error α :=
  match (Node.ofText? text).bind read with
  | some a => .ok a
  | none => .error (.yaml "the document has not the expected form")

/-- The configuration that a text writes. -/
def ApiDecl.ofText (text : String) : Except Error ApiDecl :=
  readDocument ApiDecl.ofNode? text

/-- The models that a text writes. -/
def ModelDecl.mapOfText (text : String) : Except Error (Keyed ModelDecl) :=
  readDocument (Node.keyed? ModelDecl.ofNode?) text

end RecordGate

import RecordGate.Schema.Declaration
import RecordGate.Schema.Fault
import RecordGate.Shape.Coerce
import RecordGate.Text.Ident

/-! # Registering models

  A declared model becomes a `Model` once it keeps all rules: names are
  identifiers, types and operations exist, defaults fit their fields, the
  identifier field is readable and never written by clients, and the owner is
  a declared field of a fitting type.
-/

namespace RecordGate.Schema

/-- The entries of a declared field: type, operations and default. -/
def fieldEntries (model field : String) : FieldDecl → Except Error (String × String × Option Json)
  | .long type operations fallback => .ok (type, operations, fallback)
  | .short [.str type, .str operations] => .ok (type, operations, none)
  | .short [.str type, .str operations, fallback] => .ok (type, operations, some fallback)
  | .short _ => .error (SchemaFault.malformedField model field).error

/-- The generator of a name. -/
def generator? : String → Option Default
  | "$now" => some .now
  | "$objectId" | "$object_id" => some .freshId
  | _ => none

/-- Whether a generator makes values for fields of a type. -/
def generates : Default → FieldType → Bool
  | .now, type => type = .date || type = .string
  | .freshId, type => type = .objectId || type = .string
  | _, _ => true

/-- A default that names a generator. -/
def generatorDefault (model field : String) (type : FieldType) (name : String) :
    Except Error Default :=
  match generator? name with
  | none => .error (SchemaFault.unknownGenerator model field name).error
  | some d =>
    if generates d type then .ok d
    else .error (SchemaFault.unfitGenerator model field name type).error

/-- A default that is a fixed value, coerced once and for all. -/
def literalDefault (model field : String) (type : FieldType) (value : Json) :
    Except Error Default :=
  match Shape.coerce field type value with
  | .ok value => .ok (.literal value)
  | .error cause => .error (SchemaFault.badDefault model field cause).error

/-- A declared default: a text that opens with `$` names a generator, unless a
    second `$` makes it a text that opens with one. -/
def default (model field : String) (type : FieldType) (value : Json) : Except Error Default :=
  match value with
  | .str s =>
    match s.toList with
    | '$' :: '$' :: rest => literalDefault model field type (.str (String.ofList ('$' :: rest)))
    | '$' :: _ => generatorDefault model field type s
    | _ => literalDefault model field type value
  | _ => literalDefault model field type value

/-- A declared field. -/
def field (model name : String) (decl : FieldDecl) : Except Error Field := do
  if !Text.isIdent name then throw (SchemaFault.badFieldName model name).error
  let (typeName, letters, fallback) ← fieldEntries model name decl
  let some type := FieldType.ofTag? typeName
    | throw (.invalidFieldType model name typeName)
  let some operations := OperationSet.ofLetters? letters
    | throw (.invalidOperations model name letters)
  match fallback with
  | none => pure ⟨name, type, operations, none⟩
  | some value =>
    let d ← default model name type value
    pure ⟨name, type, operations, some d⟩

/-- The declared fields in order, up to the first that breaks a rule. -/
def fields (model : String) : Keyed FieldDecl → Except Error (List Field)
  | [] => .ok []
  | (name, decl) :: rest => do
    let f ← field model name decl
    let fs ← fields model rest
    pure (f :: fs)

/-- The rules of the identifier field. -/
def checkIdentifier (model : String) (fs : List Field) : Except Error Unit :=
  match fs.find? fun f => f.name = idField with
  | none => .error (SchemaFault.missingIdentifier model).error
  | some f =>
    if f.type ≠ .objectId then .error (SchemaFault.identifierType model).error
    else if f.allows .create || f.allows .update then
      .error (SchemaFault.identifierWritable model).error
    else if !f.allows .read then .error (SchemaFault.identifierHidden model).error
    else if f.fallback.isSome then .error (SchemaFault.identifierDefault model).error
    else .ok ()

/-- The rules of the owner field. -/
def checkOwner (model : String) (fs : List Field) : Option String → Except Error Unit
  | none => .ok ()
  | some owner =>
    match fs.find? fun f => f.name = owner with
    | none => .error (SchemaFault.ownerUndeclared model owner).error
    | some f =>
      if f.type = .objectId || f.type = .string then .ok ()
      else .error (SchemaFault.ownerType model owner).error

/-- The hooks of a list of names. -/
def hooks (model : String) (op : Operation) : List String → Except Error (List Hook)
  | [] => .ok []
  | name :: rest =>
    match Hook.ofName? name op with
    | none => .error (SchemaFault.unknownHook model name).error
    | some hook => (hooks model op rest).map (hook :: ·)

/-- The label of a declared model. -/
def label (name : String) : Option LabelDecl → Label
  | none => Label.ofModelName name
  | some (.one singular) => Label.ofSingular singular
  | some (.both singular none) => Label.ofSingular singular
  | some (.both singular (some plural)) => ⟨Text.lower singular, Text.lower plural⟩

/-- Checks a declared model rule by rule. -/
def register (name : String) (decl : ModelDecl) : Except Error Model := do
  if (Text.trimChars name.toList).isEmpty then throw SchemaFault.emptyModelName.error
  let label := label name decl.label
  if !Text.isIdent label.singular then throw (SchemaFault.badLabel name label.singular).error
  let collection := decl.storage.getD label.plural
  if !Text.isIdent collection then throw (SchemaFault.badCollection name collection).error
  let fs ← fields name decl.fields
  checkIdentifier name fs
  checkOwner name fs decl.owner
  let createHooks ← hooks name .create decl.createHooks
  let updateHooks ← hooks name .update decl.updateHooks
  pure {
    name, label, collection, fields := fs, owner := decl.owner, createHooks, updateHooks }

/-- Registers models in order, up to the first that breaks a rule. -/
def registerAll : Keyed ModelDecl → Except Error (List Model)
  | [] => .ok []
  | (name, decl) :: rest => do
    let m ← register name decl
    let ms ← registerAll rest
    pure (m :: ms)

end RecordGate.Schema

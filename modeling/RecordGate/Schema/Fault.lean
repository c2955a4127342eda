import RecordGate.Error
import RecordGate.ObjectId
import RecordGate.Schema.FieldType
import RecordGate.Schema.Hook
import RecordGate.Schema.Operation

/-! # Faults of a configuration

  Each rule that models, catalogs and routes must keep has one fault here,
  with its wording in `SchemaFault.message`.
-/

namespace RecordGate

/-- A rule of the configuration that is broken. -/
inductive SchemaFault where
  | emptyModelName
  | badLabel (model label : String)
  | badCollection (model collection : String)
  | badFieldName (model field : String)
  | malformedField (model field : String)
  | badDefault (model field : String) (cause : Error)
  | unknownGenerator (model field generator : String)
  | unfitGenerator (model field generator : String) (type : FieldType)
  | missingIdentifier (model : String)
  | identifierType (model : String)
  | identifierWritable (model : String)
  | identifierHidden (model : String)
  | identifierDefault (model : String)
  | ownerUndeclared (model field : String)
  | ownerType (model field : String)
  | unknownHook (model hook : String)
  | duplicateModel (model : String)
  | sharedLabel (first second label : String)
  | hookOperation (model hook : String) (operation : Operation)
  | identifierAssigned (model : String)
  | unknownModel (model : String)
  | unknownField (model field : String)
  | badPath (path reason : String)
  | routeModel (path model : String)
  | callerLabel (model : String)
  | unknownAction (path code : String)
  | whereUnused (path : String) (action : Action)
  | badParameter (path parameter : String)
  | whereField (path field model : String)
  | parameterClash (path : String) (action : Action) (parameter other : String)
  | duplicatePath (path : String)
  deriving Repr, DecidableEq

/-- The wording of a fault. -/
def SchemaFault.message : SchemaFault → String
  | emptyModelName => "model name must not be empty"
  | badLabel model label => s!"model '{model}' label '{label}' must be an identifier"
  | badCollection model collection =>
    s!"model '{model}' storage name '{collection}' must be an identifier"
  | badFieldName model field => s!"model '{model}' field '{field}' must be an identifier"
  | malformedField model field =>
    s!"{model}.{field}: expected [Type, \"ops\"] or [Type, \"ops\", default]"
  | badDefault model field cause => s!"{model}.{field}: invalid default value: {cause.message}"
  | unknownGenerator model field generator =>
    s!"{model}.{field}: unknown default generator '{generator}'"
  | unfitGenerator model field generator type =>
    s!"{model}.{field}: generator '{generator}' does not produce {type.tag}"
  | missingIdentifier model => s!"model '{model}' must declare identifier field '{idField}'"
  | identifierType model => s!"model '{model}' identifier '{idField}' must be ObjectId"
  | identifierWritable model =>
    s!"model '{model}' identifier '{idField}' is assigned by storage and cannot accept " ++
      "create/update input"
  | identifierHidden model => s!"model '{model}' identifier '{idField}' must be readable"
  | identifierDefault model => s!"model '{model}' identifier '{idField}' cannot have a default"
  | ownerUndeclared model field => s!"model '{model}' owner field '{field}' is not declared"
  | ownerType model field => s!"model '{model}' owner field '{field}' must be ObjectId or String"
  | unknownHook model hook =>
    s!"model '{model}': unknown hook '{hook}' (available: " ++
      ", ".intercalate Hook.available ++ ")"
  | duplicateModel model => s!"duplicate model '{model}'"
  | sharedLabel first second label => s!"models '{first}' and '{second}' share label '{label}'"
  | hookOperation model hook operation =>
    s!"model '{model}': hook '{hook}' must target create or update, not {operation.name}"
  | identifierAssigned model => s!"model '{model}': identifier '{idField}' is assigned by storage"
  | unknownModel model => s!"unknown model '{model}'"
  | unknownField model field => s!"model '{model}' has no field '{field}'"
  | badPath path reason => s!"route path '{path}' {reason}"
  | routeModel path model => s!"route '{path}' references unknown model '{model}'"
  | callerLabel model => s!"model '{model}' label 'req_user' collides with the principal binding"
  | unknownAction path code =>
    s!"route '{path}': unknown operation code '{code}' (expected c, r, rA, u, d)"
  | whereUnused path action =>
    s!"route '{path}': '{action.code}' does not target a single resource and cannot declare " ++
      "'where'"
  | badParameter path parameter =>
    s!"route '{path}': path parameter '{parameter}' must be an identifier"
  | whereField path field model =>
    s!"route '{path}': where field '{field}' is not declared on model '{model}'"
  | parameterClash path action parameter other =>
    s!"route '{path}': '{action.code}' binds path parameter '{parameter}' but another operation " ++
      s!"binds '{other}'"
  | duplicatePath path => s!"duplicate route path '{path}'"

/-- A fault as an error. -/
def SchemaFault.error (fault : SchemaFault) : Error :=
  .schemaValidation fault.message

end RecordGate

/-! # Errors

  Every way in which reading a configuration or answering a request fails.

  - Configuration faults stop the program before it serves.
  - Request faults have an HTTP status, a stable code and a message; what a
    client sees of a fault inside the service is `publicMessage`.
-/

namespace RecordGate

/-- Why something was refused. -/
inductive Error where
  /-- A model or a route that breaks a rule of the configuration. -/
  | schemaValidation (message : String)
  /-- A field type that does not exist. -/
  | invalidFieldType (model field typeName : String)
  /-- A letter that is no operation. -/
  | invalidOperations (model field operations : String)
  /-- A permission expression that cannot be read or bound. -/
  | invalidExpression (expression reason : String)
  /-- An input value that does not fit its field. -/
  | validation (field message : String)
  /-- A request body that is no JSON object. -/
  | invalidBody (message : String)
  /-- A credential was refused where one is needed. -/
  | unauthorized (reason : String)
  /-- The permission of the route does not hold. -/
  | forbidden (reason : String)
  /-- There is no such resource. -/
  | notFound (resource : String)
  /-- The storage failed. -/
  | storage (message : String)
  /-- The token was valid once. -/
  | tokenExpired
  /-- The token cannot be opened. -/
  | invalidToken (reason : String)
  /-- The configuration is no YAML document of the right shape. -/
  | yaml (reason : String)
  /-- A text is no JSON. -/
  | json (reason : String)
  deriving DecidableEq, Repr, Inhabited

namespace Error

/-- Whether the fault lies in the configuration. -/
def isSchema : Error → Bool
  | schemaValidation _ | invalidFieldType .. | invalidOperations .. | invalidExpression ..
  | yaml _ => true
  | _ => false

/-- The HTTP status. -/
def status : Error → Nat
  | validation .. | invalidBody _ | json _ => 400
  | unauthorized _ | tokenExpired | invalidToken _ => 401
  | forbidden _ => 403
  | notFound _ => 404
  | _ => 500

/-- The stable code. -/
def code : Error → String
  | schemaValidation _ => "SCHEMA_VALIDATION_ERROR"
  | invalidFieldType .. => "INVALID_FIELD_TYPE"
  | invalidOperations .. => "INVALID_OPERATIONS"
  | invalidExpression .. => "INVALID_EXPRESSION"
  | validation .. => "VALIDATION_ERROR"
  | invalidBody _ => "INVALID_BODY"
  | unauthorized _ => "UNAUTHORIZED"
  | forbidden _ => "FORBIDDEN"
  | notFound _ => "NOT_FOUND"
  | storage _ => "STORAGE_ERROR"
  | tokenExpired => "TOKEN_EXPIRED"
  | invalidToken _ => "INVALID_TOKEN"
  | yaml _ => "YAML_ERROR"
  | json _ => "JSON_ERROR"

/-- The full wording. -/
def message : Error → String
  | schemaValidation message => s!"schema validation error: {message}"
  | invalidFieldType model field typeName => s!"invalid field type '{typeName}' on {model}.{field}"
  | invalidOperations model field operations =>
    s!"invalid operations '{operations}' on {model}.{field}"
  | invalidExpression expression reason =>
    s!"invalid permission expression '{expression}': {reason}"
  | validation field message => s!"invalid value for field '{field}': {message}"
  | invalidBody message => s!"invalid request body: {message}"
  | unauthorized reason => s!"authentication required: {reason}"
  | forbidden reason => s!"access denied: {reason}"
  | notFound resource => s!"{resource} not found"
  | storage message => s!"storage error: {message}"
  | tokenExpired => "token expired"
  | invalidToken reason => s!"invalid token: {reason}"
  | yaml reason => s!"YAML parse error: {reason}"
  | json reason => s!"JSON error: {reason}"

/-- What a client gets to see: nothing of the inside of the service. -/
def publicMessage : Error → String
  | storage _ => "storage operation failed"
  | e => if 500 ≤ e.status then "internal error" else e.message

end Error

end RecordGate

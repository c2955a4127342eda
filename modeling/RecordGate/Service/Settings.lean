import RecordGate.Keyed
import RecordGate.Service.Failure
import RecordGate.Text.Blank
import RecordGate.Text.Split

/-! # Settings of the service

  The service is set up by five variables of the environment. Each has a
  default; the port and the storage address can be wrong, and then the service
  does not start.
-/

namespace RecordGate

/-- Where records are kept. -/
inductive StorageAddress where
  /-- In the memory of the process. -/
  | memory
  /-- In an SQL database. -/
  | sqlite (url : String)
  deriving Repr, DecidableEq

/-- Reads a storage address; nothing at all means memory. -/
def StorageAddress.parse (raw : String) : Except Failure StorageAddress :=
  let address := Text.trim raw
  if address.isEmpty || address = "memory" then .ok .memory
  else if (Text.dropStart? "sqlite:".toList address.toList).isSome then .ok (.sqlite address)
  else
    .error (.simple
      s!"unsupported MK_STORAGE_URL '{address}' (expected 'memory' or 'sqlite://...')")

/-- How the service runs. -/
structure Settings where
  /-- The port that it listens on. -/
  port : Nat
  /-- The file with the configuration. -/
  modelsPath : String
  /-- Where records are kept. -/
  storage : StorageAddress
  /-- The keys that open sealed tokens. -/
  tokenKeys : List String
  /-- Whether plain tokens are taken although there are keys. -/
  authDisabled : Bool
  deriving Repr, DecidableEq

namespace Settings

/-- The largest port. -/
def maxPort : Nat := 65535

/-- Goes on with the digits of a port. -/
def portDigits (n : Nat) : List Char → Except Failure Nat
  | [] => .ok n
  | c :: cs =>
    if c.isDigit then
      let n := n * 10 + (c.toNat - 48)
      if n ≤ maxPort then portDigits n cs
      else .error (.simple "number too large to fit in target type")
    else .error (.simple "invalid digit found in string")

/-- Reads a port: digits, perhaps after a plus sign. -/
def parsePort (raw : String) : Except Failure Nat :=
  match raw.toList with
  | [] => .error (.simple "cannot parse integer from empty string")
  | ['+'] => .error (.simple "invalid digit found in string")
  | '+' :: digits => portDigits 0 digits
  | digits => portDigits 0 digits

/-- The keys in a list with commas. -/
def parseKeys (raw : String) : List String :=
  ((Text.splitOn ',' raw.toList).map fun piece => String.ofList (Text.trimChars piece)).filter
    fun key => !key.isEmpty

/-- The settings in an environment. -/
def ofEnv (env : Keyed String) : Except Failure Settings := do
  let port ← parsePort ((env.get? "MK_BRIDGE_PORT").getD "3000")
  let storage ← StorageAddress.parse ((env.get? "MK_STORAGE_URL").getD "memory")
  pure {
    port, storage
    modelsPath := (env.get? "MK_MODELS_PATH").getD "config/models.yaml"
    tokenKeys := parseKeys ((env.get? "MK_PASETO_KEYS").getD "")
    authDisabled := env.get? "MK_DISABLE_AUTH" = some "true" }

/-- The keys that tokens are opened with; none in development mode. -/
def activeKeys (s : Settings) : List String :=
  if s.authDisabled then [] else s.tokenKeys

/-- Whether plain tokens are taken. -/
def isDevelopment (s : Settings) : Bool :=
  s.activeKeys.isEmpty

end Settings

end RecordGate

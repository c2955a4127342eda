import RecordGate.Config
import RecordGate.Service.Mount
import RecordGate.Service.Settings
import RecordGate.Storage.Connection

/-! # Starting the service

  The service starts in a fixed order: the settings, the configuration file,
  its checks, the storage, the port. The first that fails is reported, and
  nothing listens before everything else is ready.
-/

namespace RecordGate.Service

/-- What the service finds where it starts. -/
structure Host where
  /-- The contents of a file, or why it cannot be read. -/
  fileText : String → Except String String
  /-- Opens the database at an address, or says why it cannot. -/
  openDatabase : String → Except Error Unit
  /-- Takes a port, or says why it cannot. -/
  listen : Nat → Except String Unit

/-- A started service. -/
structure Started where
  /-- The settings. -/
  settings : Settings
  /-- The configuration. -/
  config : Config
  /-- The storage. -/
  connection : Storage.Connection

/-- The failure behind a summary. -/
def behind {α : Type} (summary : String) : Except String α → Except Failure α
  | .ok a => .ok a
  | .error cause => .error ⟨summary, [cause]⟩

/-- The configuration in a file. -/
def loadConfig (readFailed : String) (fileText : String → Except String String) (path : String) :
    Except Failure Config := do
  let text ← behind s!"{readFailed} {path}" (fileText path)
  behind s!"invalid configuration in {path}" ((Config.ofText text).mapError Error.message)

/-- The storage of a service, with a place for every collection. -/
def connect (host : Host) (address : StorageAddress) (config : Config) :
    Except Failure Storage.Connection :=
  match address with
  | .memory => .ok .memory
  | .sqlite url =>
    match host.openDatabase url with
    | .error e => .error (.simple e.message)
    | .ok () =>
      match Storage.Connection.database (config.catalog.models.map Model.collection) with
      | .error e => .error (.simple e.message)
      | .ok connection => .ok connection

/-- Loads and connects all that a service with these settings needs. -/
def prepare (host : Host) (settings : Settings) : Except Failure Started :=
  match loadConfig "failed to read models file" host.fileText settings.modelsPath with
  | .error f => .error f
  | .ok config =>
    match connect host settings.storage config with
    | .error f => .error f
    | .ok connection => .ok ⟨settings, config, connection⟩

/-- Starts a service in an environment. -/
def start (host : Host) (env : Keyed String) : Except Failure Started :=
  match Settings.ofEnv env with
  | .error f => .error f
  | .ok settings =>
    match prepare host settings with
    | .error f => .error f
    | .ok started =>
      match host.listen settings.port with
      | .error cause => .error (.simple cause)
      | .ok () => .ok started

/-- The endpoints of a service. -/
def Started.endpoints (s : Started) : List Endpoint :=
  Endpoint.generate s.config.routes

/-- The router of a service. -/
def Started.router (s : Started) : Except MountFault (List Mounted) :=
  mount s.endpoints

end RecordGate.Service

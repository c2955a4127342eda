import RecordGate.Engine.Endpoint
import RecordGate.Text.Split

/-! # Mounting endpoints

  The router of the service holds the endpoints by path, those of one path
  together. It writes the parameter of a path in braces.

  - A path takes one endpoint for each method (`MountFault.overlap`).
  - Two paths must not differ in the names of parameters alone, because then
    both fit the same requests (`MountFault.conflict`).
  - One path is taken from the start, the one that the service answers itself.
-/

namespace RecordGate.Service

/-- A segment of a path in the router. -/
def mountSegment : List Char → List Char
  | ':' :: name => '\x7b' :: (name ++ ['\x7d'])
  | text => text

/-- The path of an endpoint in the router. -/
def mountPath (path : String) : String :=
  String.ofList (['/'].intercalate ((Text.splitOn '/' path.toList).map mountSegment))

/-- What a segment of a path in the router fits: itself, or anything. -/
def shapeSegment : List Char → Option (List Char)
  | '\x7b' :: _ => none
  | text => some text

/-- A path in the router without the names of its parameters. -/
def shape (path : String) : List (Option (List Char)) :=
  (Text.splitOn '/' path.toList).map shapeSegment

/-- The endpoints at one path of the router. -/
structure Mounted where
  /-- The path. -/
  path : String
  /-- The endpoints, in the order in which they were added. -/
  endpoints : List Endpoint

/-- Why endpoints cannot be served together. -/
inductive MountFault where
  /-- Two endpoints at a path have the same method. -/
  | overlap (method : Method) (path : String)
  /-- Two paths fit the same requests. -/
  | conflict (path other : String)
  deriving DecidableEq, Repr

/-- Adds an endpoint to those of its path. The paths are in order. -/
def addMounted (e : Endpoint) : List Mounted → Except MountFault (List Mounted)
  | [] => .ok [⟨mountPath e.path, [e]⟩]
  | m :: rest =>
    if m.path = mountPath e.path then
      if m.endpoints.any fun other => other.method = e.method then
        .error (.overlap e.method m.path)
      else .ok (⟨m.path, m.endpoints ++ [e]⟩ :: rest)
    else if mountPath e.path < m.path then .ok (⟨mountPath e.path, [e]⟩ :: m :: rest)
    else do
      let rest ← addMounted e rest
      pure (m :: rest)

/-- Adds endpoints one after the other. -/
def addAllMounted : List Endpoint → List Mounted → Except MountFault (List Mounted)
  | [], ms => .ok ms
  | e :: es, ms => do
    let ms ← addMounted e ms
    addAllMounted es ms

/-- Checks each path against those before it. -/
def checkShapes (seen : List String) : List Mounted → Except MountFault Unit
  | [] => .ok ()
  | m :: rest =>
    match seen.find? fun path => shape path = shape m.path with
    | some other => .error (.conflict m.path other)
    | none => checkShapes (m.path :: seen) rest

/-- The router for a list of endpoints. -/
def mount (endpoints : List Endpoint) : Except MountFault (List Mounted) := do
  let ms ← addAllMounted endpoints []
  checkShapes [Route.healthPath] ms
  pure ms

end RecordGate.Service

import RecordGate.Engine.Bind
import RecordGate.Permission.Evaluate
import RecordGate.Shape.Write

/-! # Handling requests

  Every request goes through the same stages in the same order: the
  credential, the context, the permission, the input, the storage, the output.
  At most one lookup and one write reach the storage.

  - A rejected credential is refused only where the permission mentions the
    caller; elsewhere the request goes on as an anonymous one.
  - The permission is evaluated after the record is loaded and before anything
    is written or shown.
  - What is written is addressed by the identifier of the record that the
    permission was evaluated on.
-/

namespace RecordGate.Engine

/-- The request with a rejected credential forgotten, unless the rule needs
    one. -/
def checkCredential (rule : Rule) (req : Request) : Except Error Request :=
  match req.caller with
  | .rejected reason =>
    if rule.needsCaller then .error (.unauthorized reason)
    else .ok { req with caller := .anonymous }
  | _ => .ok req

/-- Lets through what the permission allows. -/
def authorize (rule : Rule) (c : Context) : Except Error Unit :=
  match rule.permission.evaluate c with
  | .ok () => .ok ()
  | .error denial => .error (.forbidden denial.message)

/-- The loaded record. -/
def loaded : Option Record → Except Error Record
  | some r => .ok r
  | none => .error (.notFound "resource")

/-- The filter that finds a stored record again. -/
def byId (record : Record) : Except Error Record :=
  match record.get? idField with
  | none | some .null => .error (.storage "stored record has no identifier")
  | some id => .ok (Record.insert [] idField id)

/-- The values of a new record with its owner. -/
def stampOwner (m : Model) (c : Context) (values : Record) : Except Error Record :=
  match m.owner with
  | none => .ok values
  | some owner =>
    match ownerValue? m c with
    | some id => .ok (values.insert owner id)
    | none => .error (.forbidden "owned resources require an authenticated principal")

/-- The values of an update without the owner. -/
def dropOwner (m : Model) (values : Record) : Record :=
  match m.owner with
  | none => values
  | some owner => values.erase owner

/-- What a response shows of a record. -/
def shown (m : Model) (record : Record) : Json :=
  .obj (Shape.output m record)

/-- Creates a record. -/
def create (m : Model) (req : Request) (b : Bound) : Flow Response := do
  let raw ← Flow.ofExcept (Shape.ofBody req.body)
  let values ← Shape.prepare m .create raw
  let values ← Flow.ofExcept (stampOwner m b.context values)
  let stored : Record ← Flow.ask (.insertOne m.collection values)
  pure (.created (shown m stored))

/-- Lists the records that the caller may see. -/
def list (m : Model) (b : Bound) : Flow Response :=
  let answer (filter : Record) : Flow Response := do
    let records : List Record ← Flow.ask (.findAll m.collection filter)
    pure (.ok (.arr (records.map (shown m))))
  match m.owner with
  | none => answer []
  | some owner =>
    match ownerValue? m b.context with
    | some id => answer (Record.insert [] owner id)
    | none => pure (.ok (.arr []))

/-- Shows the loaded record. -/
def read (m : Model) (b : Bound) : Flow Response := do
  let record ← Flow.ofExcept (loaded b.resource)
  pure (.ok (shown m record))

/-- Updates the loaded record. -/
def update (m : Model) (req : Request) (b : Bound) : Flow Response := do
  let record ← Flow.ofExcept (loaded b.resource)
  let raw ← Flow.ofExcept (Shape.ofBody req.body)
  let values ← Shape.prepare m .update raw
  let filter ← Flow.ofExcept (byId record)
  match ← Flow.ask (.updateOne m.collection filter (dropOwner m values)) with
  | none => Flow.fail (missing m)
  | some (updated : Record) => pure (.ok (shown m updated))

/-- Deletes the loaded record. -/
def delete (m : Model) (b : Bound) : Flow Response := do
  let record ← Flow.ofExcept (loaded b.resource)
  let filter ← Flow.ofExcept (byId record)
  let deleted : Bool ← Flow.ask (.deleteOne m.collection filter)
  if deleted then pure .noContent else Flow.fail (missing m)

/-- What an action does once it is allowed. -/
def perform (m : Model) (action : Action) (req : Request) (b : Bound) : Flow Response :=
  match action with
  | .create => create m req b
  | .list => list m b
  | .read => read m b
  | .update => update m req b
  | .delete => delete m b

/-- Handles a request under a rule. -/
def handleRule (m : Model) (action : Action) (rule : Rule) (req : Request) : Flow Response := do
  let req ← Flow.ofExcept (checkCredential rule req)
  let b ← bindContext m rule req
  Flow.ofExcept (authorize rule b.context)
  perform m action req b

/-- Handles a request to an action of a route. -/
def execute (route : Route) (action : Action) (req : Request) : Flow Response :=
  match route.rule? action with
  | none => Flow.fail (.notFound s!"{action.code} {route.path}")
  | some rule => handleRule route.model action rule req

/-- Handles a request and turns an error into its response. -/
def handle {σ : Type} (driver : Storage.Driver σ) (route : Route) (action : Action)
    (req : Request) (w : World σ) : Response × World σ :=
  let (result, w) := (execute route action req).run driver w
  (Response.ofResult result, w)

end RecordGate.Engine

import RecordGate.Engine.Handle
import RecordGate.Service.Router

/-! # The service over HTTP

  What the service answers to an HTTP request, apart from the transport.

  - A path that no endpoint has is answered with 404, and so is a method that
    no endpoint at the path has. Only the health path answers other methods
    with 405.
  - A credential is looked at for every request; what a rejected one means is
    left to the rule of the endpoint.
  - A body is read only for the actions that take one, before anything else is
    done for the request.
  - Errors carry the identifier of the request.
  - `OPTIONS` is answered for every path, and `HEAD` like `GET` without a body.
-/

namespace RecordGate.Service

/-- A request as it arrives. -/
structure HttpRequest where
  /-- The method. -/
  method : String
  /-- The path and perhaps a query. -/
  uri : String
  /-- The headers, as often as they are sent. -/
  headers : List (String × String)
  /-- The bytes of the body. -/
  body : List UInt8
  /-- The identifier that the service gives to the request. -/
  requestId : String
  deriving Repr

/-- The body of a response. -/
inductive Content where
  /-- A JSON value. -/
  | json (v : Json)
  /-- A plain text, perhaps an empty one. -/
  | text (s : String)
  deriving Repr, DecidableEq

/-- A response as it is sent. -/
structure HttpResponse where
  /-- The status. -/
  status : Nat
  /-- The body. -/
  content : Content
  /-- The identifier of the request, sent as a header. -/
  requestId : String
  deriving Repr, DecidableEq

/-- How tokens are opened. -/
structure Gate where
  /-- Opens sealed tokens. -/
  opener : Auth.Opener
  /-- The keys; without any, plain tokens are taken. -/
  keys : List String

/-! ### Responses -/

namespace HttpResponse

/-- An error with the identifier of its request. -/
def ofError (requestId : String) (status : Nat) (code message : String) : HttpResponse where
  status := status
  content := .json (.obj [("error", .obj
    [("code", .str code), ("message", .str message), ("requestId", .str requestId)])])
  requestId := requestId

/-- No endpoint is there. -/
def noRoute (requestId : String) : HttpResponse :=
  ofError requestId 404 "NOT_FOUND" "route not found"

/-- A response that reports an error of a status and a code. -/
def IsError (r : HttpResponse) (status : Nat) (code : String) : Prop :=
  r.status = status ∧ ∃ message, r.content = .json (.obj [("error", .obj
    [("code", .str code), ("message", .str message), ("requestId", .str r.requestId)])])

theorem ofError_isError (requestId : String) (status : Nat) (code message : String) :
    (ofError requestId status code message).IsError status code :=
  ⟨rfl, message, rfl⟩

/-- Where no endpoint is, the answer is 404. -/
theorem noRoute_isError (requestId : String) : (noRoute requestId).IsError 404 "NOT_FOUND" :=
  ofError_isError requestId 404 "NOT_FOUND" "route not found"

/-- The answer to a request that the engine handled. -/
def ofResult (requestId : String) : Except Error Response → HttpResponse
  | .ok r => ⟨r.status, (r.body.map Content.json).getD (.text ""), requestId⟩
  | .error e => ofError requestId e.status e.code e.publicMessage

/-- The same answer without its body. -/
def withoutBody (r : HttpResponse) : HttpResponse :=
  { r with content := .text "" }

end HttpResponse

/-! ### Requests -/

/-- A visible character of ASCII, a space or a tab. -/
def isHeaderChar (c : Char) : Bool :=
  (0x20 ≤ c.toNat && c.toNat < 0x7F) || c = '\t'

/-- The first authorization header. -/
def authorization? (req : HttpRequest) : Option String :=
  (req.headers.find? fun (name, _) =>
    String.ofList (name.toList.map Char.toLower) = "authorization").map Prod.snd

/-- Who sends a request. -/
def callerOf (gate : Gate) (now : Time.Instant) (req : HttpRequest) : Caller :=
  match authorization? req with
  | some header =>
    if header.toList.all isHeaderChar then
      Auth.authenticate gate.opener now gate.keys (some header)
    else .rejected "authorization header is not valid ASCII"
  | none => .anonymous

/-- The body that an action takes. -/
def bodyOf (action : Action) (req : HttpRequest) : Except Error (Option Json) :=
  if action.takesBody then Request.parseBody req.body else .ok none

/-- Answers a request to an endpoint. -/
def dispatch (gate : Gate) (e : Endpoint) (params : Keyed String) (req : HttpRequest) :
    Flow Response := do
  let now ← Flow.readClock
  let body ← Flow.ofExcept (bodyOf e.action req)
  Engine.execute e.route e.action ⟨params, body, callerOf gate now req⟩

/-- Answers a request that asks for a method at a path. -/
def answerAt {σ : Type} (driver : Storage.Driver σ) (gate : Gate) (endpoints : List Endpoint)
    (method : String) (req : HttpRequest) (w : World σ) : HttpResponse × World σ :=
  let path := pathOf req.uri
  if path = Route.healthPath.toList then
    if method = "GET" then (⟨200, .json (.obj [("ok", .bool true)]), req.requestId⟩, w)
    else (⟨405, .text "", req.requestId⟩, w)
  else
    match (endpointsAt endpoints path).find? fun (e, _) => e.method.name = method with
    | none => (.noRoute req.requestId, w)
    | some (e, params) =>
      match if e.action.targetsOne then paramValues params else .ok [] with
      | .error name =>
        (⟨400, .text s!"Invalid URL: Invalid UTF-8 in `{name}`", req.requestId⟩, w)
      | .ok params =>
        let (result, w) := (dispatch gate e params req).run driver w
        (.ofResult req.requestId result, w)

/-- Answers a request. -/
def answer {σ : Type} (driver : Storage.Driver σ) (gate : Gate) (endpoints : List Endpoint)
    (req : HttpRequest) (w : World σ) : HttpResponse × World σ :=
  if req.method = "OPTIONS" then (⟨200, .text "", req.requestId⟩, w)
  else if req.method = "HEAD" then
    let (r, w) := answerAt driver gate endpoints "GET" req w
    (r.withoutBody, w)
  else answerAt driver gate endpoints req.method req w

end RecordGate.Service

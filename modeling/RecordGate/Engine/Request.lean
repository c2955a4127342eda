import RecordGate.Auth.Validator
import RecordGate.Json.Reader
import RecordGate.Keyed

/-! # Requests and responses

  What the engine is asked and what it answers, free of any transport.
-/

namespace RecordGate

/-- A request to an endpoint. -/
structure Request where
  /-- The path parameters by name. -/
  params : Keyed String
  /-- The body, if there is one. -/
  body : Option Json
  /-- Who sends it. -/
  caller : Caller
  deriving Repr, DecidableEq

/-- A response. -/
structure Response where
  /-- The HTTP status. -/
  status : Nat
  /-- The body, if there is one. -/
  body : Option Json
  deriving Repr, DecidableEq

namespace Response

/-- Success with a body. -/
def ok (body : Json) : Response := ⟨200, some body⟩

/-- A record was created. -/
def created (body : Json) : Response := ⟨201, some body⟩

/-- Success with nothing to show. -/
def noContent : Response := ⟨204, none⟩

/-- The body of an error. -/
def errorBody (e : Error) : Json :=
  .obj [("error", .obj [("code", .str e.code), ("message", .str e.publicMessage)])]

/-- An error, without the details that stay inside the service. -/
def ofError (e : Error) : Response := ⟨e.status, some (errorBody e)⟩

/-- The response at the end of a flow. -/
def ofResult : Except Error Response → Response
  | .ok r => r
  | .error e => ofError e

end Response

namespace Request

/-- A byte that counts as blank in a body. -/
def isBlankByte (b : UInt8) : Bool :=
  b = 0x20 || b = 0x09 || b = 0x0A || b = 0x0C || b = 0x0D

/-- The body in the bytes of a request: blanks alone are none. -/
def parseBody (bs : List UInt8) : Except Error (Option Json) :=
  if bs.all isBlankByte then .ok none
  else
    match Json.ofBytes? bs with
    | some v => .ok (some v)
    | none => .error (.invalidBody "malformed JSON")

end Request

end RecordGate

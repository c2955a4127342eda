import RecordGate.Engine.Endpoint
import RecordGate.Text.Utf8

/-! # Finding endpoints

  A request path is cut at its slashes and held against the paths of the
  endpoints, segment by segment. A parameter stands for any segment that is
  not empty; a path without parameters wins over one with a parameter.

  - The query is no part of the path.
  - The value of a parameter is its segment with percent escapes undone; what
    is no escape stays as it is.
-/

namespace RecordGate.Service

/-- A segment of the path of an endpoint. -/
inductive Segment where
  /-- The segment itself. -/
  | fixed (text : List Char)
  /-- Any segment. -/
  | param (name : String)
  deriving Repr, DecidableEq

/-- The segments of the path of an endpoint. -/
def segments (path : String) : List Segment :=
  (Text.splitOn '/' path.toList).map fun
    | ':' :: name => .param (String.ofList name)
    | text => .fixed text

/-- The path of a request without query and fragment. -/
def pathOf (uri : String) : List Char :=
  uri.toList.takeWhile fun c => c != '?' && c != '#'

/-! ### Percent escapes -/

/-- The value of two hexadecimal digits. -/
def escaped? (a b : UInt8) : Option UInt8 := do
  let a ← Hex.value? a
  let b ← Hex.value? b
  some (a * 16 + b)

/-- Undoes percent escapes. -/
def unescape : List UInt8 → List UInt8
  | 0x25 :: a :: b :: rest =>
    match escaped? a b with
    | some byte => byte :: unescape rest
    | none => 0x25 :: unescape (a :: b :: rest)
  | byte :: rest => byte :: unescape rest
  | [] => []

/-- The value of a parameter; none if its bytes are no text. -/
def paramValue? (segment : List Char) : Option String :=
  Text.ofBytes? (unescape (Text.bytes (String.ofList segment)))

/-! ### Matching -/

/-- The parameters of a path that fits, with their segments. -/
def matchPath : List Segment → List (List Char) → Option (Keyed (List Char))
  | [], [] => some []
  | .fixed text :: more, segment :: rest =>
    if text = segment then matchPath more rest else none
  | .param name :: more, segment :: rest =>
    if segment.isEmpty then none
    else (matchPath more rest).map fun params => params.put name segment
  | _, _ => none

/-- The endpoints at a request path, with the parameters of the path. -/
def endpointsAt (endpoints : List Endpoint) (path : List Char) :
    List (Endpoint × Keyed (List Char)) :=
  let pieces := Text.splitOn '/' path
  let hits := endpoints.filterMap fun e =>
    (matchPath (segments e.path) pieces).map fun params => (e, params)
  let exact := hits.filter fun (_, params) => params.isEmpty
  if exact.isEmpty then hits else exact

/-- The values of parameters, or the name of the first that is no text. -/
def paramValues : Keyed (List Char) → Except String (Keyed String)
  | [] => .ok []
  | (name, segment) :: rest => do
    let some value := paramValue? segment | throw name
    let values ← paramValues rest
    pure ((name, value) :: values)

end RecordGate.Service

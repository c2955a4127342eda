import RecordGate.Json.Record
import RecordGate.ObjectId
import RecordGate.Permission.Expr

/-! # The request context

  What the roots of a permission stand for during one request: the caller's
  claims under `req_user`, and the loaded record under the label of its model.
-/

namespace RecordGate

/-- The values under the roots. -/
structure Context where
  /-- The bindings; a later one takes the place of an earlier one. -/
  bindings : Record
  deriving Repr, Inhabited

namespace Context

/-- No root is bound. -/
def empty : Context := ⟨[]⟩

/-- The value under a root. -/
def get? (c : Context) (root : String) : Option Json :=
  c.bindings.get? root

/-- Binds a root. -/
def bind (c : Context) (root : String) (value : Json) : Context :=
  ⟨c.bindings.insert root value⟩

/-- A root that was bound has its value, and no other root is touched. -/
theorem get?_bind (c : Context) (root other : String) (v : Json) :
    (c.bind root v).get? other = if root = other then some v else c.get? other :=
  Record.get?_insert c.bindings root other v

/-- Whether there is a caller. -/
def hasCaller (c : Context) : Bool :=
  c.bindings.contains callerRoot

/-- The identifier of the caller, unless it is `null`. -/
def callerId? (c : Context) : Option Json :=
  match c.get? callerRoot with
  | some (.obj user) =>
    match Record.get? user idField with
    | some .null => none
    | found => found
  | _ => none

end Context

end RecordGate

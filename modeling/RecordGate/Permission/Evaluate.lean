import RecordGate.Permission.Context

/-! # Evaluating permissions

  A permission holds if both paths lead to a value and the two values are
  equal. Nothing else allows: a root that is not bound, a field that is
  missing, a value that cannot be projected and `null` all deny.
-/

namespace RecordGate

/-- Two values are equal for a permission. Identifiers are compared without
    regard to case, numbers by value, arrays and objects as wholes; values of
    different kinds are never equal and `null` equals nothing. -/
def Json.matches (a b : Json) : Bool :=
  match a, b with
  | .str x, .str y =>
    if ObjectId.isValid x && ObjectId.isValid y then
      x.toList.map Char.toLower = y.toList.map Char.toLower
    else x = y
  | .num x, .num y => x.equalValue y
  | .bool x, .bool y => x = y
  | .arr x, .arr y => Json.sameItems x y
  | .obj x, .obj y => Json.sameMembers x y
  | _, _ => false

namespace Path

/-- A value that was found, unless it is `null`. -/
def present : Option Json → Option Json
  | some .null => none
  | found => found

/-- One projection: the field of an object, unless it is missing or `null`. -/
def project (value : Json) (name : String) : Option Json :=
  match value with
  | .obj r => present (Record.get? r name)
  | _ => none

/-- The value that a path leads to: a field is projected from the value of the
    path without it. -/
def resolve (c : Context) : Path → Option Json
  | base name => present (c.get? name)
  | field parent name =>
    match parent.resolve c with
    | some value => project value name
    | none => none

end Path

/-- Why a permission does not hold. -/
inductive Denial where
  /-- A path leads to no value. -/
  | unresolved (path : Path)
  /-- The two values differ. -/
  | mismatch (expression : Expr)
  deriving DecidableEq, Repr

/-- The wording of a denial. -/
def Denial.message : Denial → String
  | unresolved path => path.render ++ " is unresolved"
  | mismatch expression => expression.render ++ " does not match"

/-- Evaluates a permission; the left path is looked at first. -/
def Expr.evaluate (e : Expr) (c : Context) : Except Denial Unit :=
  match e.left.resolve c with
  | none => .error (.unresolved e.left)
  | some a =>
    match e.right.resolve c with
    | none => .error (.unresolved e.right)
    | some b => if a.matches b then .ok () else .error (.mismatch e)

/-- Whether a permission holds. -/
def Expr.holds (e : Expr) (c : Context) : Bool :=
  (e.evaluate c).isOk

/-- A permission holds if both paths lead to a value and the two values are
    equal. -/
theorem Expr.holds_iff {e : Expr} {c : Context} :
    e.holds c = true ↔ ∃ a b, e.left.resolve c = some a ∧ e.right.resolve c = some b ∧
      a.matches b = true := by
  unfold holds evaluate
  cases e.left.resolve c with
  | none => simp [Except.isOk, Except.toBool]
  | some a =>
    cases e.right.resolve c with
    | none => simp [Except.isOk, Except.toBool]
    | some b => cases hmatch : a.matches b <;> simp [hmatch, Except.isOk, Except.toBool]

end RecordGate

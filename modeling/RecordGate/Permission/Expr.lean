import RecordGate.Permission.Path

/-! # Permission expressions

  A permission compares two paths: `@file.owner=@req_user._id`. It is read
  once, when the configuration is loaded.
-/

namespace RecordGate

/-- The name of the root that stands for the authenticated caller. -/
def callerRoot : String := "req_user"

/-- The comparison of two paths. -/
structure Expr where
  /-- The left-hand path. -/
  left : Path
  /-- The right-hand path. -/
  right : Path
  deriving DecidableEq, Repr, Inhabited

namespace Expr

/-- The written form, without blanks. -/
def render (e : Expr) : String :=
  e.left.render ++ "=" ++ e.right.render

/-- The paths from left to right. -/
def paths (e : Expr) : List Path := [e.left, e.right]

/-- The roots from left to right, each once. -/
def roots (e : Expr) : List String :=
  if e.left.root = e.right.root then [e.left.root] else [e.left.root, e.right.root]

/-- The roots of a permission are those of its paths. -/
theorem forall_mem_roots {e : Expr} {P : String → Prop} :
    (∀ root ∈ e.roots, P root) ↔ ∀ p ∈ e.paths, P p.root := by
  unfold roots paths
  split
  next hsame => simp [← hsame]
  · simp

/-- Whether a path starts at a root. -/
def references (e : Expr) (root : String) : Bool :=
  e.left.root = root || e.right.root = root

/-- Both paths are made of identifiers. -/
def WellFormed (e : Expr) : Prop :=
  e.left.WellFormed ∧ e.right.WellFormed

/-- Reads an expression with blanks around either path. -/
def parse (source : String) : Except Error Expr :=
  let refuse (reason : String) : Except Error Expr := .error (.invalidExpression source reason)
  match Text.cutAt '=' source.toList with
  | none => refuse "expected '<path>=<path>'"
  | some (left, right) =>
    if right.contains '=' then refuse "only a single '=' comparison is supported"
    else
      match Path.readChars left with
      | .error _ => refuse "invalid left-hand path"
      | .ok l =>
        match Path.readChars right with
        | .error _ => refuse "invalid right-hand path"
        | .ok r => .ok ⟨l, r⟩

end Expr

end RecordGate

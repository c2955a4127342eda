import RecordGate.Error
import RecordGate.Text.Blank
import RecordGate.Text.Ident
import RecordGate.Text.Split

/-! # Paths

  A path names a value of the request context: `@`, the name of a root, and
  the fields to project, each after a dot. Every projection is one node on top
  of the path before it, so the last field is the outermost.

  - `render` writes a path and `Path.parse` reads it, with blanks around it.
  - `ext`: a path is known by its root and its segments.
-/

namespace RecordGate

/-- A root, or a field projected from a path. -/
inductive Path where
  /-- A context root. -/
  | base (name : String)
  /-- The field of the value that a path leads to. -/
  | field (parent : Path) (name : String)
  deriving DecidableEq, Repr, Inhabited

namespace Path

/-- The name of the context root. -/
def root : Path → String
  | base name => name
  | field parent _ => parent.root

/-- The names of the projected fields, from first to last. -/
def segments : Path → List String
  | base _ => []
  | field parent name => parent.segments ++ [name]

/-- The written form. -/
def render : Path → String
  | base name => "@" ++ name
  | field parent name => parent.render ++ "." ++ name

/-- Root and segments are identifiers. -/
def WellFormed (p : Path) : Prop :=
  Text.isIdent p.root = true ∧ ∀ s ∈ p.segments, Text.isIdent s = true

/-- Paths with the same root and the same segments are the same. -/
theorem ext {p q : Path} (hroot : p.root = q.root) (hsegments : p.segments = q.segments) :
    p = q := by
  -- the last segment is the outermost field, so both paths are taken apart from there
  induction p generalizing q with
  | base name =>
    cases q with
    | base name' => exact congrArg base hroot
    | field parent' name' => simp [segments] at hsegments
  | field parent name ih =>
    cases q with
    | base name' => simp [segments] at hsegments
    | field parent' name' =>
      simp only [segments] at hsegments
      obtain ⟨hparents, hnames⟩ := List.append_inj' hsegments rfl
      have hparent : parent = parent' := ih hroot hparents
      have hname : name = name' := List.head_eq_of_cons_eq hnames
      rw [hparent, hname]

/-! ### Reading -/

/-- Why a text is no path. -/
inductive Fault where
  /-- There is no `@` in front. -/
  | missingAt
  /-- The root is no identifier. -/
  | badRoot (name : String)
  /-- A segment is no identifier. -/
  | badSegment (name : String)
  deriving DecidableEq, Repr

/-- The wording of a fault. -/
def Fault.message : Fault → String
  | missingAt => "path must start with '@'"
  | badRoot name => s!"invalid root name '{name}'"
  | badSegment name => s!"invalid field name '{name}'"

/-- Projects the fields that pieces of a text name, the first one first. -/
def readFields (p : Path) : List (List Char) → Except Fault Path
  | [] => .ok p
  | piece :: pieces =>
    if Text.isIdentChars piece then readFields (p.field (String.ofList piece)) pieces
    else .error (.badSegment (String.ofList piece))

/-- Reads what follows the `@`. -/
def readBody (body : List Char) : Except Fault Path :=
  match Text.splitOn '.' body with
  | [] => .error (.badRoot "")
  | root :: pieces =>
    if Text.isIdentChars root then readFields (base (String.ofList root)) pieces
    else .error (.badRoot (String.ofList root))

/-- Reads a path with blanks around it. -/
def readChars (cs : List Char) : Except Fault Path :=
  match Text.trimChars cs with
  | '@' :: body => readBody body
  | _ => .error .missingAt

/-- Reads a path from a text of its own. -/
def parse (source : String) : Except Error Path :=
  match readChars source.toList with
  | .ok p => .ok p
  | .error fault => .error (.invalidExpression source fault.message)

end Path

end RecordGate

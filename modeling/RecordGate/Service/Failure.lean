/-! # Failures to start

  A program that cannot start says why: what it was doing, and the causes
  behind that, the outermost first.
-/

namespace RecordGate

/-- Why a program stopped before it did its work. -/
structure Failure where
  /-- What failed. -/
  summary : String
  /-- The causes, the outermost first. -/
  causes : List String
  deriving Repr, DecidableEq

namespace Failure

/-- A failure without a further cause. -/
def simple (summary : String) : Failure := ⟨summary, []⟩

/-- All texts, from the outermost inwards. -/
def texts (f : Failure) : List String :=
  f.summary :: f.causes

/-- A text whose later lines are set in by some characters. -/
def hanging (indent text : String) : String :=
  String.ofList (text.toList.flatMap fun c => if c = '\n' then '\n' :: indent.toList else [c])

/-- A cause on lines of its own, numbered if there are several. -/
def causeLines (several : Bool) (cause : String × Nat) : String :=
  let number := toString cause.2
  if several then
    String.ofList (List.replicate (5 - number.length) ' ') ++ number ++ ": "
      ++ hanging "       " cause.1
  else "    " ++ hanging "    " cause.1

/-- The report that goes to standard error. -/
def report (f : Failure) : String :=
  "Error: " ++ f.summary ++
  if f.causes.isEmpty then ""
  else
    "\n\nCaused by:\n" ++
      "\n".intercalate (f.causes.zipIdx.map (causeLines (f.causes.length > 1)))

end Failure

end RecordGate

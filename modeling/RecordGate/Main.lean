import RecordGate.CommandLine.Run

/-! # The program

  Reads the file that a command needs, runs the command and passes on what it
  shows.
-/

namespace RecordGate.Main

/-- How the system words a failure to read a file. -/
def readFailure : IO.Error → String
  | .noFileOrDirectory .. => "No such file or directory (os error 2)"
  | .permissionDenied .. => "Permission denied (os error 13)"
  | .inappropriateType .. => "Is a directory (os error 21)"
  | _ => "stream did not contain valid UTF-8"

/-- The contents of a file, or why it cannot be read. -/
def fileText (path : String) : IO (Except String String) := do
  try
    let text ← IO.FS.readFile path
    pure (.ok text)
  catch e => pure (.error (readFailure e))

/-- Runs the program. -/
def run (args : List String) : IO UInt32 := do
  let contents ←
    match (CommandLine.Command.ofArguments? args).bind CommandLine.Command.file? with
    | some path => fileText path
    | none => pure (.ok "")
  let outcome := CommandLine.runArguments (fun _ => contents) args
  IO.print outcome.stdout
  IO.eprint outcome.stderr
  pure (UInt32.ofNat outcome.code)

end RecordGate.Main

/-- The entry of the program. -/
def main (args : List String) : IO UInt32 :=
  RecordGate.Main.run args

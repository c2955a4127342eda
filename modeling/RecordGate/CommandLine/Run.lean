import RecordGate.CommandLine.Command
import RecordGate.CommandLine.Listing
import RecordGate.Service.Start

/-! # Running commands

  What a command shows, and with which code the program ends: 0 after success,
  1 after a failure with a report, 2 when the arguments are refused.
-/

namespace RecordGate.CommandLine

/-- The end of a run. -/
structure Outcome where
  /-- The exit code. -/
  code : Nat
  /-- Standard output. -/
  stdout : String
  /-- Standard error. -/
  stderr : String
  deriving Repr, DecidableEq

/-- The end of a run whose arguments are refused. -/
def refused : Outcome := ⟨2, "", programHelp⟩

/-- What a command shows for a checked configuration. -/
def shownFor (command : Command) (config : Config) : String :=
  let endpoints := Endpoint.plan config.routes
  match command with
  | .check path =>
    let counts := s!"{config.catalog.models.length} models, {config.routes.length} routes"
    s!"{path}: OK ({counts}, {endpoints.length} endpoints)\n"
  | .routes _ .table => table endpoints
  | .routes _ .json => jsonListing endpoints
  | .say text => text

/-- Runs a command, given how files are read. -/
def run (fileText : String → Except String String) (command : Command) : Outcome :=
  match command.file? with
  | none => ⟨0, shownFor command ⟨Catalog.empty, []⟩, ""⟩
  | some path =>
    match Service.loadConfig "failed to read" fileText path with
    | .ok config => ⟨0, shownFor command config, ""⟩
    | .error f => ⟨1, "", f.report ++ "\n"⟩

/-- Runs the program with its arguments. -/
def runArguments (fileText : String → Except String String) (args : List String) : Outcome :=
  match Command.ofArguments? args with
  | some command => run fileText command
  | none => refused

end RecordGate.CommandLine

import RecordGate.Text.Split

/-! # Arguments

  The program has two commands. Both take the configuration file as an option,
  and one of them a format. An option stands for itself and its value follows,
  or is joined to it by an equals sign. Help is given as soon as it is asked
  for; anything else that does not fit is refused.
-/

namespace RecordGate.CommandLine

/-- How endpoints are listed. -/
inductive Format where
  /-- As a table. -/
  | table
  /-- As JSON. -/
  | json
  deriving Repr, DecidableEq

/-- What the program is asked to do. -/
inductive Command where
  /-- Check a configuration file. -/
  | check (path : String)
  /-- List the endpoints of a configuration file. -/
  | routes (path : String) (format : Format)
  /-- Show a text. -/
  | say (text : String)
  deriving Repr, DecidableEq

/-- The configuration file when none is given. -/
def defaultPath : String := "config/models.yaml"

/-! ### Texts -/

/-- The answer to a question for the version. -/
def versionText : String := "mk 0.1.0\n"

/-- A text of several lines. -/
def lines (ls : List String) : String :=
  String.join (ls.map (· ++ "\n"))

/-- Help on the program. -/
def programHelp : String :=
  lines [
    "Modelkit CLI - validate models and inspect generated routes",
    "",
    "Usage: mk <COMMAND>",
    "",
    "Commands:",
    "  check   Validate a models/routes configuration file",
    "  routes  List the endpoints a configuration generates",
    "  help    Print this message or the help of the given subcommand(s)",
    "",
    "Options:",
    "  -h, --help     Print help",
    "  -V, --version  Print version"]

/-- Help on checking. -/
def checkHelp : String :=
  lines [
    "Validate a models/routes configuration file",
    "",
    "Usage: mk check [OPTIONS]",
    "",
    "Options:",
    "      --config <CONFIG>  Configuration file [default: config/models.yaml]",
    "  -h, --help             Print help"]

/-- Help on listing. -/
def routesHelp : String :=
  lines [
    "List the endpoints a configuration generates",
    "",
    "Usage: mk routes [OPTIONS]",
    "",
    "Options:",
    "      --config <CONFIG>  Configuration file [default: config/models.yaml]",
    "      --format <FORMAT>  Output format [default: text] [possible values: text, json]",
    "  -h, --help             Print help"]

/-- Help on help. -/
def helpHelp : String :=
  lines [
    "Print this message or the help of the given subcommand(s)",
    "",
    "Usage: mk help [COMMAND]...",
    "",
    "Arguments:",
    "  [COMMAND]...  Print help for the subcommand(s)"]

/-! ### Reading arguments -/

/-- The options of a command as far as they were read. -/
structure Options where
  /-- The configuration file. -/
  path : Option String
  /-- The format. -/
  format : Option Format
  deriving Repr, DecidableEq

/-- Reads a format. -/
def Format.ofName? : String → Option Format
  | "text" => some .table
  | "json" => some .json
  | _ => none

/-- Sets an option that is not yet set. An empty path is refused. -/
def Options.set? (o : Options) (name value : String) (takesFormat : Bool) : Option Options :=
  if name = "--config" then
    if o.path.isSome || value.isEmpty then none else some { o with path := some value }
  else if name = "--format" && takesFormat then
    if o.format.isSome then none
    else (Format.ofName? value).map fun f => { o with format := some f }
  else none

/-- Whether an argument can be the value of the option before it. -/
def isValue (arg : String) : Bool :=
  arg = "-" || !(arg.toList.head? = some '-')

/-- Reads the arguments of a command: its options, or that help is wanted. -/
def readOptions (takesFormat : Bool) (o : Options) : List String → Option (Option Options)
  | [] => some (some o)
  | arg :: rest =>
    if arg = "--help" || arg = "-h" then some none
    else if arg = "--" then if rest.isEmpty then some (some o) else none
    else
      match Text.cutAt '=' arg.toList with
      | some (name, value) => do
        let o ← o.set? (String.ofList name) (String.ofList value) takesFormat
        readOptions takesFormat o rest
      | none =>
        match rest with
        | value :: rest => do
          if !isValue value then none
          else
            let o ← o.set? arg value takesFormat
            readOptions takesFormat o rest
        | [] => none

/-- What help to show for a list of command names. -/
def helpOn : List String → Option Command
  | [] => some (.say programHelp)
  | ["check"] => some (.say checkHelp)
  | ["routes"] => some (.say routesHelp)
  | ["help"] => some (.say helpHelp)
  | _ => none

/-- Reads the arguments of the program; none if they are refused. -/
def Command.ofArguments? : List String → Option Command
  | "--help" :: _ | "-h" :: _ => some (.say programHelp)
  | "--version" :: _ | "-V" :: _ => some (.say versionText)
  | "help" :: rest => helpOn rest
  | "check" :: rest => do
    match ← readOptions false ⟨none, none⟩ rest with
    | none => some (.say checkHelp)
    | some o => some (.check (o.path.getD defaultPath))
  | "routes" :: rest => do
    match ← readOptions true ⟨none, none⟩ rest with
    | none => some (.say routesHelp)
    | some o => some (.routes (o.path.getD defaultPath) (o.format.getD .table))
  | _ => none

/-- The file that a command reads. -/
def Command.file? : Command → Option String
  | .check path | .routes path _ => some path
  | .say _ => none

end RecordGate.CommandLine

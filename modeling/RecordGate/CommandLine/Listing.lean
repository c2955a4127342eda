import RecordGate.Engine.Endpoint
import RecordGate.Json.Printer

/-! # Listing endpoints

  A list of endpoints is shown as a table or as indented JSON. The columns of
  the table have a least width; only the path column is as wide as its widest
  entry.
-/

namespace RecordGate.CommandLine

/-- A text filled up with blanks. -/
def padded (width : Nat) (s : String) : String :=
  s ++ String.ofList (List.replicate (width - s.length) ' ')

/-- A line of the table. -/
def tableLine (pathWidth : Nat) (method path code model allow : String) : String :=
  padded 7 method ++ " " ++ padded pathWidth path ++ " " ++ padded 3 code ++ " "
    ++ padded 12 model ++ " " ++ allow ++ "\n"

/-- The permission of an endpoint, with the field by which the record is loaded. -/
def allowText (e : Endpoint) : String :=
  match e.whereField? with
  | some field => s!"{e.allow} (where {field})"
  | none => e.allow

/-- The endpoints as a table. -/
def table (endpoints : List Endpoint) : String :=
  if endpoints.isEmpty then "No routes.\n"
  else
    let width := (endpoints.map fun e => e.path.utf8ByteSize).foldl max "PATH".length
    let lines := endpoints.map fun e =>
      tableLine width e.method.name e.path e.action.code e.route.model.name (allowText e)
    tableLine width "METHOD" "PATH" "OP" "MODEL" "ALLOW" ++ String.join lines

/-- An object whose members are texts, set in by two blanks. -/
def objectText (members : List (String × String)) : String :=
  "  \x7b\n" ++
    ",\n".intercalate (members.map fun (k, v) => s!"    {Json.quoted k}: {Json.quoted v}")
    ++ "\n  \x7d"

/-- The endpoints as an indented JSON array. -/
def jsonListing (endpoints : List Endpoint) : String :=
  if endpoints.isEmpty then "[]\n"
  else "[\n" ++ ",\n".intercalate (endpoints.map fun e => objectText e.summary) ++ "\n]\n"

end RecordGate.CommandLine

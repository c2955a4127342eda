import RecordGate.Keyed
import RecordGate.Text.Blank

/-! # Environment files

  A file can give variables to the environment: `NAME=value`, one a line.

  - Variables that the environment already has keep their values.
  - Values may be quoted, and a quoted value may span lines. In single quotes
    everything stands for itself; elsewhere a backslash escapes and `$NAME` or
    `${NAME}` stands for a variable.
  - A blank ends a value without quotes, and a comment may follow it.
  - At the first line that cannot be read the rest of the file is left out.
-/

namespace RecordGate.EnvFile

/-! ### Logical lines -/

/-- Where a logical line stands while it is cut out. -/
inductive Cut where
  /-- Outside quotes. -/
  | plain
  /-- After a blank. -/
  | blank
  /-- After a backslash. -/
  | escape
  /-- In double quotes. -/
  | double
  /-- After a backslash in double quotes. -/
  | doubleEscape
  /-- In single quotes. -/
  | single
  /-- After a backslash in single quotes. -/
  | singleEscape
  deriving DecidableEq

/-- What a character outside quotes opens. -/
def Cut.opens (c : Char) : Cut :=
  match c with
  | '\\' => .escape
  | '"' => .double
  | '\x27' => .single
  | _ => .plain

/-- The place after one more character. -/
def Cut.after (cut : Cut) (c : Char) : Cut :=
  match cut with
  | .blank => opens c
  | .plain => if Text.isBlank c && c != '\n' && c != '\r' then .blank else opens c
  | .escape => .plain
  | .double => if c = '\\' then .doubleEscape else if c = '"' then .plain else .double
  | .doubleEscape => .double
  | .single => if c = '\\' then .singleEscape else if c = '\x27' then .plain else .single
  | .singleEscape => .single

/-- Whether a line that ends here goes on with the next one. -/
def Cut.goesOn : Cut → Bool
  | .plain | .blank => false
  | _ => true

/-- Follows one line; a comment after a blank outside quotes cuts it. Returns
    what belongs to the logical line and the place after it. -/
def follow (cut : Cut) : List Char → List Char × Cut
  | [] => ([], cut)
  | c :: cs =>
    if cut = .blank && c = '#' then ([], .blank)
    else
      let (line, stop) := follow (cut.after c) cs
      (c :: line, stop)

/-- The lines of a text with their ends. -/
def physicalLines : List Char → List (List Char)
  | [] => []
  | c :: cs =>
    if c = '\n' then [c] :: physicalLines cs
    else
      match physicalLines cs with
      | [] => [[c]]
      | line :: lines => (c :: line) :: lines

/-- The text of a line without its end. -/
def withoutEnd (line : List Char) : List Char :=
  match line.reverse with
  | '\n' :: '\r' :: rest => rest.reverse
  | '\n' :: rest => rest.reverse
  | _ => line

/-- Whether a line is a comment. -/
def isComment (line : List Char) : Bool :=
  (Text.trimStart line).head? = some '#'

/-- The logical lines of a file; `started` is what the current one has so far.
    None stands for one that is never closed. -/
def logicalLines (started : List Char) (cut : Cut) : List (List Char) → List (Option (List Char))
  | [] => if cut.goesOn then [none] else []
  | line :: lines =>
    if isComment (started ++ line) then logicalLines [] .plain lines
    else
      let (kept, stop) := follow cut line
      let all := started ++ kept
      if stop.goesOn then logicalLines all stop lines
      else some (withoutEnd all) :: logicalLines [] .plain lines

/-! ### Entries -/

/-- What a variable stands for: its value in the environment, else the one
    that the file gave before. -/
def lookUp (env earlier : Keyed String) (name : List Char) : List Char :=
  let name := String.ofList name
  ((env.get? name <|> earlier.get? name).getD "").toList

/-- A character of a variable name after a dollar sign. -/
def isNameChar (c : Char) : Bool :=
  c.isAlphanum || (c.toNat ≥ 0x80 && !Text.isBlank c)

/-- Where the reading of a value stands. -/
inductive Mode where
  /-- Outside quotes. -/
  | bare
  /-- In double quotes. -/
  | double
  /-- In single quotes. -/
  | single
  /-- After the value. -/
  | ended
  deriving DecidableEq

/-- The variable at the start of a text after a dollar sign: its name and the
    rest. None if a brace is not closed. -/
def reference? (cs : List Char) : Option (List Char × List Char) :=
  match cs with
  | '\x7b' :: rest =>
    let name := rest.takeWhile (· != '\x7d')
    match rest.drop name.length with
    | _ :: rest => some (name, rest)
    | [] => none
  | _ => some (cs.takeWhile isNameChar, cs.dropWhile isNameChar)

/-- Reads a value. After a variable that ends a name the next character stands
    for itself, whatever it is, except for another dollar sign. -/
def value? (env earlier : Keyed String) : (fuel : Nat) → Mode → List Char → Option (List Char)
  | 0, _, _ => none
  | fuel + 1, mode, cs =>
    match cs with
    | [] => if mode = .single || mode = .double then none else some []
    | c :: rest =>
      match mode with
      | .ended =>
        if c = ' ' || c = '\t' then value? env earlier fuel .ended rest
        else if c = '#' then some []
        else none
      | .single =>
        if c = '\x27' then value? env earlier fuel .bare rest
        else (value? env earlier fuel .single rest).map (c :: ·)
      | mode =>
        if c = '$' then do
          let (name, after) ← reference? rest
          let braced := rest.head? = some '\x7b'
          let (literal, after) :=
            match after with
            | d :: more => if braced || d = '$' then ([], d :: more) else ([d], more)
            | [] => ([], [])
          let more ← value? env earlier fuel mode after
          some (lookUp env earlier name ++ literal ++ more)
        else if c = '\\' then
          match rest with
          | d :: rest =>
            if d = 'n' then (value? env earlier fuel mode rest).map ('\n' :: ·)
            else if "\\'\"$ ".toList.contains d then
              (value? env earlier fuel mode rest).map (d :: ·)
            else none
          | [] => if mode = .double then none else some []
        else if mode = .double then
          if c = '"' then value? env earlier fuel .bare rest
          else (value? env earlier fuel .double rest).map (c :: ·)
        else if c = '\x27' then value? env earlier fuel .single rest
        else if c = '"' then value? env earlier fuel .double rest
        else if c = ' ' || c = '\t' then value? env earlier fuel .ended rest
        else (value? env earlier fuel .bare rest).map (c :: ·)

/-- A variable name and what follows it and the blanks behind it. -/
def name? (cs : List Char) : Option (String × List Char) :=
  match cs with
  | c :: _ =>
    if c.isAlpha || c = '_' then
      let isPart (c : Char) : Bool := c.isAlphanum || c = '_' || c = '.'
      some (String.ofList (cs.takeWhile isPart), Text.trimStart (cs.dropWhile isPart))
    else none
  | [] => none

/-- Drops an equals sign. -/
def afterEquals? : List Char → Option (List Char)
  | '=' :: rest => some rest
  | _ => none

/-- Reads a logical line: nothing, or a name and its value. A line may open
    with `export`. -/
def entry? (env earlier : Keyed String) (line : List Char) : Option (Option (String × String)) :=
  match Text.trimStart line with
  | [] => some none
  | '#' :: _ => some none
  | line => do
    let (name, rest) ← name? line
    let (name, rest) ←
      match afterEquals? rest with
      | some rest => some (name, rest)
      | none =>
        if name = "export" then do
          let (name, rest) ← name? rest
          some (name, ← afterEquals? rest)
        else none
    match Text.trimStart rest with
    | [] => some (some (name, ""))
    | '#' :: _ => some (some (name, ""))
    | rest => do
      let value ← value? env earlier (rest.length + 1) .bare rest
      some (some (name, String.ofList value))

/-- Adds the entries of logical lines to an environment. -/
def addLines (env earlier : Keyed String) : List (Option (List Char)) → Keyed String
  | [] => env
  | none :: _ => env
  | some line :: lines =>
    match entry? env earlier line with
    | none => env
    | some none => addLines env earlier lines
    | some (some (name, value)) =>
      let env := if env.contains name then env else env.put name value
      addLines env (earlier.put name value) lines

/-- The environment with the variables of a file. -/
def load (text : String) (env : Keyed String) : Keyed String :=
  let cs :=
    match text.toList with
    | '\uFEFF' :: cs => cs
    | cs => cs
  addLines env [] (logicalLines [] .plain (physicalLines cs))

end RecordGate.EnvFile

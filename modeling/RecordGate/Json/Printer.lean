import RecordGate.Decimal.Layout
import RecordGate.Json.Value

/-! # Writing JSON

  The minified text of a value. Strings escape the quote, the backslash and
  the control characters and nothing else; numbers follow `Decimal.layout`.
-/

namespace RecordGate

/-- The text of a number. -/
def Number.text : Number → String
  | .int n => Decimal.intText n
  | .float x => Decimal.floatText x

namespace Json

/-- A character inside a string. -/
def escapeChar (c : Char) : List Char :=
  match c with
  | '"' => ['\\', '"']
  | '\\' => ['\\', '\\']
  | '\x08' => ['\\', 'b']
  | '\x0c' => ['\\', 'f']
  | '\n' => ['\\', 'n']
  | '\r' => ['\\', 'r']
  | '\t' => ['\\', 't']
  | c =>
    if c.toNat < 0x20 then
      ['\\', 'u', '0', '0', Nat.digitChar (c.toNat / 16), Nat.digitChar (c.toNat % 16)]
    else [c]

/-- A string with its quotes. -/
def quoted (s : String) : String :=
  "\"" ++ String.ofList (s.toList.flatMap escapeChar) ++ "\""

mutual

/-- The minified text of a value. -/
def text : Json → String
  | .null => "null"
  | .bool true => "true"
  | .bool false => "false"
  | .num n => n.text
  | .str s => quoted s
  | .arr items => "[" ++ ",".intercalate (itemTexts items) ++ "]"
  | .obj members => "\x7b" ++ ",".intercalate (memberTexts members) ++ "\x7d"

/-- The texts of the items of an array. -/
def itemTexts : List Json → List String
  | [] => []
  | v :: rest => v.text :: itemTexts rest

/-- The texts of the members of an object. -/
def memberTexts : List (String × Json) → List String
  | [] => []
  | (k, v) :: rest => (quoted k ++ ":" ++ v.text) :: memberTexts rest

end

end RecordGate.Json

import RecordGate.Decimal.Read
import RecordGate.Json.Record
import RecordGate.Yaml.Node

/-! # YAML values

  What nodes stand for by the core schema where no particular type is asked
  for.

  - Of the plain scalars, `null`, `~` and the empty one are null, `true` and
    `false` are booleans (in three spellings each), and numbers are numbers.
    Everything else is a text, and so is every scalar that is not plain.
  - Whole numbers are written in decimal, or with `0x`, `0o` or `0b`. Digits
    with a needless zero in front are a text. One that does not fit 64 bits but
    fits 128 has no value; a larger one is a double.
  - A core tag asks for its type. A local tag has no value.
-/

namespace RecordGate.Yaml

/-- The value of a node. -/
inductive Value where
  | null
  | bool (b : Bool)
  /-- A whole number that fits 64 bits. -/
  | int (n : Int)
  /-- A double, which may be infinite or not a number. -/
  | float (x : Float)
  | str (s : String)
  | seq (items : List Value)
  | map (entries : List (Value × Value))
  deriving Repr, Inhabited

/-! ### Plain scalars -/

namespace Scalar

/-- The spellings of null. -/
def isNull (s : String) : Bool :=
  s = "null" || s = "Null" || s = "NULL" || s = "~"

/-- The spellings of the booleans. -/
def bool? (s : String) : Option Bool :=
  if s = "true" || s = "True" || s = "TRUE" then some true
  else if s = "false" || s = "False" || s = "FALSE" then some false
  else none

/-- The text without one sign. -/
def unsigned : List Char → List Char
  | '+' :: cs | '-' :: cs => cs
  | cs => cs

/-- Digits with a needless zero in front, perhaps with a sign. -/
def hasNeedlessZero (cs : List Char) : Bool :=
  match unsigned cs with
  | '0' :: d :: ds => (d :: ds).all Decimal.isDigit
  | _ => false

/-- The value of a digit of a radix up to 16. -/
def digitOf? (radix : Nat) (c : Char) : Option Nat :=
  if c.toNat < 0x80 then
    ((Hex.value? (UInt8.ofNat c.toNat)).map UInt8.toNat).filter (· < radix)
  else none

/-- The number that a non-empty run of digits writes. -/
def digits? (radix : Nat) (cs : List Char) : Option Nat :=
  if cs.isEmpty then none
  else cs.foldlM (fun n c => (digitOf? radix c).map (n * radix + ·)) 0

/-- The absolute value of a whole number after its sign. -/
def magnitude? : List Char → Option Nat
  | '0' :: 'x' :: cs => digits? 16 cs
  | '0' :: 'o' :: cs => digits? 8 cs
  | '0' :: 'b' :: cs => digits? 2 cs
  | cs => if hasNeedlessZero cs then none else digits? 10 cs

/-- A whole number with or without a sign. -/
def whole? : List Char → Option Int
  | '-' :: cs => (magnitude? cs).map fun n => -(n : Int)
  | '+' :: cs => (magnitude? cs).map fun n => (n : Int)
  | cs => (magnitude? cs).map fun n => (n : Int)

/-- Whether a whole number fits 64 bits, signed or not. -/
def fitsWord (n : Int) : Bool :=
  -0x8000000000000000 ≤ n && n < 0x10000000000000000

/-- Whether a whole number fits 128 bits, signed or not. -/
def fitsDoubleWord (n : Int) : Bool :=
  -0x80000000000000000000000000000000 ≤ n && n < 0x100000000000000000000000000000000

/-- A double, infinity and not-a-number included. -/
def float? (cs : List Char) : Option Float :=
  let infinite (s : String) : Bool := s = ".inf" || s = ".Inf" || s = ".INF"
  let s := String.ofList cs
  if infinite s then some (1.0 / 0.0)
  else
    match cs with
    | '+' :: more =>
      if infinite (String.ofList more) then some (1.0 / 0.0) else Decimal.floatOf? cs
    | '-' :: more =>
      if infinite (String.ofList more) then some (-1.0 / 0.0) else Decimal.floatOf? cs
    | _ => if s = ".nan" || s = ".NaN" || s = ".NAN" then some (0.0 / 0.0) else Decimal.floatOf? cs

/-- What a text that is a whole number, if it is one, stands for. The outer
    option tells whether it is, the inner one whether it has a value. -/
def int? (cs : List Char) : Option (Option Value) :=
  match whole? cs with
  | some n =>
    if fitsWord n then some (some (.int n))
    else if fitsDoubleWord n then some none
    else none
  | none => none

/-- What a plain scalar without a tag stands for. -/
def plainValue? (s : String) : Option Value :=
  let cs := s.toList
  if s.isEmpty || isNull s then some .null
  else
    match bool? s with
    | some b => some (.bool b)
    | none =>
      match int? cs with
      | some v => v
      | none =>
        if hasNeedlessZero cs then some (.str s)
        else
          match float? cs with
          | some x => some (.float x)
          | none => some (.str s)

/-- The names of the core types. -/
def coreStem : String := "tag:yaml.org,2002:"

/-- What a scalar stands for. -/
def value? (s : String) (plain : Bool) (tag : Option String) : Option Value :=
  match tag with
  | none => if plain then plainValue? s else some (.str s)
  | some tag =>
    if Tag.isLocal tag then none
    else if tag = coreStem ++ "bool" then (bool? s).map Value.bool
    else if tag = coreStem ++ "int" then (int? s.toList).join
    else if tag = coreStem ++ "float" then (float? s.toList).map Value.float
    else if tag = coreStem ++ "null" then if isNull s then some .null else none
    else some (.str s)

end Scalar

/-! ### All nodes -/

mutual

/-- What a node stands for. -/
def Node.value? : Node → Option Value
  | .void => some .null
  | .scalar s plain tag => Scalar.value? s plain tag
  | .sequence items tag =>
    if tag.any Tag.isLocal then none else (Node.itemValues? items).map Value.seq
  | .mapping entries tag =>
    if tag.any Tag.isLocal then none else (Node.entryValues? entries).map Value.map

/-- What the items of a sequence stand for. -/
def Node.itemValues? : List Node → Option (List Value)
  | [] => some []
  | n :: rest => do some ((← n.value?) :: (← Node.itemValues? rest))

/-- What the entries of a mapping stand for. -/
def Node.entryValues? : List (Node × Node) → Option (List (Value × Value))
  | [] => some []
  | (k, v) :: rest => do some ((← k.value?, ← v.value?) :: (← Node.entryValues? rest))

end

/-! ### As JSON -/

mutual

/-- The JSON value for a value. Keys must be texts, of a repeated key the last
    value stays, and a double that is not finite becomes `null`. -/
def Value.toJson? : Value → Option Json
  | .null => some .null
  | .bool b => some (.bool b)
  | .int n => some (.num (.int n))
  | .float x => some (if x.isFinite then .num (.float x) else .null)
  | .str s => some (.str s)
  | .seq items => (Value.itemsToJson? items).map Json.arr
  | .map entries => (Value.entriesToJson? entries).map fun ms => .obj (Record.ofList ms)

/-- The JSON values for the items of a sequence. -/
def Value.itemsToJson? : List Value → Option (List Json)
  | [] => some []
  | v :: rest => do some ((← v.toJson?) :: (← Value.itemsToJson? rest))

/-- The members for the entries of a mapping. -/
def Value.entriesToJson? : List (Value × Value) → Option (List (String × Json))
  | [] => some []
  | (.str k, v) :: rest => do some ((k, ← v.toJson?) :: (← Value.entriesToJson? rest))
  | _ :: _ => none

end

end RecordGate.Yaml

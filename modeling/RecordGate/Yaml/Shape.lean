import RecordGate.Keyed
import RecordGate.Yaml.Value

/-! # Reading nodes by shape

  Where a certain type is asked for, a node is read as that type and not by
  the core schema.

  - A text is any scalar: `true` is the text `true`.
  - A list or a map that is not written is empty, but `null` is neither.
  - A record is a map with known keys only, each at most once.

  In an either/or place the value decides, so there only texts are texts.
-/

namespace RecordGate.Yaml

namespace Node

/-- Whether nothing is written. -/
def isAbsent : Node → Bool
  | .void => true
  | .scalar s plain _ => s.isEmpty && plain
  | _ => false

/-- The text of any scalar. -/
def text? : Node → Option String
  | .scalar s _ _ => some s
  | _ => none

/-- Whether a node is null where something may be left out; none if it says
    null by its tag and something else by its text. -/
def isLeftOut? : Node → Option Bool
  | .void => some true
  | .scalar s plain tag =>
    if !plain then some false
    else
      match tag with
      | none => some (s.isEmpty || Scalar.isNull s)
      | some tag =>
        if tag = Scalar.coreStem ++ "null" then if Scalar.isNull s then some true else none
        else some false
  | _ => some false

/-- Nothing, or what a reader makes of the node. -/
def optional? {α : Type} (read : Node → Option α) (n : Node) : Option (Option α) := do
  if ← n.isLeftOut? then some none else (read n).map some

/-- The items of a list, each read by a reader. -/
def list? {α : Type} (read : Node → Option α) (n : Node) : Option (List α) :=
  match n with
  | .sequence items _ => items.mapM read
  | n => if n.isAbsent then some [] else none

/-- The entries of a map with texts for keys. Of a repeated key the last value
    stays. -/
def keyed? {α : Type} (read : Node → Option α) (n : Node) : Option (Keyed α) :=
  match n with
  | .mapping entries _ =>
    (entries.mapM fun ((k, v) : Node × Node) => do some (← k.text?, ← read v)).map Keyed.ofList
  | n => if n.isAbsent then some [] else none

/-- The values of a record, in the order of its keys; none where one is
    missing. -/
def record? (keys : List String) (n : Node) : Option (List (Option Node)) :=
  match n with
  | .mapping entries _ => do
    let named ← entries.mapM fun ((k, v) : Node × Node) => do some (← k.text?, v)
    if named.all (fun (k, _) => keys.contains k) && (named.map Prod.fst).Nodup then
      some (keys.map fun key => named.lookup key)
    else none
  | n => if n.isAbsent then some (keys.map fun _ => none) else none

end Node

/-! ### Either/or places -/

namespace Value

/-- The text of a text. -/
def text? : Value → Option String
  | .str s => some s
  | _ => none

/-- Nothing for null, or what a reader makes of the value. -/
def optional? {α : Type} (read : Value → Option α) : Value → Option (Option α)
  | .null => some none
  | v => (read v).map some

/-- The key that an entry is for: its name, or its place among the keys.
    Other texts and numbers are for no key; other values are no keys at all. -/
def keyOf? (keys : List String) : Value → Option (Option String)
  | .str s => some (if keys.contains s then some s else none)
  | .int n => if 0 ≤ n then some keys[n.toNat]? else none
  | _ => none

/-- The values of the long notation of something, in the order of its keys.
    Other entries do not count; a repeated key is an error. -/
def long? (keys : List String) : Value → Option (List (Option Value))
  | .map entries => do
    let found ← entries.mapM fun ((k, v) : Value × Value) => do some (← keyOf? keys k, v)
    let named := found.filterMap fun (k, v) => k.map (·, v)
    if (named.map Prod.fst).Nodup then some (keys.map fun key => named.lookup key) else none
  | _ => none

end Value

end RecordGate.Yaml

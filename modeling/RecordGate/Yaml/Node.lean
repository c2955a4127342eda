import RecordGate.Yaml.Token

/-! # YAML nodes

  The tree that a document writes. Scalars are still texts: what they stand
  for depends on where they are read.

  - A node that is not written is an empty plain scalar.
  - An alias is the node that its anchor names. It must stand behind that
    node, not inside it.
  - A text holds at most one document; a text without any is `void`.
  - Nodes nest at most `maxDepth` deep.
-/

namespace RecordGate.Yaml

/-- A node of a document. -/
inductive Node where
  /-- No document. -/
  | void
  /-- A scalar, with whether it is plain and the full name of its tag. -/
  | scalar (text : String) (plain : Bool) (tag : Option String)
  /-- A sequence. -/
  | sequence (items : List Node) (tag : Option String)
  /-- A mapping. -/
  | mapping (entries : List (Node × Node)) (tag : Option String)
  deriving Repr, Inhabited

namespace Node

/-- How deep sequences and mappings may nest. -/
def maxDepth : Nat := 128

/-- The node that is not written. -/
def empty : Node :=
  .scalar "" true none

mutual

/-- Whether sequences and mappings nest at most this deep. -/
def fits : Node → (depth : Nat) → Bool
  | .void, _ | .scalar _ _ _, _ => true
  | .sequence _ _, 0 | .mapping _ _, 0 => false
  | .sequence items _, depth + 1 => itemsFit items depth
  | .mapping entries _, depth + 1 => entriesFit entries depth

/-- Whether all items fit. -/
def itemsFit : List Node → (depth : Nat) → Bool
  | [], _ => true
  | n :: rest, depth => n.fits depth && itemsFit rest depth

/-- Whether all keys and values fit. -/
def entriesFit : List (Node × Node) → (depth : Nat) → Bool
  | [], _ => true
  | (k, v) :: rest, depth => k.fits depth && v.fits depth && entriesFit rest depth

end

/-! ### What has been read -/

/-- The nodes that anchors name, the latest first. A node that is still being
    read is not there yet. -/
abbrev Anchors := List (String × Option Node)

/-- The anchors known after what was read, and the tokens that follow. -/
abbrev Rest := Anchors × List Token

/-- A node that is not written. -/
def absent (anchors : Anchors) (ts : List Token) : Option (Node × Rest) :=
  some (empty, anchors, ts)

/-- Whether one of some tokens comes next. -/
def follows (ts : List Token) (next : List Token) : Bool :=
  ts.head?.any next.contains

/-- The properties of a node: a tag and an anchor, each at most once. -/
def properties (handles : List (String × String)) (ts : List Token) :
    Option (Option String × Option String × List Token) :=
  match ts with
  | .anchor name :: .tag tag :: rest | .tag tag :: .anchor name :: rest =>
    (Tag.resolve? handles tag).map fun full => (some name, some full, rest)
  | .anchor name :: rest => some (some name, none, rest)
  | .tag tag :: rest => (Tag.resolve? handles tag).map fun full => (none, some full, rest)
  | _ => some (none, none, ts)

/-- Gives a node the name of its anchor. -/
def anchored (name : Option String) (node : Node) (anchors : Anchors) : Anchors :=
  match name with
  | some name => (name, some node) :: anchors
  | none => anchors

/-! ### Reading nodes

  Each reader returns what the next tokens write, the anchors known after it
  and the tokens that follow. -/

section
variable (handles : List (String × String))

mutual

/-- A node. Inside brackets and braces no collection by indentation begins
    (`block` is false), and only the value of a mapping may be a sequence at
    the indentation of the mapping itself (`indentless`). -/
def parse : (fuel : Nat) → (block indentless : Bool) → Anchors → List Token →
    Option (Node × Rest)
  | 0, _, _, _, _ => none
  | fuel + 1, block, indentless, anchors, ts =>
    match ts with
    | .alias name :: rest =>
      match anchors.lookup name with
      | some (some node) => some (node, anchors, rest)
      | _ => none
    | _ => do
      let (name, tag, ts) ← properties handles ts
      let opened : Anchors :=
        match name with
        | some name => (name, none) :: anchors
        | none => anchors
      let (node, anchors, rest) ←
        match ts with
        | .scalar text plain :: rest =>
          some (Node.scalar text plain (tag.filter (· != "!")), opened, rest)
        | .openSequence :: rest => do
          let (items, anchors, rest) ← flowItems fuel true opened rest
          some (Node.sequence items tag, anchors, rest)
        | .openMapping :: rest => do
          let (entries, anchors, rest) ← flowEntries fuel true opened rest
          some (Node.mapping entries tag, anchors, rest)
        | .item :: _ =>
          if indentless then do
            let (items, anchors, rest) ← indentlessItems fuel opened ts
            some (Node.sequence items tag, anchors, rest)
          else if name.isSome || tag.isSome then some (Node.scalar "" true tag, opened, ts)
          else none
        | .blockSequence :: rest =>
          if block then do
            let (items, anchors, rest) ← blockItems fuel opened rest
            some (Node.sequence items tag, anchors, rest)
          else if name.isSome || tag.isSome then some (Node.scalar "" true tag, opened, ts)
          else none
        | .blockMapping :: rest =>
          if block then do
            let (entries, anchors, rest) ← blockEntries fuel opened rest
            some (Node.mapping entries tag, anchors, rest)
          else if name.isSome || tag.isSome then some (Node.scalar "" true tag, opened, ts)
          else none
        | _ =>
          if name.isSome || tag.isSome then some (Node.scalar "" true tag, opened, ts) else none
      some (node, anchored name node anchors, rest)

/-- A node, unless one of some tokens tells that it is not written. -/
def parseUnless : (fuel : Nat) → (stops : List Token) → (block indentless : Bool) →
    Anchors → List Token → Option (Node × Rest)
  | 0, _, _, _, _, _ => none
  | fuel + 1, stops, block, indentless, anchors, ts =>
    if follows ts stops then absent anchors ts else parse fuel block indentless anchors ts

/-- The items of a sequence by indentation. -/
def blockItems : (fuel : Nat) → Anchors → List Token → Option (List Node × Rest)
  | 0, _, _ => none
  | fuel + 1, anchors, ts =>
    match ts with
    | .item :: rest => do
      let (node, anchors, rest) ← parseUnless fuel [.item, .blockEnd] true false anchors rest
      let (nodes, anchors, rest) ← blockItems fuel anchors rest
      some (node :: nodes, anchors, rest)
    | .blockEnd :: rest => some ([], anchors, rest)
    | _ => none

/-- The items of a sequence at the indentation of the mapping around it. -/
def indentlessItems : (fuel : Nat) → Anchors → List Token → Option (List Node × Rest)
  | 0, _, _ => none
  | fuel + 1, anchors, ts =>
    match ts with
    | .item :: rest => do
      let (node, anchors, rest) ←
        parseUnless fuel [.item, .key, .value, .blockEnd] true false anchors rest
      let (nodes, anchors, rest) ← indentlessItems fuel anchors rest
      some (node :: nodes, anchors, rest)
    | _ => some ([], anchors, ts)

/-- The entries of a mapping by indentation. -/
def blockEntries : (fuel : Nat) → Anchors → List Token → Option (List (Node × Node) × Rest)
  | 0, _, _ => none
  | fuel + 1, anchors, ts =>
    match ts with
    | .key :: rest => do
      let (k, anchors, rest) ← parseUnless fuel [.key, .value, .blockEnd] true true anchors rest
      let (v, anchors, rest) ← blockValue fuel anchors rest
      let (entries, anchors, rest) ← blockEntries fuel anchors rest
      some ((k, v) :: entries, anchors, rest)
    | .blockEnd :: rest => some ([], anchors, rest)
    | _ => none

/-- The value of an entry of a mapping by indentation. -/
def blockValue : (fuel : Nat) → Anchors → List Token → Option (Node × Rest)
  | 0, _, _ => none
  | fuel + 1, anchors, ts =>
    match ts with
    | .value :: rest => parseUnless fuel [.key, .value, .blockEnd] true true anchors rest
    | _ => absent anchors ts

/-- The items of a sequence in brackets. An item may be a single entry of a
    mapping. -/
def flowItems : (fuel : Nat) → (first : Bool) → Anchors → List Token →
    Option (List Node × Rest)
  | 0, _, _, _ => none
  | fuel + 1, first, anchors, ts => do
    let ts ←
      match ts with
      | .closeSequence :: _ => some ts
      | .comma :: rest => if first then some ts else some rest
      | _ => if first then some ts else none
    match ts with
    | .closeSequence :: rest => some ([], anchors, rest)
    | .key :: rest => do
      let (k, anchors, rest) ←
        if follows rest [.value, .comma, .closeSequence] then absent anchors (rest.drop 1)
        else parse fuel false false anchors rest
      let (v, anchors, rest) ← flowValue fuel [.comma, .closeSequence] anchors rest
      let (nodes, anchors, rest) ← flowItems fuel false anchors rest
      some (.mapping [(k, v)] none :: nodes, anchors, rest)
    | ts => do
      let (node, anchors, rest) ← parse fuel false false anchors ts
      let (nodes, anchors, rest) ← flowItems fuel false anchors rest
      some (node :: nodes, anchors, rest)

/-- The entries of a mapping in braces. A node without a colon is a key whose
    value is not written. -/
def flowEntries : (fuel : Nat) → (first : Bool) → Anchors → List Token →
    Option (List (Node × Node) × Rest)
  | 0, _, _, _ => none
  | fuel + 1, first, anchors, ts => do
    let ts ←
      match ts with
      | .closeMapping :: _ => some ts
      | .comma :: rest => if first then some ts else some rest
      | _ => if first then some ts else none
    match ts with
    | .closeMapping :: rest => some ([], anchors, rest)
    | .key :: rest => do
      let (k, anchors, rest) ←
        parseUnless fuel [.value, .comma, .closeMapping] false false anchors rest
      let (v, anchors, rest) ← flowValue fuel [.comma, .closeMapping] anchors rest
      let (entries, anchors, rest) ← flowEntries fuel false anchors rest
      some ((k, v) :: entries, anchors, rest)
    | ts => do
      let (k, anchors, rest) ← parse fuel false false anchors ts
      let (entries, anchors, rest) ← flowEntries fuel false anchors rest
      some ((k, empty) :: entries, anchors, rest)

/-- The value of an entry in brackets or braces. -/
def flowValue : (fuel : Nat) → (stops : List Token) → Anchors → List Token →
    Option (Node × Rest)
  | 0, _, _, _ => none
  | fuel + 1, stops, anchors, ts =>
    match ts with
    | .value :: rest => parseUnless fuel stops false false anchors rest
    | _ => absent anchors ts

end

end

/-! ### Reading a document -/

/-- Whether a token is a directive. -/
def directive? : Token → Option Directive
  | .directive d => some d
  | _ => none

/-- The root of the only document. The start mark may be left out only in front
    of a document without directives. -/
def ofTokens? (ts : List Token) : Option Node := do
  if ts.isEmpty then some void
  else
    let directives := (ts.map directive?).takeWhile Option.isSome
    let rest := ts.drop directives.length
    let handles ← Tag.handles? (directives.filterMap id)
    let fuel := 4 * ts.length + 4
    let (root, _, rest) ←
      match rest with
      | .documentStart :: rest =>
        if rest.isEmpty || follows rest [.documentStart, .documentEnd]
            || rest.head?.any (fun t => (directive? t).isSome) then absent [] rest
        else parse handles fuel true false [] rest
      | _ => if directives.isEmpty then parse handles fuel true false [] rest else none
    if rest.all (· = .documentEnd) && root.fits maxDepth then some root else none

/-- The root of the document that a text writes. -/
def ofText? (text : String) : Option Node :=
  (Glyph.ofText? text).bind fun gs => (Token.ofGlyphs? gs).bind ofTokens?

end Node

end RecordGate.Yaml

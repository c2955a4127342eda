import RecordGate.Yaml.Tag

/-! # YAML tokens

  A text is cut into tokens. Indentation becomes tokens too: a collection
  written by indentation begins with a start token and ends with `blockEnd`.

  - A mapping key need not be announced: it is known to be one when the colon
    after it is met. So wherever a key could begin, that place among the tokens
    is remembered, and the `key` token is put there afterwards.
  - Such a key stands on one line and is at most 1024 characters long.
  - A key is required where a line begins at the indentation of the mapping it
    would belong to; there the colon must follow.
-/

namespace RecordGate.Yaml

/-- A piece of a YAML text. -/
inductive Token where
  /-- A directive. -/
  | directive (d : Directive)
  /-- Three hyphens. -/
  | documentStart
  /-- Three dots. -/
  | documentEnd
  /-- A sequence by indentation begins. -/
  | blockSequence
  /-- A mapping by indentation begins. -/
  | blockMapping
  /-- A collection by indentation ends. -/
  | blockEnd
  /-- An opening bracket. -/
  | openSequence
  /-- A closing bracket. -/
  | closeSequence
  /-- An opening brace. -/
  | openMapping
  /-- A closing brace. -/
  | closeMapping
  /-- A hyphen in front of an item. -/
  | item
  /-- A comma. -/
  | comma
  /-- A key follows. -/
  | key
  /-- A value follows. -/
  | value
  /-- A node that stands elsewhere. -/
  | alias (name : String)
  /-- A name for the node that follows. -/
  | anchor (name : String)
  /-- A tag for the node that follows. -/
  | tag (tag : TagToken)
  /-- A scalar, with whether it is plain. -/
  | scalar (text : String) (plain : Bool)
  deriving Repr, DecidableEq

/-! ### The state of the reader -/

/-- A place where a mapping key may have begun. -/
structure KeyPlace where
  /-- How many tokens stand before it. -/
  position : Nat
  /-- Whether a colon must follow. -/
  required : Bool
  /-- Its line. -/
  line : Nat
  /-- Its column. -/
  column : Nat
  deriving Repr

/-- What is known after a part of the text. -/
structure Lexer where
  /-- The tokens so far, the last one first. -/
  tokens : List Token
  /-- The columns of the open collections by indentation, the innermost first. -/
  indents : List Nat
  /-- Whether a key may begin here. -/
  keyAllowed : Bool
  /-- Where a key may have begun at this level of brackets and braces. -/
  keyPlace : Option KeyPlace
  /-- The same for the levels around it, the innermost first. -/
  outer : List (Option KeyPlace)
  deriving Repr

namespace Lexer

/-- Nothing is read yet. -/
def start : Lexer :=
  ⟨[], [], true, none, []⟩

/-- Whether brackets or braces are open. -/
def inFlow (x : Lexer) : Bool :=
  !x.outer.isEmpty

/-- Adds a token. -/
def push (x : Lexer) (t : Token) : Lexer :=
  { x with tokens := t :: x.tokens }

/-- Puts a token behind the first `position` ones. -/
def insert (x : Lexer) (position : Nat) (t : Token) : Lexer :=
  let later := x.tokens.length - position
  { x with tokens := x.tokens.take later ++ t :: x.tokens.drop later }

/-- Whether a column lies deeper than the innermost open collection. -/
def isDeeper (x : Lexer) (column : Nat) : Bool :=
  x.indents.head?.all (· < column)

/-- The indentation at which the text of the innermost collection stands. -/
def textIndent (x : Lexer) : Nat :=
  (x.indents.head?.map (· + 1)).getD 0

/-- Opens a collection by indentation, unless one is open at this column. -/
def indent (x : Lexer) (column position : Nat) (t : Token) : Lexer :=
  if !x.inFlow && x.isDeeper column then
    let x := x.insert position t
    { x with indents := column :: x.indents }
  else x

/-- Closes the collections that lie deeper than a column, or all of them. -/
def unindent (column : Option Nat) (x : Lexer) : Lexer :=
  if x.inFlow then x
  else
    let closed := x.indents.takeWhile fun i => column.all (· < i)
    { x with
      tokens := closed.map (fun _ => Token.blockEnd) ++ x.tokens
      indents := x.indents.drop closed.length }

/-- Forgets where a key may have begun; none if a colon had to follow. -/
def dropKey (x : Lexer) : Option Lexer :=
  if x.keyPlace.any KeyPlace.required then none else some { x with keyPlace := none }

/-- Remembers that a key may begin at a glyph. -/
def markKey (x : Lexer) (g : Glyph) : Option Lexer :=
  if x.keyAllowed then do
    let x ← x.dropKey
    let required := !x.inFlow && x.indents.head? = some g.column
    some { x with keyPlace := some ⟨x.tokens.length, required, g.line, g.column⟩ }
  else some x

/-- A place from which no key can reach a glyph. -/
def isStale (g : Glyph) (k : KeyPlace) : Bool :=
  k.line < g.line || k.column + 1024 < g.column

/-- Forgets the places from which no key can reach a glyph; none if at one of
    them a colon had to follow. -/
def dropStale (x : Lexer) (g : Glyph) : Option Lexer :=
  let stale (k : Option KeyPlace) : Bool := k.any (isStale g)
  if (x.keyPlace :: x.outer).any fun k => stale k && k.any KeyPlace.required then none
  else some { x with
    keyPlace := if stale x.keyPlace then none else x.keyPlace
    outer := x.outer.map fun k => if stale k then none else k }

/-- Sets whether a key may begin next. -/
def allowKey (x : Lexer) (allowed : Bool) : Lexer :=
  { x with keyAllowed := allowed }

/-- Drops gaps and comments. The end of a line lets a key begin, except inside
    brackets and braces. A tab is a gap only where no key may begin. -/
def skipGaps (x : Lexer) : (fuel : Nat) → List Glyph → Lexer × List Glyph
  | 0, gs => (x, gs)
  | fuel + 1, gs =>
    let gs := Glyph.skip (fun c => c = ' ' || ((x.inFlow || !x.keyAllowed) && c = '\t')) gs
    let gs := if Glyph.startsWith '#' gs then Glyph.skipLine gs else gs
    if (Glyph.next? gs).any isBreak then
      skipGaps (if x.inFlow then x else x.allowKey true) fuel (gs.drop 1)
    else (x, gs)

/-! ### One token -/

/-- Leaves the content of a document: no collection stays open. -/
def leave (x : Lexer) : Option Lexer := do
  let x ← (x.unindent none).dropKey
  some (x.allowKey false)

/-- An opening bracket or brace. -/
def opening (x : Lexer) (g : Glyph) (t : Token) : Option Lexer := do
  let x ← x.markKey g
  some { x with
    tokens := t :: x.tokens, keyAllowed := true, keyPlace := none, outer := x.keyPlace :: x.outer }

/-- A closing bracket or brace. -/
def closing (x : Lexer) (t : Token) : Option Lexer := do
  let x ← x.dropKey
  match x.outer with
  | k :: outer =>
    some { x with tokens := t :: x.tokens, keyAllowed := false, keyPlace := k, outer }
  | [] => some ((x.push t).allowKey false)

/-- A comma. -/
def comma (x : Lexer) : Option Lexer := do
  let x ← x.dropKey
  some ((x.push .comma).allowKey true)

/-- A hyphen in front of an item. -/
def item (x : Lexer) (g : Glyph) : Option Lexer :=
  if !x.inFlow && !x.keyAllowed then none
  else do
    let x ← (x.indent g.column x.tokens.length .blockSequence).dropKey
    some ((x.push .item).allowKey true)

/-- A question mark in front of a key. -/
def explicitKey (x : Lexer) (g : Glyph) : Option Lexer :=
  if !x.inFlow && !x.keyAllowed then none
  else do
    let x ← (x.indent g.column x.tokens.length .blockMapping).dropKey
    some ((x.push .key).allowKey !x.inFlow)

/-- A colon: what may have been a key now is one. -/
def colon (x : Lexer) (g : Glyph) : Option Lexer :=
  match x.keyPlace with
  | some k =>
    let x := (x.insert k.position .key).indent k.column k.position .blockMapping
    some { x with tokens := .value :: x.tokens, keyPlace := none, keyAllowed := false }
  | none =>
    if !x.inFlow && !x.keyAllowed then none
    else
      let x := x.indent g.column x.tokens.length .blockMapping
      some ((x.push .value).allowKey !x.inFlow)

/-- The name after an ampersand or an asterisk. -/
def name? (gs : List Glyph) : Option (String × List Glyph) :=
  let (word, rest) := Glyph.span isWordChar gs
  let ends := Glyph.atGap rest || (Glyph.next? rest).any fun c => "?:,]\x7d%@\x60".toList.contains c
  if word.isEmpty || !ends then none else some (Glyph.text word, rest)

/-- A character that a plain scalar cannot begin with. -/
def isIndicator (c : Char) : Bool :=
  "-?:,[]\x7b\x7d#&*!|>\x27\"%@\x60".toList.contains c

/-- Whether a plain scalar begins here. A hyphen, a question mark and a colon
    begin one only in front of something. -/
def startsPlain (x : Lexer) (g : Glyph) (rest : List Glyph) : Bool :=
  !(isGap g.char || isIndicator g.char)
    || (g.char = '-' && !(Glyph.next? rest).any isSpacing)
    || (!x.inFlow && (g.char = '?' || g.char = ':') && !Glyph.atGap rest)

/-- One token that begins with a glyph, and what follows it. -/
def token (x : Lexer) (g : Glyph) (rest : List Glyph) : Option (Lexer × List Glyph) :=
  let here := g :: rest
  if g.column = 0 && g.char = '%' then do
    let x ← x.leave
    let (d, rest) ← Tag.directive? rest
    some (x.push (.directive d), rest)
  else if Glyph.atBorder '-' here then x.leave.map fun x => (x.push .documentStart, here.drop 3)
  else if Glyph.atBorder '.' here then x.leave.map fun x => (x.push .documentEnd, here.drop 3)
  else
    match g.char with
    | '[' => (x.opening g .openSequence).map (·, rest)
    | '\x7b' => (x.opening g .openMapping).map (·, rest)
    | ']' => (x.closing .closeSequence).map (·, rest)
    | '\x7d' => (x.closing .closeMapping).map (·, rest)
    | ',' => x.comma.map (·, rest)
    | '*' => do
      let x ← x.markKey g
      let (name, rest) ← name? rest
      some ((x.push (.alias name)).allowKey false, rest)
    | '&' => do
      let x ← x.markKey g
      let (name, rest) ← name? rest
      some ((x.push (.anchor name)).allowKey false, rest)
    | '!' => do
      let x ← x.markKey g
      let (tag, rest) ← Tag.tag? x.inFlow here
      some ((x.push (.tag tag)).allowKey false, rest)
    | '\x27' => do
      let x ← x.markKey g
      let (text, rest) ← Scalar.quoted? true rest
      some ((x.push (.scalar (String.ofList text) false)).allowKey false, rest)
    | '"' => do
      let x ← x.markKey g
      let (text, rest) ← Scalar.quoted? false rest
      some ((x.push (.scalar (String.ofList text) false)).allowKey false, rest)
    | c =>
      if c = '-' && Glyph.atGap rest then (x.item g).map (·, rest)
      else if c = '?' && (x.inFlow || Glyph.atGap rest) then (x.explicitKey g).map (·, rest)
      else if c = ':' && (x.inFlow || Glyph.atGap rest) then (x.colon g).map (·, rest)
      else if (c = '|' || c = '>') && !x.inFlow then do
        let x ← x.dropKey
        let (text, rest) ← Scalar.block? (c = '|') x.indents.head? rest
        some ((x.push (.scalar (String.ofList text) false)).allowKey true, rest)
      else if x.startsPlain g rest then do
        let x ← x.markKey g
        let (text, broken, rest) ← Scalar.plain? x.inFlow x.textIndent here
        some ((x.push (.scalar (String.ofList text) true)).allowKey broken, rest)
      else none

/-- Reads tokens to the end of the text. -/
def run (x : Lexer) : (fuel : Nat) → List Glyph → Option Lexer
  | 0, _ => none
  | fuel + 1, gs =>
    match x.skipGaps (gs.length + 1) gs with
    | (x, []) => x.leave
    | (x, g :: rest) => do
      let x ← x.dropStale g
      let (x, rest) ← (x.unindent (some g.column)).token g rest
      x.run fuel rest

end Lexer

/-- The tokens of a text. -/
def Token.ofGlyphs? (gs : List Glyph) : Option (List Token) :=
  (Lexer.start.run (gs.length + 1) gs).map fun x => x.tokens.reverse

end RecordGate.Yaml

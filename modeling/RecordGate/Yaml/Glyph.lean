/-! # Placed characters

  A YAML text is read as a list of glyphs: characters that know their line
  and column. So a part of the text needs no separate position, and what is
  left of a text is again a list of glyphs.

  - Every way to end a line (`\r\n`, `\r`, `\n` and next line) is one `\n`.
    Line and paragraph separators end a line too, but stay what they are.
  - Columns count characters from zero.
  - A text with a control character or a byte order mark inside is no YAML
    text; one byte order mark in front is dropped.
-/

namespace RecordGate.Yaml

/-- A character with its place. -/
structure Glyph where
  /-- The character. -/
  char : Char
  /-- The line, from zero. -/
  line : Nat
  /-- The column, from zero. -/
  column : Nat
  deriving Repr, DecidableEq

/-! ### Classes of characters -/

/-- A character that a text may contain. -/
def isPrintable (c : Char) : Bool :=
  let n := c.toNat
  n = 0x09 || n = 0x0A || n = 0x0D || (0x20 ≤ n && n ≤ 0x7E) || n = 0x85
    || (0xA0 ≤ n && n ≤ 0xD7FF) || (0xE000 ≤ n && n ≤ 0xFFFD && n != 0xFEFF)
    || 0x10000 ≤ n

/-- A space or a tab. -/
def isSpacing (c : Char) : Bool :=
  c = ' ' || c = '\t'

/-- An end of a line. -/
def isBreak (c : Char) : Bool :=
  c = '\n' || c = '\u2028' || c = '\u2029'

/-- A space, a tab or an end of a line. -/
def isGap (c : Char) : Bool :=
  isSpacing c || isBreak c

/-- A letter, a digit, an underscore or a hyphen. -/
def isWordChar (c : Char) : Bool :=
  c.isAlphanum || c = '_' || c = '-'

/-! ### Lists of glyphs -/

namespace Glyph

/-- The characters of a part of the text. -/
def chars (gs : List Glyph) : List Char :=
  gs.map Glyph.char

/-- The text of a part of the text. -/
def text (gs : List Glyph) : String :=
  String.ofList (chars gs)

/-- The leading glyphs whose characters have a property, and the rest. -/
def span (p : Char → Bool) (gs : List Glyph) : List Glyph × List Glyph :=
  (gs.takeWhile fun g => p g.char, gs.dropWhile fun g => p g.char)

/-- Drops the leading glyphs whose characters have a property. -/
def skip (p : Char → Bool) (gs : List Glyph) : List Glyph :=
  gs.dropWhile fun g => p g.char

/-- The next character. -/
def next? (gs : List Glyph) : Option Char :=
  gs.head?.map Glyph.char

/-- Whether a given character comes next. -/
def startsWith (c : Char) (gs : List Glyph) : Bool :=
  next? gs = some c

/-- Whether a line ends here, or the text. -/
def atLineEnd (gs : List Glyph) : Bool :=
  (next? gs).all isBreak

/-- Whether a word ends here: at a gap or at the end of the text. -/
def atGap (gs : List Glyph) : Bool :=
  (next? gs).all isGap

/-- Drops the rest of the line up to its end. -/
def skipLine (gs : List Glyph) : List Glyph :=
  skip (!isBreak ·) gs

/-- Whether three times the character `c` stands alone at the start of a line,
    which marks the border of a document. -/
def atBorder (c : Char) : List Glyph → Bool
  | g :: h :: i :: rest =>
    g.column = 0 && g.char = c && h.char = c && i.char = c && atGap rest
  | _ => false

/-- Whether any border of a document is here. -/
def atAnyBorder (gs : List Glyph) : Bool :=
  atBorder '-' gs || atBorder '.' gs

/-- Every end of a line as one character. -/
def unifyBreaks : List Char → List Char
  | '\r' :: '\n' :: cs => '\n' :: unifyBreaks cs
  | '\r' :: cs => '\n' :: unifyBreaks cs
  | '\u0085' :: cs => '\n' :: unifyBreaks cs
  | c :: cs => c :: unifyBreaks cs
  | [] => []

/-- Gives each character its place. -/
def place (line column : Nat) : List Char → List Glyph
  | [] => []
  | c :: cs =>
    ⟨c, line, column⟩ :: if isBreak c then place (line + 1) 0 cs else place line (column + 1) cs

/-- The glyphs of a text, unless it has a forbidden character. -/
def ofText? (text : String) : Option (List Glyph) :=
  let cs :=
    match text.toList with
    | '\uFEFF' :: cs => cs
    | cs => cs
  if cs.all isPrintable then some (place 0 0 (unifyBreaks cs)) else none

end Glyph

end RecordGate.Yaml

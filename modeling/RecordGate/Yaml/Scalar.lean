import RecordGate.Hex
import RecordGate.Yaml.Glyph

/-! # The text of scalars

  A scalar is written plain, quoted, or as a block. All three may span lines,
  and all but literal blocks fold: one end of a line becomes a space, and of
  several the first is dropped.

  Each reader gets the glyphs after the indicator that told the style and
  returns the text with the glyphs that follow. The fuel of a reader is
  bounded by the number of glyphs.
-/

namespace RecordGate.Yaml.Scalar

/-! ### Folding -/

/-- What a run of spacing and ends of lines between two words stands for. An
    escaped end of a line is not part of the run but makes it fold. -/
def folded (escaped : Bool) (gap : List Glyph) : List Char :=
  let breaks := (Glyph.chars gap).filter isBreak
  if escaped then breaks
  else
    match breaks with
    | [] => Glyph.chars gap
    | ['\n'] => [' ']
    | '\n' :: more => more
    | breaks => breaks

/-- Whether a run has an end of a line. -/
def breaksLine (gap : List Glyph) : Bool :=
  gap.any fun g => isBreak g.char

/-! ### Plain scalars -/

/-- A character that has a meaning of its own inside brackets and braces. -/
def isFlowIndicator (c : Char) : Bool :=
  c = ',' || c = '[' || c = ']' || c = '\x7b' || c = '\x7d'

/-- A word of a plain scalar: up to a gap, a colon before a gap and, inside
    brackets and braces, up to one of their indicators. There a colon before
    an indicator is an error. -/
def plainWord (inFlow : Bool) : List Glyph → Option (List Char × List Glyph)
  | [] => some ([], [])
  | g :: rest =>
    if isGap g.char then some ([], g :: rest)
    else if inFlow && g.char = ':'
        && (Glyph.next? rest).any (fun c => isFlowIndicator c || c = '?') then none
    else if (g.char = ':' && Glyph.atGap rest) || (inFlow && isFlowIndicator g.char) then
      some ([], g :: rest)
    else (plainWord inFlow rest).map fun (cs, rest) => (g.char :: cs, rest)

/-- Whether a tab stands where indentation is expected on a later line. -/
def tabIndents (indent : Nat) (gap : List Glyph) : Bool :=
  (gap.dropWhile fun g => !isBreak g.char).any fun g => g.char = '\t' && g.column < indent

/-- The words of a plain scalar. `gap` is what came before the next word.
    Returns the text, whether the scalar was left at the end of a line, and
    the rest. -/
def plainWords (inFlow : Bool) (indent : Nat) :
    (fuel : Nat) → (gap : List Glyph) → List Glyph → Option (List Char × Bool × List Glyph)
  | 0, _, _ => none
  | fuel + 1, gap, gs =>
    if Glyph.atAnyBorder gs || Glyph.startsWith '#' gs then some ([], breaksLine gap, gs)
    else do
      let (word, rest) ← plainWord inFlow gs
      if word.isEmpty then some ([], breaksLine gap, gs)
      else
        let text := folded false gap ++ word
        let (gap, rest) := Glyph.span isGap rest
        if gap.isEmpty then some (text, false, rest)
        else if tabIndents indent gap then none
        else if !inFlow && rest.head?.any (fun g => g.column < indent) then
          some (text, breaksLine gap, rest)
        else do
          let (more, broken, rest) ← plainWords inFlow indent fuel gap rest
          some (text ++ more, broken, rest)

/-- A plain scalar whose later lines are indented by at least `indent`. -/
def plain? (inFlow : Bool) (indent : Nat) (gs : List Glyph) :
    Option (List Char × Bool × List Glyph) :=
  plainWords inFlow indent (gs.length + 1) [] gs

/-! ### Quoted scalars -/

/-- The character that an escape of one letter stands for. -/
def escape? (c : Char) : Option Char :=
  match c with
  | '0' => some '\x00'
  | 'a' => some '\x07'
  | 'b' => some '\x08'
  | 't' | '\t' => some '\t'
  | 'n' => some '\n'
  | 'v' => some '\x0b'
  | 'f' => some '\x0c'
  | 'r' => some '\r'
  | 'e' => some '\x1b'
  | ' ' => some ' '
  | '"' => some '"'
  | '/' => some '/'
  | '\\' => some '\\'
  | 'N' => some '\u0085'
  | '_' => some '\u00a0'
  | 'L' => some '\u2028'
  | 'P' => some '\u2029'
  | _ => none

/-- How many hexadecimal digits follow the letter of an escape. -/
def escapeWidth? (c : Char) : Option Nat :=
  match c with
  | 'x' => some 2
  | 'u' => some 4
  | 'U' => some 8
  | _ => none

/-- The number that hexadecimal digits write. -/
def hexNumber? (cs : List Char) : Option Nat :=
  cs.foldlM (fun n c => do
    if c.toNat < 0x80 then
      let d ← Hex.value? (UInt8.ofNat c.toNat)
      some (n * 16 + d.toNat)
    else none) 0

/-- The character with a code point. -/
def charOf? (n : Nat) : Option Char :=
  if n.isValidChar then some (Char.ofNat n) else none

/-- How a run of characters inside quotes ends. -/
inductive RunEnd where
  /-- At the closing quote. -/
  | closed
  /-- At an escaped end of a line. -/
  | escapedBreak
  /-- At a gap or at the end of the text. -/
  | gap
  deriving DecidableEq

/-- The characters in single quotes up to a gap or the closing quote; a quote
    is written twice. -/
def singleRun : List Glyph → List Char × RunEnd × List Glyph
  | [] => ([], .gap, [])
  | g :: rest =>
    if isGap g.char then ([], .gap, g :: rest)
    else if g.char = '\x27' then
      match rest with
      | h :: rest =>
        if h.char = '\x27' then
          let (cs, stop, rest) := singleRun rest
          ('\x27' :: cs, stop, rest)
        else ([], .closed, h :: rest)
      | [] => ([], .closed, [])
    else
      let (cs, stop, rest) := singleRun rest
      (g.char :: cs, stop, rest)

/-- The characters in double quotes up to a gap, an escaped end of a line or
    the closing quote. -/
def doubleRun : (fuel : Nat) → List Glyph → Option (List Char × RunEnd × List Glyph)
  | 0, _ => none
  | _ + 1, [] => some ([], .gap, [])
  | fuel + 1, g :: rest =>
    if isGap g.char then some ([], .gap, g :: rest)
    else if g.char = '"' then some ([], .closed, rest)
    else if g.char = '\\' then
      match rest with
      | [] => none
      | h :: rest =>
        if isBreak h.char then some ([], .escapedBreak, rest)
        else do
          let (c, rest) ←
            match escapeWidth? h.char with
            | none => (escape? h.char).map fun c => (c, rest)
            | some width =>
              let digits := Glyph.chars (rest.take width)
              if digits.length < width then none
              else ((hexNumber? digits).bind charOf?).map fun c => (c, rest.drop width)
          let (cs, stop, rest) ← doubleRun fuel rest
          some (c :: cs, stop, rest)
    else do
      let (cs, stop, rest) ← doubleRun fuel rest
      some (g.char :: cs, stop, rest)

/-- The text of a quoted scalar after its opening quote. No border of a
    document may stand inside. -/
def quotedRuns (single : Bool) : (fuel : Nat) → List Glyph → Option (List Char × List Glyph)
  | 0, _ => none
  | fuel + 1, gs =>
    if Glyph.atAnyBorder gs || gs.isEmpty then none
    else do
      let (run, stop, rest) ← if single then some (singleRun gs) else doubleRun (gs.length + 1) gs
      if stop = .closed then some (run, rest)
      else
        let (gap, rest) := Glyph.span isGap rest
        let (more, rest) ← quotedRuns single fuel rest
        some (run ++ folded (stop = .escapedBreak) gap ++ more, rest)

/-- A quoted scalar after its opening quote. -/
def quoted? (single : Bool) (gs : List Glyph) : Option (List Char × List Glyph) :=
  quotedRuns single (gs.length + 1) gs

/-! ### Block scalars -/

/-- What becomes of the ends of lines after a block. -/
inductive Chomp where
  /-- All are dropped. -/
  | strip
  /-- The first stays. -/
  | clip
  /-- All stay. -/
  | keep
  deriving DecidableEq

/-- The chomping that an indicator asks for. -/
def chomp? (c : Char) : Option Chomp :=
  match c with
  | '-' => some .strip
  | '+' => some .keep
  | _ => none

/-- The indentation that an indicator asks for; zero is an error. -/
def increment? (gs : List Glyph) : Option (Nat × List Glyph) :=
  match gs with
  | g :: rest =>
    if g.char = '0' then none
    else if g.char.isDigit then some (g.char.toNat - 48, rest)
    else some (0, gs)
  | [] => some (0, [])

/-- The header of a block: chomping and indentation in either order. -/
def header? (gs : List Glyph) : Option (Chomp × Nat × List Glyph) := do
  match (Glyph.next? gs).bind chomp? with
  | some chomp =>
    let (increment, rest) ← increment? (gs.drop 1)
    some (chomp, increment, rest)
  | none =>
    let (increment, rest) ← increment? gs
    match (Glyph.next? rest).bind chomp? with
    | some chomp => some (chomp, increment, rest.drop 1)
    | none => some (.clip, increment, rest)

/-- Drops what may stand between an indicator and the end of its line: spacing
    and a comment. Nothing else may. -/
def lineEnd? (gs : List Glyph) : Option (List Glyph) :=
  let gs := Glyph.skip isSpacing gs
  let gs := if Glyph.startsWith '#' gs then Glyph.skipLine gs else gs
  if Glyph.atLineEnd gs then some (gs.drop 1) else none

/-- The empty lines before a line of a block, whose indentation is `indent` or
    yet unknown (zero). Returns their ends, the widest indentation met, and
    the rest, which starts behind the indentation. -/
def emptyLines (indent : Nat) :
    (fuel widest : Nat) → List Glyph → Option (List Char × Nat × List Glyph)
  | 0, _, _ => none
  | fuel + 1, widest, gs =>
    let below (g : Glyph) : Bool := indent = 0 || g.column < indent
    let indented := gs.takeWhile fun g => g.char = ' ' && below g
    let rest := gs.drop indented.length
    let widest := max widest ((indented.getLast?.map fun g => g.column + 1).getD 0)
    match rest with
    | g :: more =>
      if g.char = '\t' && below g then none
      else if isBreak g.char then do
        let (breaks, widest, rest) ← emptyLines indent fuel widest more
        some (g.char :: breaks, widest, rest)
      else some ([], widest, rest)
    | [] => some ([], widest, [])

/-- The lines of a block. `pending` is the end of the last line, `breaks` are
    the ends of the empty lines after it, and `spaced` tells whether it began
    with spacing: such a line is not folded. -/
def blockLines (literal : Bool) (indent : Nat) (chomp : Chomp) :
    (fuel : Nat) → (pending breaks : List Char) → (spaced : Bool) → List Glyph →
      Option (List Char × List Glyph)
  | 0, _, _, _, _ => none
  | fuel + 1, pending, breaks, spaced, gs =>
    if gs.head?.any (fun g => g.column = indent) then do
      let spacedNow := (Glyph.next? gs).any isSpacing
      let joint :=
        if !literal && pending = ['\n'] && !spaced && !spacedNow then
          if breaks.isEmpty then [' '] else breaks
        else pending ++ breaks
      let (line, rest) := Glyph.span (!isBreak ·) gs
      let pending := Glyph.chars (rest.take 1)
      let (breaks, _, rest) ← emptyLines indent (gs.length + 1) 0 (rest.drop 1)
      let (more, rest) ← blockLines literal indent chomp fuel pending breaks spacedNow rest
      some (joint ++ Glyph.chars line ++ more, rest)
    else
      match chomp with
      | .strip => some ([], gs)
      | .clip => some (pending, gs)
      | .keep => some (pending ++ breaks, gs)

/-- A block scalar after its indicator; `outer` is the indentation of what
    holds it. Without an indication the first line that is not empty sets the
    indentation. -/
def block? (literal : Bool) (outer : Option Nat) (gs : List Glyph) :
    Option (List Char × List Glyph) := do
  let (chomp, increment, rest) ← header? gs
  let rest ← lineEnd? rest
  let asked := if increment = 0 then 0 else outer.getD 0 + increment
  let (breaks, widest, rest) ← emptyLines asked (gs.length + 1) 0 rest
  let least := max 1 ((outer.map (· + 1)).getD 0)
  let indent := if asked = 0 then max widest least else asked
  blockLines literal indent chomp (gs.length + 1) [] breaks false rest

end RecordGate.Yaml.Scalar

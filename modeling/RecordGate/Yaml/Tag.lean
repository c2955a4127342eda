import RecordGate.Text.Utf8
import RecordGate.Yaml.Scalar

/-! # Tags

  A tag is written with a handle and a suffix. The directives of a document
  say what a handle stands for; `!` and `!!` stand for something without them.

  - `!name` is a local tag and `!!name` one of the core types.
  - `!<name>` is the name itself.
  - `!` alone asks for no type.
-/

namespace RecordGate.Yaml

/-- A tag as it is written. -/
structure TagToken where
  /-- The handle, empty for a tag that is given in full. -/
  handle : String
  /-- What follows the handle. -/
  suffix : String
  deriving Repr, DecidableEq

/-- A directive in front of a document. -/
inductive Directive where
  /-- The version of YAML. -/
  | version (major minor : Nat)
  /-- What a handle stands for. -/
  | tag (handle stem : String)
  deriving Repr, DecidableEq

namespace Tag

/-! ### Reading tags -/

/-- A character of a tag. Commas and square brackets count only in a tag that
    is given in full. -/
def isTagChar (full : Bool) (c : Char) : Bool :=
  isWordChar c || ";/?:@&=+$.!~*'()".toList.contains c || (full && ",[]".toList.contains c)

/-- The bytes of a run of percent escapes and the rest. -/
def escapes : (fuel : Nat) → List Glyph → Option (List UInt8 × List Glyph)
  | 0, _ => none
  | fuel + 1, gs =>
    if Glyph.startsWith '%' gs then do
      let digits := Glyph.chars ((gs.drop 1).take 2)
      if digits.length < 2 then none
      else
        let n ← Scalar.hexNumber? digits
        let (bytes, rest) ← escapes fuel (gs.drop 3)
        some (UInt8.ofNat n :: bytes, rest)
    else some ([], gs)

/-- The characters of a tag, with percent escapes for the bytes of others. -/
def tagChars (full : Bool) : (fuel : Nat) → List Glyph → Option (List Char × List Glyph)
  | 0, _ => none
  | fuel + 1, gs =>
    if Glyph.startsWith '%' gs then do
      let (bytes, rest) ← escapes (gs.length + 1) gs
      let decoded ← Text.ofBytes? bytes
      let (more, rest) ← tagChars full fuel rest
      some (decoded.toList ++ more, rest)
    else
      match gs with
      | g :: rest =>
        if isTagChar full g.char then
          (tagChars full fuel rest).map fun (more, rest) => (g.char :: more, rest)
        else some ([], gs)
      | [] => some ([], [])

/-- A run of characters of a tag. -/
def run? (full : Bool) (gs : List Glyph) : Option (List Char × List Glyph) :=
  tagChars full (gs.length + 1) gs

/-- A non-empty run of characters of a tag. -/
def someRun? (full : Bool) (gs : List Glyph) : Option (List Char × List Glyph) :=
  (run? full gs).filter fun (cs, _) => !cs.isEmpty

/-- An exclamation mark, word characters and perhaps a second mark. -/
def handle? (gs : List Glyph) : Option (List Char × List Glyph) :=
  if Glyph.startsWith '!' gs then
    let (word, rest) := Glyph.span isWordChar (gs.drop 1)
    if Glyph.startsWith '!' rest then some ('!' :: Glyph.chars word ++ ['!'], rest.drop 1)
    else some ('!' :: Glyph.chars word, rest)
  else none

/-- A tag after which a gap follows or, inside brackets and braces, a comma. -/
def tag? (inFlow : Bool) (gs : List Glyph) : Option (TagToken × List Glyph) := do
  let (token, rest) ←
    if (Glyph.chars (gs.take 2)) = ['!', '<'] then do
      let (name, rest) ← someRun? true (gs.drop 2)
      if Glyph.startsWith '>' rest then
        some (⟨"", String.ofList name⟩, rest.drop 1)
      else none
    else do
      let (handle, rest) ← handle? gs
      if handle.length > 1 && handle.getLast? = some '!' then do
        let (suffix, rest) ← someRun? false rest
        some (⟨String.ofList handle, String.ofList suffix⟩, rest)
      else do
        let (more, rest) ← run? false rest
        let suffix := handle.drop 1 ++ more
        some (if suffix.isEmpty then ⟨"", "!"⟩ else ⟨"!", String.ofList suffix⟩, rest)
  if Glyph.atGap rest || (inFlow && Glyph.startsWith ',' rest) then some (token, rest) else none

/-! ### Reading directives -/

/-- A number of at most nine digits. -/
def versionNumber? (gs : List Glyph) : Option (Nat × List Glyph) :=
  let (digits, rest) := Glyph.span Char.isDigit gs
  if digits.isEmpty || digits.length > 9 then none
  else some ((Glyph.chars digits).foldl (fun n c => n * 10 + (c.toNat - 48)) 0, rest)

/-- A directive after its percent sign, up to the end of its line. -/
def directive? (gs : List Glyph) : Option (Directive × List Glyph) := do
  let (name, rest) := Glyph.span isWordChar gs
  if !Glyph.atGap rest then none
  else
    let rest' := Glyph.skip isSpacing rest
    if Glyph.text name = "YAML" then do
      let (major, rest) ← versionNumber? rest'
      if Glyph.startsWith '.' rest then do
        let (minor, rest) ← versionNumber? (rest.drop 1)
        some (.version major minor, ← Scalar.lineEnd? rest)
      else none
    else if Glyph.text name = "TAG" then do
      let (handle, rest) ← handle? rest'
      if handle != ['!'] && (handle.length = 1 || handle.getLast? != some '!') then none
      else if !(Glyph.next? rest).any isSpacing then none
      else do
        let (stem, rest) ← someRun? true (Glyph.skip isSpacing rest)
        if Glyph.atGap rest then
          some (.tag (String.ofList handle) (String.ofList stem), ← Scalar.lineEnd? rest)
        else none
    else none

/-! ### What handles stand for -/

/-- What the handles without a directive stand for. -/
def standard : List (String × String) :=
  [("!", "!"), ("!!", "tag:yaml.org,2002:")]

/-- What the handles of a document stand for, unless its directives are at
    odds: a handle or the version is given twice, or the version is not 1.1 or
    1.2. -/
def handles? (directives : List Directive) : Option (List (String × String)) :=
  let versions := directives.filterMap fun
    | .version major minor => some (major, minor)
    | .tag _ _ => none
  let tags := directives.filterMap fun
    | .version _ _ => none
    | .tag handle stem => some (handle, stem)
  let known (v : Nat × Nat) : Bool := v.1 = 1 && (v.2 = 1 || v.2 = 2)
  if versions.length ≤ 1 && versions.all known && (tags.map Prod.fst).Nodup then
    some (tags ++ standard)
  else none

/-- The full name of a tag. -/
def resolve? (handles : List (String × String)) (tag : TagToken) : Option String :=
  if tag.handle.isEmpty then some tag.suffix
  else (handles.lookup tag.handle).map (· ++ tag.suffix)

/-- Whether a full name is that of a local tag. -/
def isLocal (name : String) : Bool :=
  name.startsWith "!"

end Tag

end RecordGate.Yaml

import RecordGate.Proofs.NumberReading
import RecordGate.Proofs.SortedRecords

/-! # JSON texts read back

  Every value that JSON can hold has a text that is read as such a value: as this
  value, but for its doubles.

  **Key idea.** A reader takes the text of a value from the front of whatever does
  not continue a number (`Reads`). So the texts of items and members can be put one
  behind the other, and the induction is over how the value was made (`Fits`).

  - `stringBody_escaped`: strings read back.
  - `Series.reads_all`: items and members are read alike, piece by piece, with gaps
    between them or without.
  - `reads_text`: what the text of a value is read as (`echo`).
  - `ofText?_text`, `membersOfText?_text`: the same for whole texts.
  - `fits_of_membersOfText?`: what is read are values that JSON can hold.
-/

namespace RecordGate.Json

/-- A value that JSON can hold: arrays and objects nest at most `depth` deep, and each
    object has its names in order. -/
inductive Fits : Nat → Json → Prop
  | null {depth : Nat} : Fits depth .null
  | bool {depth : Nat} (b : Bool) : Fits depth (.bool b)
  | num {depth : Nat} {n : Number} (h : n.Legal) : Fits depth (.num n)
  | str {depth : Nat} (s : String) : Fits depth (.str s)
  | arr {depth : Nat} {items : List Json} (h : ∀ v ∈ items, Fits depth v) :
      Fits (depth + 1) (.arr items)
  | obj {depth : Nat} {members : Record} (hsorted : members.Sorted)
      (h : ∀ m ∈ members, Fits depth m.2) : Fits (depth + 1) (.obj members)

mutual

/-- What the text of a value is read as. -/
def echo : Json → Json
  | .num n => .num n.echo
  | .arr items => .arr (echoItems items)
  | .obj members => .obj (echoMembers members)
  | .null => .null
  | .bool b => .bool b
  | .str s => .str s

/-- What the texts of items are read as. -/
def echoItems : List Json → List Json
  | [] => []
  | v :: rest => v.echo :: echoItems rest

/-- What the texts of members are read as. -/
def echoMembers : List (String × Json) → List (String × Json)
  | [] => []
  | (k, v) :: rest => (k, v.echo) :: echoMembers rest

end

/-! ### Echoes -/

theorem echoItems_eq (items : List Json) : echoItems items = items.map echo := by
  induction items with
  | nil => rfl
  | cons v rest ih =>
    rw [List.map_cons, ← ih]
    rfl

theorem echoMembers_eq (members : Record) : echoMembers members = members.mapValues echo := by
  induction members with
  | nil => rfl
  | cons m rest ih =>
    show (m.1, m.2.echo) :: echoMembers rest = (m.1, m.2.echo) :: Record.mapValues rest echo
    rw [ih]

mutual

/-- A value is read back if its numbers are. -/
theorem echo_eq_self (v : Json) (h : ∀ n ∈ v.numbers, n.ReadsBack) : v.echo = v := by
  cases v with
  | num n => rw [echo, (h n (List.mem_singleton.mpr rfl)).echo]
  | arr items => rw [echo, echoItems_eq_self items h]
  | obj members => rw [echo, echoMembers_eq_self members h]
  | _ => rfl

theorem echoItems_eq_self (items : List Json) (h : ∀ n ∈ numbersOfItems items, n.ReadsBack) :
    echoItems items = items := by
  cases items with
  | nil => rfl
  | cons v rest =>
    rw [numbersOfItems, List.forall_mem_append] at h
    rw [echoItems, echo_eq_self v h.1, echoItems_eq_self rest h.2]

theorem echoMembers_eq_self (members : Record)
    (h : ∀ n ∈ numbersOfMembers members, n.ReadsBack) : echoMembers members = members := by
  cases members with
  | nil => rfl
  | cons m rest =>
    rw [numbersOfMembers, List.forall_mem_append] at h
    rw [echoMembers, echo_eq_self m.2 h.1, echoMembers_eq_self rest h.2]

end

theorem mem_numbersOfItems {items : List Json} {n : Number} :
    n ∈ numbersOfItems items ↔ ∃ v ∈ items, n ∈ v.numbers := by
  induction items with
  | nil => simp [numbersOfItems]
  | cons v rest ih => simp [numbersOfItems, ih]

theorem mem_numbersOfMembers {members : Record} {n : Number} :
    n ∈ numbersOfMembers members ↔ ∃ m ∈ members, n ∈ m.2.numbers := by
  induction members with
  | nil => simp [numbersOfMembers]
  | cons m rest ih => simp [numbersOfMembers, ih]

/-- The numbers in a value that JSON can hold are numbers that JSON can hold. -/
theorem Fits.legal {depth : Nat} {v : Json} (h : v.Fits depth) : v.Legal := by
  intro n hn
  induction h with
  | num h => exact List.mem_singleton.mp hn ▸ h
  | arr h ih =>
    obtain ⟨v, hv, hn⟩ := mem_numbersOfItems.mp hn
    exact ih v hv hn
  | obj hsorted h ih =>
    obtain ⟨m, hm, hn⟩ := mem_numbersOfMembers.mp hn
    exact ih m hm hn
  | _ => cases hn

/-- The doubles in a value read back. -/
def DoublesReadBack (v : Json) : Prop :=
  ∀ x : Float, .float x ∈ v.numbers → (Number.float x).ReadsBack

/-- A value that JSON can hold is read back if its doubles are. -/
theorem Fits.echo_eq {depth : Nat} {v : Json} (h : v.Fits depth) (hdoubles : v.DoublesReadBack) :
    v.echo = v := by
  apply echo_eq_self
  intro n hn
  cases n with
  | int i => exact Number.readsBack_int (h.legal _ hn)
  | float x => exact hdoubles x hn

/-- The echo of a value that JSON can hold is such a value. -/
theorem Fits.echo {depth : Nat} {v : Json} (h : v.Fits depth) : v.echo.Fits depth := by
  induction h with
  | null => exact .null
  | bool b => exact .bool b
  | num h => exact .num h.legible.2
  | str s => exact .str s
  | arr h ih =>
    rw [Json.echo, echoItems_eq]
    refine .arr fun v hv => ?_
    obtain ⟨w, hw, rfl⟩ := List.mem_map.mp hv
    exact ih w hw
  | obj hsorted h ih =>
    rw [Json.echo, echoMembers_eq]
    refine .obj (hsorted.mapValues Json.echo) fun m hm => ?_
    obtain ⟨w, hw, rfl⟩ := List.mem_map.mp hm
    exact ih w hw

namespace Reader

open Json

variable {cs rest used : List Char} {c : Char} {v : Json} {depth : Nat}

/-! ### Strings -/

theorem hex4?_control : ∀ n < 32, hex4? '0' '0' (Nat.digitChar (n / 16)) (Nat.digitChar (n % 16)) =
    some n := by
  decide

/-- A character is read back from its escaped form. -/
theorem stringBody_escapeChar (c : Char) (cs : List Char) :
    stringBody (escapeChar c ++ cs) = (stringBody cs).map fun (s, rest) => (c :: s, rest) := by
  unfold escapeChar
  split
  case h_8 hquote hslash _ _ _ _ _ =>
    split
    next hcontrol =>
      have hhex := hex4?_control c.toNat hcontrol
      have hlow : ¬ (0xDC00 ≤ c.toNat ∧ c.toNat < 0xE000) := by omega
      have hhigh : ¬ (0xD800 ≤ c.toNat ∧ c.toNat < 0xDC00) := by omega
      simp [stringBody, hhex, hlow, hhigh, Char.ofNat_toNat]
    next hplain =>
      have hslash : c ≠ '\\' := hslash
      rw [List.singleton_append, stringBody.eq_5 c cs hquote (fun _ _ _ _ _ h _ => hslash h)
        (fun _ _ h _ => hslash h), if_neg]
      simp [hslash, hplain]
  all_goals simp [stringBody, escape?]

/-- A string is read back from its escaped form. -/
theorem stringBody_escaped (s rest : List Char) :
    stringBody (s.flatMap escapeChar ++ '"' :: rest) = some (s, rest) := by
  induction s with
  | nil => simp [stringBody]
  | cons c s ih =>
    rw [List.flatMap_cons, List.append_assoc, stringBody_escapeChar, ih]
    rfl

/-! ### Values -/

theorem skipGap_cons (h : isGap c = false) (cs : List Char) : skipGap (c :: cs) = c :: cs :=
  skipGap_append (List.forall_mem_nil _) h cs

/-- A reader that takes a character and what belongs to it. -/
theorem Reads.token {α : Type} {read : Nat → List Char → Option (α × List Char)} {a : α}
    (h : ∀ fuel rest, used.length ≤ fuel → Closed rest →
      read (fuel + 1) (c :: (used ++ rest)) = some (a, rest)) : Reads read (c :: used) a := by
  refine ⟨List.cons_ne_nil _ _, ?_⟩
  intro fuel rest hfuel hrest
  rw [List.length_cons] at hfuel
  obtain ⟨fuel, rfl⟩ := Nat.exists_eq_succ_of_ne_zero (show fuel ≠ 0 by omega)
  exact h fuel rest (by omega) hrest

/-- A reader that does not see gaps takes them with what follows. -/
theorem Reads.behind {α : Type} {read : Nat → List Char → Option (α × List Char)} {a : α}
    {gaps : List Char} (hskip : ∀ fuel cs, read fuel (gaps ++ cs) = read fuel cs)
    (h : Reads read used a) : Reads read (gaps ++ used) a := by
  refine ⟨List.append_ne_nil_of_right_ne_nil _ h.1, ?_⟩
  intro fuel rest hfuel hrest
  rw [List.length_append] at hfuel
  rw [List.append_assoc, hskip]
  exact h.2 fuel rest (by omega) hrest

section gaps
variable {gaps : List Char} (hgaps : ∀ g ∈ gaps, isGap g = true)
include hgaps

theorem skipGap_gaps (cs : List Char) : skipGap (gaps ++ cs) = skipGap cs :=
  List.dropWhile_append_of_pos hgaps

theorem value_gaps (fuel depth : Nat) (cs : List Char) :
    value fuel depth (gaps ++ cs) = value fuel depth cs := by
  cases fuel with
  | zero => rw [value, value]
  | succ fuel =>
    unfold value
    rw [skipGap_gaps hgaps]

theorem member_gaps (fuel depth : Nat) (cs : List Char) :
    member fuel depth (gaps ++ cs) = member fuel depth cs := by
  cases fuel with
  | zero => rw [member, member]
  | succ fuel =>
    unfold member
    rw [skipGap_gaps hgaps]

end gaps

/-- What a value or a member opens with: gaps, and nothing that closes an array or
    an object behind them. -/
def Opens (cs : List Char) : Prop :=
  ∃ gaps c rest, (∀ g ∈ gaps, isGap g = true) ∧ cs = gaps ++ c :: rest ∧
    isGap c = false ∧ c ≠ ']' ∧ c ≠ '\x7d'

theorem opens_cons (hgap : isGap c = false) (hbracket : c ≠ ']') (hbrace : c ≠ '\x7d')
    (rest : List Char) : Opens (c :: rest) :=
  ⟨[], c, rest, List.forall_mem_nil _, rfl, hgap, hbracket, hbrace⟩

theorem Opens.behind {gaps : List Char} (h : Opens cs) (hgaps : ∀ g ∈ gaps, isGap g = true) :
    Opens (gaps ++ cs) := by
  obtain ⟨more, c, rest, hmore, rfl, hc⟩ := h
  refine ⟨gaps ++ more, c, rest, ?_, (List.append_assoc _ _ _).symm, hc⟩
  exact List.forall_mem_append.mpr ⟨hgaps, hmore⟩

/-- The text of a number opens with a digit or a sign. -/
theorem opens_number (h : number cs = some (v, [])) :
    ∃ c rest, cs = c :: rest ∧ (Decimal.isDigit c = true ∨ c = '-') := by
  obtain ⟨c, used, hcs, hc, -⟩ := number_take h closed_nil
  rw [List.append_nil] at hcs
  exact ⟨c, used, hcs, hc⟩

theorem isGap_of_digit {c : Char} (hc : Decimal.isDigit c = true ∨ c = '-') :
    isGap c = false ∧ c ≠ ']' ∧ c ≠ '\x7d' := by
  have hne : ∀ d : Char, Decimal.isDigit d = false → d ≠ '-' → c ≠ d := by
    intro d hdigit hsign heq
    subst heq
    rcases hc with hc | hc
    · rw [hdigit] at hc
      cases hc
    · exact hsign hc
  refine ⟨?_, hne _ (by decide) (by decide), hne _ (by decide) (by decide)⟩
  simp only [isGap, Bool.or_eq_false_iff, decide_eq_false_iff_not]
  exact ⟨⟨⟨hne _ (by decide) (by decide), hne _ (by decide) (by decide)⟩,
    hne _ (by decide) (by decide)⟩, hne _ (by decide) (by decide)⟩

theorem toList_quoted (s : String) :
    (quoted s).toList = '"' :: (s.toList.flatMap escapeChar ++ ['"']) := by
  unfold quoted
  simp

theorem itemTexts_eq (items : List Json) : itemTexts items = items.map text := by
  induction items with
  | nil => rfl
  | cons v items ih =>
    show v.text :: itemTexts items = _
    rw [ih]
    rfl

theorem memberTexts_eq (members : Record) :
    Json.memberTexts members = members.map fun m => quoted m.1 ++ ":" ++ m.2.text := by
  induction members with
  | nil => rfl
  | cons m members ih =>
    show (quoted m.1 ++ ":" ++ m.2.text) :: Json.memberTexts members = _
    rw [ih]
    rfl

/-- The text of an array is that of its items with commas between them. -/
theorem toList_arr (items : List Json) : (Json.arr items).text.toList =
    '[' :: ([','].intercalate (items.map fun v => v.text.toList) ++ [']']) := by
  rw [text, itemTexts_eq, String.toList_append, String.toList_append, String.toList_intercalate,
    List.map_map]
  rfl

theorem toList_obj (members : Record) : (Json.obj members).text.toList =
    '\x7b' :: ([','].intercalate (members.map fun m => (quoted m.1 ++ ":" ++ m.2.text).toList) ++
      ['\x7d']) := by
  rw [text, memberTexts_eq, String.toList_append, String.toList_append, String.toList_intercalate,
    List.map_map]
  rfl

theorem opens_text (h : v.Fits depth) : Opens v.text.toList := by
  cases h with
  | null => exact opens_cons (by decide) (by decide) (by decide) _
  | bool b => cases b <;> exact opens_cons (by decide) (by decide) (by decide) _
  | num h =>
    obtain ⟨c, rest, hcs, hc⟩ := opens_number h.legible.1
    obtain ⟨hgap, hbracket, hbrace⟩ := isGap_of_digit hc
    show Opens (Number.text _).toList
    rw [hcs]
    exact opens_cons hgap hbracket hbrace rest
  | str s =>
    rw [show (Json.str s).text = quoted s from rfl, toList_quoted]
    exact opens_cons (by decide) (by decide) (by decide) _
  | arr h =>
    rw [toList_arr]
    exact opens_cons (by decide) (by decide) (by decide) _
  | obj hsorted h =>
    rw [toList_obj]
    exact opens_cons (by decide) (by decide) (by decide) _

/-! ### Items and members

  Items and members are read alike: pieces with commas between them up to a
  bracket. A piece is a text with what it is read as. Gaps may be in front of any
  piece and of the bracket. -/

/-- Texts behind the first one, each behind a comma. -/
def separated (texts : List (List Char)) : List Char :=
  texts.flatMap (',' :: ·)

/-- What closes an array or an object: its bracket, perhaps behind gaps. -/
def Closes (bracket : Char) (cs : List Char) : Prop :=
  ∃ gaps, (∀ g ∈ gaps, isGap g = true) ∧ cs = gaps ++ [bracket]

theorem closes_bracket (bracket : Char) : Closes bracket [bracket] :=
  ⟨[], List.forall_mem_nil _, rfl⟩

/-- Readers of one piece, of those behind the first one, and of all of them, up to
    a bracket. -/
structure Series {α : Type} (one : Nat → List Char → Option (α × List Char))
    (more all : Nat → List Char → Option (List α × List Char)) (bracket : Char) : Prop where
  closer : bracket = ']' ∨ bracket = '\x7d'
  gaps : ∀ {gaps}, (∀ g ∈ gaps, isGap g = true) → ∀ fuel cs, one fuel (gaps ++ cs) = one fuel cs
  moreClose : ∀ {fuel cs rest}, skipGap cs = bracket :: rest → more (fuel + 1) cs = some ([], rest)
  moreNext : ∀ {fuel cs tail a others as rest}, skipGap cs = ',' :: tail →
    one fuel tail = some (a, others) → more fuel others = some (as, rest) →
    more (fuel + 1) cs = some (a :: as, rest)
  allClose : ∀ {fuel cs rest}, skipGap cs = bracket :: rest → all (fuel + 1) cs = some ([], rest)
  allNext : ∀ {fuel cs c tail a others as rest}, skipGap cs = c :: tail → c ≠ bracket →
    one fuel (c :: tail) = some (a, others) → more fuel others = some (as, rest) →
    all (fuel + 1) cs = some (a :: as, rest)

theorem series_items (depth : Nat) :
    Series (value · depth) (moreItems · depth) (Reader.items · depth) ']' where
  closer := .inl rfl
  gaps hgaps fuel cs := value_gaps hgaps fuel depth cs
  moreClose hskip := by simp [moreItems, hskip]
  moreNext hskip hone hmore := by simp [moreItems, hskip, hone, hmore]
  allClose hskip := by simp [Reader.items, hskip]
  allNext hskip hne hone hmore := by simp [Reader.items, hskip, hne, hone, hmore]

theorem series_members (depth : Nat) :
    Series (member · depth) (moreMembers · depth) (Reader.members · depth) '\x7d' where
  closer := .inr rfl
  gaps hgaps fuel cs := member_gaps hgaps fuel depth cs
  moreClose hskip := by simp [moreMembers, hskip]
  moreNext hskip hone hmore := by simp [moreMembers, hskip, hone, hmore]
  allClose hskip := by simp [Reader.members, hskip]
  allNext hskip hne hone hmore := by simp [Reader.members, hskip, hne, hone, hmore]

section series
variable {α : Type} {one : Nat → List Char → Option (α × List Char)}
  {more all : Nat → List Char → Option (List α × List Char)} {bracket : Char}
  {pieces : List (List Char × α)} {closing : List Char}

/-- What stands behind a piece continues no number, and there is something. -/
theorem Series.closed (hs : Series one more all bracket) (hclosing : Closes bracket closing)
    (texts : List (List Char)) :
    Closed (separated texts ++ closing) ∧ separated texts ++ closing ≠ [] := by
  obtain ⟨gaps, hgaps, rfl⟩ := hclosing
  refine ⟨?_, by simp⟩
  cases texts with
  | nil =>
    have hc : isNumeric bracket = false := by
      rcases hs.closer with rfl | rfl <;> decide
    exact closed_gaps hgaps hc []
  | cons t texts => exact closed_cons.mpr rfl

/-- What closes a series is read as its end. -/
theorem Closes.reads {α : Type} {read : Nat → List Char → Option (List α × List Char)}
    (hclosing : Closes bracket closing) (hb : bracket = ']' ∨ bracket = '\x7d')
    (hread : ∀ {fuel cs rest}, skipGap cs = bracket :: rest →
      read (fuel + 1) cs = some ([], rest)) : Reads read closing [] := by
  obtain ⟨gaps, hgaps, rfl⟩ := hclosing
  have hgap : isGap bracket = false := by
    rcases hb with rfl | rfl <;> decide
  refine ⟨by simp, ?_⟩
  intro fuel rest hfuel _
  rw [List.length_append, List.length_singleton] at hfuel
  obtain ⟨fuel, rfl⟩ := Nat.exists_eq_succ_of_ne_zero (show fuel ≠ 0 by omega)
  apply hread
  rw [List.append_assoc]
  exact skipGap_append hgaps hgap rest

/-- The pieces behind the first one. -/
theorem Series.reads_more (hs : Series one more all bracket) (hclosing : Closes bracket closing)
    (h : ∀ p ∈ pieces, Reads one p.1 p.2) :
    Reads more (separated (pieces.map Prod.fst) ++ closing) (pieces.map Prod.snd) := by
  induction pieces with
  | nil => exact hclosing.reads hs.closer hs.moreClose
  | cons p pieces ih =>
    have hfirst := h p List.mem_cons_self
    have hmore := ih fun p hp => h p (List.mem_cons_of_mem _ hp)
    obtain ⟨hclosed, hne⟩ := hs.closed hclosing (pieces.map Prod.fst)
    have htext : separated ((p :: pieces).map Prod.fst) ++ closing =
        ',' :: (p.1 ++ (separated (pieces.map Prod.fst) ++ closing)) := by
      simp [separated]
    rw [htext]
    -- what stands behind the piece is taken as a whole, by the induction hypothesis
    generalize separated (pieces.map Prod.fst) ++ closing = others at hmore hclosed hne
    apply Reads.token
    intro fuel rest hfuel hrest
    rw [List.length_append] at hfuel
    have hpiece := hfirst.2 fuel (others ++ rest) (by omega) (hclosed.append hne rest)
    have hothers := hmore.2 fuel rest (by omega) hrest
    rw [List.append_assoc]
    exact hs.moreNext (skipGap_cons (by decide) _) hpiece hothers

/-- All pieces. -/
theorem Series.reads_all (hs : Series one more all bracket) (hclosing : Closes bracket closing)
    (h : ∀ p ∈ pieces, Opens p.1 ∧ Reads one p.1 p.2) :
    Reads all ([','].intercalate (pieces.map Prod.fst) ++ closing) (pieces.map Prod.snd) := by
  cases pieces with
  | nil => exact hclosing.reads hs.closer hs.allClose
  | cons p pieces =>
    obtain ⟨⟨gaps, c, tail, hgaps, htext, hc, hends⟩, hfirst⟩ := h p List.mem_cons_self
    have hmore := hs.reads_more hclosing fun p hp => (h p (List.mem_cons_of_mem _ hp)).2
    obtain ⟨hclosed, hne⟩ := hs.closed hclosing (pieces.map Prod.fst)
    have hlist : [','].intercalate ((p :: pieces).map Prod.fst) ++ closing =
        p.1 ++ (separated (pieces.map Prod.fst) ++ closing) := by
      rw [List.map_cons, Text.intercalate_cons, List.append_assoc]
      rfl
    rw [hlist]
    generalize separated (pieces.map Prod.fst) ++ closing = others at hmore hclosed hne
    refine ⟨List.append_ne_nil_of_right_ne_nil _ hne, ?_⟩
    intro fuel rest hfuel hrest
    rw [List.length_append] at hfuel
    have hlength : 0 < others.length := List.length_pos_iff.mpr hne
    have hfilled : 0 < p.1.length := List.length_pos_iff.mpr hfirst.1
    obtain ⟨fuel, rfl⟩ := Nat.exists_eq_succ_of_ne_zero (show fuel ≠ 0 by omega)
    have hpiece := hfirst.2 fuel (others ++ rest) (by omega) (hclosed.append hne rest)
    have hothers := hmore.2 fuel rest (by omega) hrest
    -- the piece is read from behind its gaps, which comes to the same
    rw [htext, List.append_assoc, hs.gaps hgaps] at hpiece
    have hskip : skipGap (p.1 ++ others ++ rest) = c :: (tail ++ (others ++ rest)) := by
      rw [htext, List.append_assoc, List.append_assoc]
      exact skipGap_append hgaps hc _
    have hbracket : c ≠ bracket := by
      rcases hs.closer with rfl | rfl
      · exact hends.1
      · exact hends.2
    exact hs.allNext hskip hbracket hpiece hothers

end series

section pieces
variable {closing : List Char}

/-- A name with its value, which may stand behind gaps. -/
theorem reads_member {k : String} {a : Json} (h : Reads (value · depth) used a) :
    Reads (member · depth) ((quoted k).toList ++ ':' :: used) (k, a) := by
  have htext : (quoted k).toList ++ ':' :: used =
      '"' :: (k.toList.flatMap escapeChar ++ '"' :: ':' :: used) := by
    rw [toList_quoted]
    simp
  rw [htext]
  apply Reads.token
  intro fuel rest hfuel hrest
  simp only [List.length_append, List.length_cons] at hfuel
  have hv := h.2 fuel rest (by omega) hrest
  have hname := stringBody_escaped k.toList (':' :: (used ++ rest))
  simp [member, skipGap_cons, isGap, hname, hv]

/-- An array is read item by item. -/
theorem reads_array {pieces : List (List Char × Json)} (hclosing : Closes ']' closing)
    (h : ∀ p ∈ pieces, Opens p.1 ∧ Reads (value · depth) p.1 p.2) :
    Reads (value · (depth + 1)) ('[' :: ([','].intercalate (pieces.map Prod.fst) ++ closing))
      (.arr (pieces.map Prod.snd)) := by
  have hitems := (series_items depth).reads_all hclosing h
  apply Reads.token
  intro fuel rest hfuel hrest
  have hread := hitems.2 fuel rest hfuel hrest
  simp only [value, skipGap_cons (show isGap '[' = false from rfl), hread]
  rfl

/-- An object is read member by member. -/
theorem reads_object {pieces : List (List Char × String × Json)}
    (hclosing : Closes '\x7d' closing)
    (h : ∀ p ∈ pieces, Opens p.1 ∧ Reads (member · depth) p.1 p.2) :
    Reads (value · (depth + 1)) ('\x7b' :: ([','].intercalate (pieces.map Prod.fst) ++ closing))
      (.obj (Record.ofList (pieces.map Prod.snd))) := by
  have hmembers := (series_members depth).reads_all hclosing h
  apply Reads.token
  intro fuel rest hfuel hrest
  have hread := hmembers.2 fuel rest hfuel hrest
  simp only [value, skipGap_cons (show isGap '\x7b' = false from rfl), hread]
  rfl

end pieces

/-! ### Texts of values -/

/-- The items of an array with their texts. -/
def itemPieces (items : List Json) : List (List Char × Json) :=
  items.map fun v => (v.text.toList, v.echo)

/-- The members of an object with their texts. -/
def memberPieces (members : Record) : List (List Char × String × Json) :=
  members.map fun m => ((quoted m.1 ++ ":" ++ m.2.text).toList, m.1, m.2.echo)

theorem itemPieces_texts (items : List Json) :
    (itemPieces items).map Prod.fst = items.map fun v => v.text.toList := by
  simp [itemPieces, Function.comp_def]

theorem itemPieces_values (items : List Json) :
    (itemPieces items).map Prod.snd = echoItems items := by
  simp [itemPieces, echoItems_eq, Function.comp_def]

theorem memberPieces_texts (members : Record) : (memberPieces members).map Prod.fst =
    members.map fun m => (quoted m.1 ++ ":" ++ m.2.text).toList := by
  simp [memberPieces, Function.comp_def]

theorem memberPieces_values (members : Record) :
    (memberPieces members).map Prod.snd = echoMembers members := by
  simp [memberPieces, echoMembers_eq, Record.mapValues, Function.comp_def]

/-- The members of an object are read if their values are. -/
theorem reads_memberPieces {members : Record}
    (h : ∀ m ∈ members, Reads (value · depth) m.2.text.toList m.2.echo) :
    ∀ p ∈ memberPieces members, Opens p.1 ∧ Reads (member · depth) p.1 p.2 := by
  intro p hp
  obtain ⟨m, hm, rfl⟩ := List.mem_map.mp hp
  have htext : (quoted m.1 ++ ":" ++ m.2.text).toList =
      (quoted m.1).toList ++ ':' :: m.2.text.toList := by
    rw [String.toList_append, String.toList_append, List.append_assoc]
    rfl
  dsimp only
  rw [htext]
  refine ⟨?_, reads_member (h m hm)⟩
  rw [toList_quoted]
  exact opens_cons (by decide) (by decide) (by decide) _

/-- The text of a value is read as its echo. -/
theorem reads_text (h : v.Fits depth) : Reads (value · depth) v.text.toList v.echo := by
  -- the depth goes down with the nesting, so the induction is over `Fits`
  induction h with
  | null =>
    show Reads (value · _) ('n' :: ['u', 'l', 'l']) .null
    apply Reads.token
    intro fuel rest _ _
    simp [value, skipGap_cons, isGap]
  | bool b =>
    cases b with
    | true =>
      show Reads (value · _) ('t' :: ['r', 'u', 'e']) (.bool true)
      apply Reads.token
      intro fuel rest _ _
      simp [value, skipGap_cons, isGap]
    | false =>
      show Reads (value · _) ('f' :: ['a', 'l', 's', 'e']) (.bool false)
      apply Reads.token
      intro fuel rest _ _
      simp [value, skipGap_cons, isGap]
  | @num depth n h =>
    have hread : number n.text.toList = some (.num n.echo, []) := h.legible.1
    obtain ⟨c, used, htext, hc⟩ := opens_number hread
    show Reads (value · depth) n.text.toList (.num n.echo)
    rw [htext] at hread ⊢
    apply Reads.token
    intro fuel rest _ hrest
    rw [value_number (skipGap_cons (isGap_of_digit hc).1 _) hc, ← List.cons_append,
      number_append _ hrest, hread]
    rfl
  | str s =>
    rw [show (Json.str s).text = quoted s from rfl, toList_quoted]
    apply Reads.token
    intro fuel rest _ _
    have hs := stringBody_escaped s.toList rest
    simp [value, skipGap_cons, isGap, hs, echo]
  | @arr depth items h ih =>
    have hpieces : ∀ p ∈ itemPieces items, Opens p.1 ∧ Reads (value · depth) p.1 p.2 := by
      intro p hp
      obtain ⟨v, hv, rfl⟩ := List.mem_map.mp hp
      exact ⟨opens_text (h v hv), ih v hv⟩
    have harray := reads_array (closes_bracket ']') hpieces
    rw [itemPieces_texts, itemPieces_values, ← toList_arr] at harray
    exact harray
  | @obj depth members hsorted h ih =>
    have hobject := reads_object (closes_bracket '\x7d') (reads_memberPieces ih)
    have hrecord : Record.ofList (echoMembers members) = echoMembers members := by
      rw [echoMembers_eq]
      exact Record.ofList_eq_self (hsorted.mapValues echo)
    rw [memberPieces_texts, memberPieces_values, hrecord, ← toList_obj] at hobject
    exact hobject

/-! ### What is read -/

/-- What each reader reads, whatever its fuel was. -/
structure AllFit (fuel : Nat) : Prop where
  value : ∀ {depth cs v rest}, Reader.value fuel depth cs = some (v, rest) → v.Fits depth
  items : ∀ {depth cs vs rest}, Reader.items fuel depth cs = some (vs, rest) →
    ∀ v ∈ vs, v.Fits depth
  moreItems : ∀ {depth cs vs rest}, Reader.moreItems fuel depth cs = some (vs, rest) →
    ∀ v ∈ vs, v.Fits depth
  members : ∀ {depth cs ms rest}, Reader.members fuel depth cs = some (ms, rest) →
    ∀ m ∈ ms, m.2.Fits depth
  moreMembers : ∀ {depth cs ms rest}, Reader.moreMembers fuel depth cs = some (ms, rest) →
    ∀ m ∈ ms, m.2.Fits depth
  member : ∀ {depth cs m rest}, Reader.member fuel depth cs = some (m, rest) → m.2.Fits depth

theorem fits_value {fuel : Nat} (ih : AllFit fuel)
    (h : value (fuel + 1) depth cs = some (v, rest)) : v.Fits depth := by
  unfold value at h
  split at h
  · cases h
    exact .null
  · cases h
    exact .bool true
  · cases h
    exact .bool false
  · obtain ⟨⟨s, r⟩, -, heq⟩ := Option.map_eq_some_iff.mp h
    cases heq
    exact .str _
  · cases depth with
    | zero => cases h
    | succ depth =>
      obtain ⟨⟨vs, r⟩, hvs, heq⟩ := Option.map_eq_some_iff.mp h
      cases heq
      exact .arr (ih.items hvs)
  · cases depth with
    | zero => cases h
    | succ depth =>
      obtain ⟨⟨ms, r⟩, hms, heq⟩ := Option.map_eq_some_iff.mp h
      cases heq
      exact .obj (Record.sorted_ofList ms) fun m hm =>
        ih.members hms m (Record.mem_of_mem_ofList hm)
  · obtain ⟨n, rfl, hn⟩ := number_legal h
    exact .num hn

theorem fits_items {fuel : Nat} (ih : AllFit fuel) {vs : List Json}
    (h : items (fuel + 1) depth cs = some (vs, rest)) : ∀ v ∈ vs, v.Fits depth := by
  unfold items at h
  split at h
  · cases h
    exact List.forall_mem_nil _
  · obtain ⟨⟨v, r⟩, hv, h⟩ := Option.bind_eq_some_iff.mp h
    obtain ⟨⟨vs, r'⟩, hvs, heq⟩ := Option.bind_eq_some_iff.mp h
    cases heq
    exact List.forall_mem_cons.mpr ⟨ih.value hv, ih.moreItems hvs⟩

theorem fits_moreItems {fuel : Nat} (ih : AllFit fuel) {vs : List Json}
    (h : moreItems (fuel + 1) depth cs = some (vs, rest)) : ∀ v ∈ vs, v.Fits depth := by
  unfold moreItems at h
  split at h
  · cases h
    exact List.forall_mem_nil _
  · obtain ⟨⟨v, r⟩, hv, h⟩ := Option.bind_eq_some_iff.mp h
    obtain ⟨⟨vs, r'⟩, hvs, heq⟩ := Option.bind_eq_some_iff.mp h
    cases heq
    exact List.forall_mem_cons.mpr ⟨ih.value hv, ih.moreItems hvs⟩
  · cases h

theorem fits_members {fuel : Nat} (ih : AllFit fuel) {ms : List (String × Json)}
    (h : members (fuel + 1) depth cs = some (ms, rest)) : ∀ m ∈ ms, m.2.Fits depth := by
  unfold members at h
  split at h
  · cases h
    exact List.forall_mem_nil _
  · obtain ⟨⟨m, r⟩, hm, h⟩ := Option.bind_eq_some_iff.mp h
    obtain ⟨⟨ms, r'⟩, hms, heq⟩ := Option.bind_eq_some_iff.mp h
    cases heq
    exact List.forall_mem_cons.mpr ⟨ih.member hm, ih.moreMembers hms⟩

theorem fits_moreMembers {fuel : Nat} (ih : AllFit fuel) {ms : List (String × Json)}
    (h : moreMembers (fuel + 1) depth cs = some (ms, rest)) : ∀ m ∈ ms, m.2.Fits depth := by
  unfold moreMembers at h
  split at h
  · cases h
    exact List.forall_mem_nil _
  · obtain ⟨⟨m, r⟩, hm, h⟩ := Option.bind_eq_some_iff.mp h
    obtain ⟨⟨ms, r'⟩, hms, heq⟩ := Option.bind_eq_some_iff.mp h
    cases heq
    exact List.forall_mem_cons.mpr ⟨ih.member hm, ih.moreMembers hms⟩
  · cases h

theorem fits_member {fuel : Nat} (ih : AllFit fuel) {m : String × Json}
    (h : member (fuel + 1) depth cs = some (m, rest)) : m.2.Fits depth := by
  unfold member at h
  split at h
  · obtain ⟨⟨name, r⟩, -, h⟩ := Option.bind_eq_some_iff.mp h
    dsimp only at h
    split at h
    · obtain ⟨⟨v, r'⟩, hv, heq⟩ := Option.bind_eq_some_iff.mp h
      cases heq
      exact ih.value hv
    · cases h
  · cases h

/-- By induction on the fuel, each reader reads values that JSON can hold. -/
theorem all_fit (fuel : Nat) : AllFit fuel := by
  induction fuel with
  | zero =>
    constructor <;> intro depth cs _ rest h <;>
      simp [Reader.value, Reader.items, Reader.moreItems, Reader.members, Reader.moreMembers,
        Reader.member] at h
  | succ fuel ih =>
    exact ⟨fits_value ih, fits_items ih, fits_moreItems ih, fits_members ih, fits_moreMembers ih,
      fits_member ih⟩

end Reader

/-! ### Whole texts -/

open Reader

variable {v : Json} {text : String} {depth : Nat}

/-- A whole text is read by what takes it up to some gaps. -/
theorem ofChars?_of_reads {used gaps : List Char} (h : Reads (value · maxDepth) used v)
    (hgaps : ∀ g ∈ gaps, isGap g = true) : ofChars? (used ++ gaps) = some v := by
  have hfuel : used.length ≤ fuelFor (used ++ gaps) := by
    unfold fuelFor
    rw [List.length_append]
    omega
  have hclosed : Closed gaps := by
    cases gaps with
    | nil => exact closed_nil
    | cons g gaps => exact closed_cons.mpr (isNumeric_of_isGap (hgaps g List.mem_cons_self))
  have hread : value (fuelFor (used ++ gaps)) maxDepth (used ++ gaps) = some (v, gaps) :=
    h.2 _ gaps hfuel hclosed
  have hskip : skipGap gaps = [] := List.dropWhile_eq_nil_iff.mpr hgaps
  unfold ofChars?
  rw [hread]
  dsimp only
  rw [hskip]
  rfl

/-- The text of a value is read as its echo. -/
theorem ofText?_text (h : v.Fits maxDepth) : ofText? v.text = some v.echo := by
  have hread := ofChars?_of_reads (reads_text h) (List.forall_mem_nil _)
  rw [List.append_nil] at hread
  exact hread

/-- The members of an object are read in the order in which they are written. -/
theorem membersOfText?_text {members : Record} (h : ∀ m ∈ members, m.2.Fits (maxDepth - 1)) :
    membersOfText? (Json.obj members).text = some (echoMembers members) := by
  have hpieces := reads_memberPieces fun m hm => reads_text (h m hm)
  have hmembers := (series_members (maxDepth - 1)).reads_all (closes_bracket '\x7d') hpieces
  rw [memberPieces_texts, memberPieces_values] at hmembers
  have htext := toList_obj members
  unfold membersOfText?
  rw [htext, skipGap_cons (by decide)]
  generalize [','].intercalate (members.map fun m => (quoted m.1 ++ ":" ++ m.2.text).toList) ++
    ['\x7d'] = used at hmembers
  have hfuel : used.length ≤ fuelFor used := by
    unfold fuelFor
    omega
  have hread := hmembers.2 (fuelFor used) [] hfuel closed_nil
  rw [List.append_nil] at hread
  simp only [hread]
  rfl

/-- What an object in a text has for members are values that JSON can hold. -/
theorem fits_of_membersOfText? {members : List (String × Json)}
    (h : membersOfText? text = some members) : ∀ m ∈ members, m.2.Fits (maxDepth - 1) := by
  unfold membersOfText? at h
  split at h
  next tail hskip =>
    split at h
    next ms rest hread =>
      split at h
      · cases h
        exact (all_fit _).members hread
      · cases h
    next => cases h
  next => cases h

end RecordGate.Json

import RecordGate.Auth.Claims
import RecordGate.Proofs.DateText

/-! # What a JSON reader takes

  A reader takes what it reads from the front of a text and returns the rest.

  **Key idea.** What is read does not depend on what follows it, as long as this
  does not continue a number (`Closed`), nor on the fuel, as long as there is one
  unit for each character (`Reads`). So a text can be cut where the reader
  stopped.

  - `number_append`: a number, with what does not continue it.
  - `stringBody_take`: a string up to its closing quote.
  - `all_take`: values, arrays and objects, by one induction on the fuel.
  - `ofText?_trimEnd`: the claims of a text are those of the text without the
    blanks at its end.
-/

namespace RecordGate

namespace Json

namespace Reader

variable {cs rest used : List Char} {v : Json} {c : Char}

/-! ### Texts that do not continue a number -/

/-- A character that may continue a number. -/
def isNumeric (c : Char) : Bool :=
  Decimal.isDigit c || c = '.' || c = 'e' || c = 'E' || c = '+' || c = '-'

/-- A text that does not continue a number. -/
def Closed (cs : List Char) : Prop :=
  ∀ c, cs.head? = some c → isNumeric c = false

theorem closed_nil : Closed [] := nofun

theorem closed_cons : Closed (c :: cs) ↔ isNumeric c = false := by
  unfold Closed
  simp

/-- What a closed text does not open with. -/
theorem Closed.head (h : Closed (c :: cs)) :
    Decimal.isDigit c = false ∧ c ≠ '.' ∧ c ≠ 'e' ∧ c ≠ 'E' ∧ c ≠ '+' ∧ c ≠ '-' := by
  have hnumeric := closed_cons.mp h
  simp only [isNumeric, Bool.or_eq_false_iff, decide_eq_false_iff_not] at hnumeric
  obtain ⟨⟨⟨⟨⟨hdigit, hdot⟩, hlower⟩, hupper⟩, hplus⟩, hminus⟩ := hnumeric
  exact ⟨hdigit, hdot, hlower, hupper, hplus, hminus⟩

theorem stops_cons : Time.Stops (c :: cs) ↔ Decimal.isDigit c = false := by
  unfold Time.Stops
  simp

/-- What does not continue a number does not continue a run of digits. -/
theorem Closed.stops (h : Closed cs) : Time.Stops cs := by
  cases cs with
  | nil => nofun
  | cons c cs => exact stops_cons.mpr h.head.1

/-- A text is closed by its first character. -/
theorem Closed.append (h : Closed used) (hne : used ≠ []) (rest : List Char) :
    Closed (used ++ rest) := by
  cases used with
  | nil => exact absurd rfl hne
  | cons c used => exact closed_cons.mpr (closed_cons.mp h)

/-! ### Numbers -/

theorem spanDigits_append (a : List Char) {b : List Char} (hb : Time.Stops b) :
    Decimal.spanDigits (a ++ b) =
      ((Decimal.spanDigits a).1, (Decimal.spanDigits a).2 ++ b) := by
  unfold Decimal.spanDigits
  induction a with
  | nil =>
    cases b with
    | nil => rfl
    | cons c b =>
      simp [stops_cons.mp hb]
  | cons c a ih =>
    simp only [List.cons_append, List.takeWhile_cons, List.dropWhile_cons]
    split
    · simp only [Prod.mk.injEq] at ih
      simp [ih.1, ih.2]
    · rfl

theorem significand_append (acc taken : Nat) (a : List Char) {b : List Char} (hb : Time.Stops b) :
    significand acc taken (a ++ b) =
      ((significand acc taken a).1, (significand acc taken a).2.1,
        (significand acc taken a).2.2 ++ b) := by
  induction a generalizing acc taken with
  | nil =>
    cases b with
    | nil => rfl
    | cons c b =>
      simp [significand, stops_cons.mp hb]
  | cons c a ih =>
    simp only [List.cons_append, significand]
    split
    · split
      · exact ih _ _
      · rfl
    · rfl

/-- The sign of an exponent and what follows it. -/
def sign : List Char → Bool × List Char
  | '+' :: rest => (false, rest)
  | '-' :: rest => (true, rest)
  | cs => (false, cs)

/-- An exponent after its sign. -/
def unsigned (negative : Bool) (cs : List Char) : Option (Option Int × List Char) :=
  let (digits, rest) := Decimal.spanDigits cs
  if digits.isEmpty then none
  else
    let n : Int := Decimal.ofDigits digits
    some (some (if negative then -n else n), rest)

theorem exponent_cons (c : Char) (cs : List Char) : exponent (c :: cs) =
    if c = 'e' || c = 'E' then unsigned (sign cs).1 (sign cs).2 else some (none, c :: cs) := by
  cases cs with
  | nil => rfl
  | cons d cs =>
    by_cases hplus : d = '+'
    · subst hplus
      rfl
    · by_cases hminus : d = '-'
      · subst hminus
        rfl
      · simp [exponent, sign, unsigned, hplus, hminus]

theorem sign_append (a : List Char) {b : List Char} (hb : Closed b) :
    sign (a ++ b) = ((sign a).1, (sign a).2 ++ b) := by
  cases a with
  | nil =>
    cases b with
    | nil => rfl
    | cons c b =>
      obtain ⟨-, -, -, -, hplus, hminus⟩ := hb.head
      show sign (c :: b) = (false, c :: b)
      simp [sign, hplus, hminus]
  | cons c a =>
    by_cases hplus : c = '+'
    · subst hplus
      rfl
    · by_cases hminus : c = '-'
      · subst hminus
        rfl
      · show sign (c :: (a ++ b)) = _
        simp [sign, hplus, hminus]

theorem exponent_append (a : List Char) {b : List Char} (hb : Closed b) :
    exponent (a ++ b) = (exponent a).map fun (e, r) => (e, r ++ b) := by
  cases a with
  | nil =>
    cases b with
    | nil => rfl
    | cons c b =>
      obtain ⟨-, -, hlower, hupper, -⟩ := hb.head
      simp [exponent, hlower, hupper]
  | cons c a =>
    rw [List.cons_append, exponent_cons, exponent_cons, sign_append a hb]
    split
    · unfold unsigned
      rw [spanDigits_append _ hb.stops]
      dsimp only
      split <;> rfl
    · rfl

/-- The end of a number, from its exponent on. -/
def ending (negative : Bool) (digits taken : Nat) (dropped : List Char) (fractional : Bool)
    (rest : List Char) : Option (Json × List Char) := do
  let (e, rest) ← exponent rest
  match e with
  | none =>
    if !fractional && dropped.isEmpty then some (whole negative digits, rest)
    else (scaled negative digits ((dropped.length : Int) - taken)).map (·, rest)
  | some e => (scaled negative digits ((dropped.length : Int) - taken + e)).map (·, rest)

theorem ending_append (negative : Bool) (digits taken : Nat) (dropped : List Char)
    (fractional : Bool) (a : List Char) {b : List Char} (hb : Closed b) :
    ending negative digits taken dropped fractional (a ++ b) =
      (ending negative digits taken dropped fractional a).map fun (v, r) => (v, r ++ b) := by
  unfold ending
  rw [exponent_append a hb]
  cases exponent a with
  | none => rfl
  | some read =>
    obtain ⟨e, rest⟩ := read
    cases e with
    | none =>
      simp only [Option.map_some, Option.bind_eq_bind, Option.bind_some]
      split
      · rfl
      · simp [Option.map_map, Function.comp_def]
    | some e => simp [Option.map_map, Function.comp_def]

theorem magnitude_append (negative : Bool) (a : List Char) {b : List Char} (hb : Closed b) :
    magnitude negative (a ++ b) = (magnitude negative a).map fun (v, r) => (v, r ++ b) := by
  unfold magnitude
  simp only [spanDigits_append _ hb.stops, significand_append _ _ _ hb.stops]
  split
  · rfl
  · generalize Decimal.spanDigits (significand 0 0 a).2.2 = dropped
    generalize (significand 0 0 a).1 = digits
    obtain ⟨dropped, rest⟩ := dropped
    -- what is left is a point with digits and an exponent, or an exponent alone
    cases rest with
    | nil =>
      have hplain : ending negative digits 0 dropped false ([] ++ b) =
          (ending negative digits 0 dropped false []).map fun (v, r) => (v, r ++ b) :=
        ending_append _ _ _ _ _ _ hb
      cases b with
      | nil => exact hplain
      | cons c b =>
        obtain ⟨-, hpoint, -⟩ := hb.head
        rw [List.nil_append]
        split
        next heq =>
          cases heq
          exact absurd rfl hpoint
        · exact hplain
    | cons c rest =>
      by_cases hpoint : c = '.'
      · subst hpoint
        simp only [List.cons_append, spanDigits_append _ hb.stops, significand_append _ _ _ hb.stops]
        split
        · rfl
        · exact ending_append _ _ _ _ _ _ hb
      · rw [List.cons_append]
        split
        next heq =>
          cases heq
          exact absurd rfl hpoint
        · split
          next heq =>
            cases heq
            exact absurd rfl hpoint
          · exact ending_append _ _ _ _ _ (c :: rest) hb

theorem number_unsigned (h : c ≠ '-') (cs : List Char) :
    number (c :: cs) = magnitude false (c :: cs) := by
  unfold number
  split
  next heq =>
    cases heq
    exact absurd rfl h
  · rfl

/-- What follows a number does not matter for it. -/
theorem number_append (a : List Char) {b : List Char} (hb : Closed b) :
    number (a ++ b) = (number a).map fun (v, r) => (v, r ++ b) := by
  cases a with
  | nil =>
    cases b with
    | nil => rfl
    | cons c b =>
      obtain ⟨-, -, -, -, -, hminus⟩ := hb.head
      rw [List.nil_append, number_unsigned hminus]
      exact magnitude_append false [] hb
  | cons c a =>
    by_cases hminus : c = '-'
    · subst hminus
      exact magnitude_append true a hb
    · rw [List.cons_append, number_unsigned hminus, number_unsigned hminus]
      exact magnitude_append false (c :: a) hb

theorem spanDigits_suffix (cs : List Char) : (Decimal.spanDigits cs).2 <:+ cs :=
  List.dropWhile_suffix _

theorem significand_suffix (acc taken : Nat) (cs : List Char) :
    (significand acc taken cs).2.2 <:+ cs := by
  induction cs generalizing acc taken with
  | nil => exact List.suffix_refl _
  | cons c cs ih =>
    unfold significand
    split
    · dsimp only
      split
      · exact (ih _ _).trans (List.suffix_cons c cs)
      · exact List.suffix_refl _
    · exact List.suffix_refl _

theorem sign_suffix (cs : List Char) : (sign cs).2 <:+ cs := by
  unfold sign
  split
  · exact List.suffix_cons _ _
  · exact List.suffix_cons _ _
  · exact List.suffix_refl _

theorem exponent_suffix {e : Option Int} (h : exponent cs = some (e, rest)) : rest <:+ cs := by
  cases cs with
  | nil =>
    cases h
    exact List.suffix_refl _
  | cons c cs =>
    rw [exponent_cons] at h
    split at h
    · unfold unsigned at h
      dsimp only at h
      split at h
      · cases h
      · cases h
        exact ((spanDigits_suffix _).trans (sign_suffix cs)).trans (List.suffix_cons c cs)
    · cases h
      exact List.suffix_refl _

theorem ending_suffix {negative fractional : Bool} {digits taken : Nat} {dropped : List Char}
    (h : ending negative digits taken dropped fractional cs = some (v, rest)) : rest <:+ cs := by
  unfold ending at h
  obtain ⟨⟨e, r⟩, hexponent, h⟩ := Option.bind_eq_some_iff.mp h
  have hsuffix := exponent_suffix hexponent
  cases e with
  | none =>
    dsimp only at h
    split at h
    · cases h
      exact hsuffix
    · obtain ⟨_, -, heq⟩ := Option.map_eq_some_iff.mp h
      cases heq
      exact hsuffix
  | some e =>
    obtain ⟨_, -, heq⟩ := Option.map_eq_some_iff.mp h
    cases heq
    exact hsuffix

theorem magnitude_suffix {negative : Bool} (h : magnitude negative cs = some (v, rest)) :
    rest <:+ cs := by
  unfold magnitude at h
  dsimp only at h
  split at h
  · cases h
  · have hfirst := (spanDigits_suffix _).trans (significand_suffix 0 0 cs)
    split at h
    next more heq =>
      rw [heq] at hfirst
      split at h
      · cases h
      · have hmore := (spanDigits_suffix _).trans
          (significand_suffix (significand 0 0 cs).1 0 more)
        exact ((ending_suffix h).trans hmore).trans ((List.suffix_cons '.' more).trans hfirst)
    · exact (ending_suffix h).trans hfirst

theorem number_suffix (h : number cs = some (v, rest)) : rest <:+ cs := by
  unfold number at h
  split at h
  · exact (magnitude_suffix h).trans (List.suffix_cons _ _)
  · exact magnitude_suffix h

/-- A number that nothing continues is read from its own characters. -/
theorem number_take (h : number cs = some (v, rest)) (hrest : Closed rest) :
    ∃ c used, cs = c :: used ++ rest ∧ (Decimal.isDigit c = true ∨ c = '-') ∧
      ∀ rest', Closed rest' → number (c :: used ++ rest') = some (v, rest') := by
  obtain ⟨used, rfl⟩ := number_suffix h
  -- the rest was left behind as a whole, so the characters before it leave nothing
  rw [number_append used hrest] at h
  obtain ⟨⟨v', r⟩, hused, heq⟩ := Option.map_eq_some_iff.mp h
  obtain ⟨rfl, hr⟩ := Prod.mk.inj heq
  have hnil : r = [] := List.append_left_eq_self.mp hr
  subst hnil
  cases used with
  | nil => cases hused
  | cons c used =>
    refine ⟨c, used, rfl, ?_, ?_⟩
    · by_cases hopen : Decimal.isDigit c = true ∨ c = '-'
      · exact hopen
      · simp only [not_or, Bool.not_eq_true] at hopen
        rw [number_unsigned hopen.2] at hused
        simp [magnitude, Decimal.spanDigits, hopen.1] at hused
    · intro rest' hrest'
      rw [number_append _ hrest', hused]
      rfl

/-! ### Strings -/

/-- A string is read from its own characters, whatever follows its quote. -/
def Quoted (cs : List Char) (s : List Char) (rest : List Char) : Prop :=
  ∃ used, cs = used ++ rest ∧ ∀ rest', stringBody (used ++ rest') = some (s, rest')

/-- Some characters stand for one, and the string goes on behind them. -/
theorem Quoted.step {s : List Char} {d : Char} (front : List Char)
    (hfront : ∀ cs, stringBody (front ++ cs) = (stringBody cs).map fun (s, r) => (d :: s, r))
    (ih : ∀ {s}, stringBody cs = some (s, rest) → Quoted cs s rest)
    (h : (stringBody cs).map (fun (s, r) => (d :: s, r)) = some (s, rest)) :
    Quoted (front ++ cs) s rest := by
  obtain ⟨⟨t, r⟩, ht, heq⟩ := Option.map_eq_some_iff.mp h
  cases heq
  obtain ⟨used, rfl, hused⟩ := ih ht
  refine ⟨front ++ used, (List.append_assoc _ _ _).symm, ?_⟩
  intro rest'
  rw [List.append_assoc, hfront, hused]
  rfl

theorem stringBody_take {s : List Char} (h : stringBody cs = some (s, rest)) :
    Quoted cs s rest := by
  -- only the quote, both kinds of `\u`, the other escapes and plain characters are read
  fun_induction stringBody cs generalizing s with
  | case2 =>
    cases h
    exact ⟨['"'], rfl, fun _ => rfl⟩
  | case6 a b c d n hn hlow hhigh e f g k tail m hm hpair ih =>
    apply Quoted.step ['\\', 'u', a, b, c, d, '\\', 'u', e, f, g, k] _ ih h
    intro cs
    simp [stringBody, hn, hlow, hhigh, hm, hpair]
  | case9 a b c d tail n hn hlow hhigh ih =>
    apply Quoted.step ['\\', 'u', a, b, c, d] _ ih h
    intro cs
    simp [stringBody, hn, hlow, hhigh]
  | case11 e tail hplain t ht ih =>
    apply Quoted.step ['\\', e] _ ih h
    intro cs
    have hne : e ≠ 'u' := by
      intro hu
      subst hu
      cases ht
    simp [stringBody, hne, ht]
  | case13 t tail hquote hunicode hescape hplain ih =>
    apply Quoted.step [t] _ ih h
    intro cs
    simp only [Bool.or_eq_true, decide_eq_true_eq, not_or] at hplain
    simp [stringBody, hplain]
  | _ => cases h

/-! ### Gaps -/

theorem skipGap_eq_cons (h : skipGap cs = c :: rest) :
    ∃ gaps, cs = gaps ++ c :: rest ∧ (∀ g ∈ gaps, isGap g = true) ∧ isGap c = false := by
  refine ⟨cs.takeWhile isGap, ?_, ?_, ?_⟩
  · rw [← h]
    exact List.takeWhile_append_dropWhile.symm
  · intro g hg
    exact List.all_eq_true.mp List.all_takeWhile g hg
  · have hhead := List.head?_dropWhile_not isGap cs
    rw [show cs.dropWhile isGap = c :: rest from h] at hhead
    simpa using hhead

theorem skipGap_append {gaps : List Char} (hgaps : ∀ g ∈ gaps, isGap g = true)
    (hc : isGap c = false) (rest : List Char) : skipGap (gaps ++ c :: rest) = c :: rest := by
  unfold skipGap
  rw [List.dropWhile_append_of_pos hgaps, List.dropWhile_cons_of_neg (by simp [hc])]

theorem isNumeric_of_isGap (h : isGap c = true) : isNumeric c = false := by
  simp only [isGap, Bool.or_eq_true, decide_eq_true_eq] at h
  rcases h with ((h | h) | h) | h <;> rw [h] <;> decide

/-- A text behind gaps is closed by its first character. -/
theorem closed_gaps {gaps : List Char} (hgaps : ∀ g ∈ gaps, isGap g = true)
    (hc : isNumeric c = false) (cs : List Char) : Closed (gaps ++ c :: cs) := by
  cases gaps with
  | nil => exact closed_cons.mpr hc
  | cons g gaps => exact closed_cons.mpr (isNumeric_of_isGap (hgaps g List.mem_cons_self))

/-! ### Values -/

variable {α : Type} {read : Nat → List Char → Option (α × List Char)} {a : α}
  {fuel depth : Nat} {tok : List Char}

/-- A reader reads these characters, given a unit of fuel for each, whatever
    follows them, unless it continues a number. -/
def Reads (read : Nat → List Char → Option (α × List Char)) (used : List Char) (a : α) : Prop :=
  used ≠ [] ∧ ∀ fuel rest, used.length ≤ fuel → Closed rest →
    read fuel (used ++ rest) = some (a, rest)

/-- A reader takes some characters from the front of a text. -/
def Takes (read : Nat → List Char → Option (α × List Char)) (P : List Char → Prop)
    (cs : List Char) (a : α) (rest : List Char) : Prop :=
  ∃ used, cs = used ++ rest ∧ Reads read used a ∧ P used

/-- Any characters. -/
def Any (_ : List Char) : Prop := True

/-- Characters that continue no number and end with a brace. -/
def Braced (used : List Char) : Prop :=
  Closed used ∧ ∃ front, used = front ++ ['\x7d']

/-- A reader that skips gaps, then takes a character and what belongs to it. -/
theorem Takes.token {P : List Char → Prop} (tok : List Char)
    (hskip : skipGap cs = c :: (tok ++ rest))
    (hP : ∀ gaps, (∀ g ∈ gaps, isGap g = true) → P (gaps ++ c :: tok))
    (hread : ∀ fuel cs rest, tok.length ≤ fuel → skipGap cs = c :: (tok ++ rest) → Closed rest →
      read (fuel + 1) cs = some (a, rest)) :
    Takes read P cs a rest := by
  obtain ⟨gaps, hcs, hgaps, hc⟩ := skipGap_eq_cons hskip
  refine ⟨gaps ++ c :: tok, ?_, ⟨?_, ?_⟩, hP gaps hgaps⟩
  · rw [hcs, List.append_assoc, List.cons_append]
  · exact List.append_ne_nil_of_right_ne_nil _ (List.cons_ne_nil _ _)
  · intro fuel rest' hfuel hrest'
    rw [List.length_append, List.length_cons] at hfuel
    obtain ⟨fuel, rfl⟩ := Nat.exists_eq_succ_of_ne_zero (show fuel ≠ 0 by omega)
    apply hread fuel _ rest' (by omega) _ hrest'
    rw [List.append_assoc, List.cons_append]
    exact skipGap_append hgaps hc _

/-- Nothing but a number is read from a text that opens with a digit or `-`. -/
theorem value_number (hskip : skipGap cs = c :: rest) (hc : Decimal.isDigit c = true ∨ c = '-') :
    value (fuel + 1) depth cs = number (c :: rest) := by
  unfold value
  rw [hskip]
  split
  case h_7 => rfl
  all_goals
    next heq =>
      cases heq
      exact absurd hc (by decide)

/-- What each reader takes, whatever its fuel was. -/
structure AllTake (fuel : Nat) : Prop where
  value : ∀ {depth cs v rest}, Reader.value fuel depth cs = some (v, rest) → Closed rest →
    Takes (Reader.value · depth) Any cs v rest
  items : ∀ {depth cs vs rest}, Reader.items fuel depth cs = some (vs, rest) →
    Takes (Reader.items · depth) Any cs vs rest
  moreItems : ∀ {depth cs vs rest}, Reader.moreItems fuel depth cs = some (vs, rest) →
    Takes (Reader.moreItems · depth) Closed cs vs rest
  members : ∀ {depth cs ms rest}, Reader.members fuel depth cs = some (ms, rest) →
    Takes (Reader.members · depth) Braced cs ms rest
  moreMembers : ∀ {depth cs ms rest}, Reader.moreMembers fuel depth cs = some (ms, rest) →
    Takes (Reader.moreMembers · depth) Braced cs ms rest
  member : ∀ {depth cs m rest}, Reader.member fuel depth cs = some (m, rest) → Closed rest →
    Takes (Reader.member · depth) Closed cs m rest

/-- A value, given what the readers take with less fuel. -/
theorem takes_value (ih : AllTake fuel) (h : value (fuel + 1) depth cs = some (v, rest))
    (hrest : Closed rest) : Takes (value · depth) Any cs v rest := by
  unfold value at h
  split at h
  next tail hskip =>
    cases h
    apply Takes.token ['u', 'l', 'l'] hskip fun _ _ => trivial
    intro fuel cs rest _ hskip _
    simp [value, hskip]
  next tail hskip =>
    cases h
    apply Takes.token ['r', 'u', 'e'] hskip fun _ _ => trivial
    intro fuel cs rest _ hskip _
    simp [value, hskip]
  next tail hskip =>
    cases h
    apply Takes.token ['a', 'l', 's', 'e'] hskip fun _ _ => trivial
    intro fuel cs rest _ hskip _
    simp [value, hskip]
  next tail hskip =>
    obtain ⟨⟨s, r⟩, hs, heq⟩ := Option.map_eq_some_iff.mp h
    cases heq
    obtain ⟨used, rfl, hused⟩ := stringBody_take hs
    apply Takes.token used hskip fun _ _ => trivial
    intro fuel cs rest _ hskip _
    simp [value, hskip, hused]
  next tail hskip =>
    cases depth with
    | zero => cases h
    | succ depth =>
      obtain ⟨⟨vs, r⟩, hvs, heq⟩ := Option.map_eq_some_iff.mp h
      cases heq
      obtain ⟨used, rfl, hused, -⟩ := ih.items hvs
      apply Takes.token used hskip fun _ _ => trivial
      intro fuel cs rest hfuel hskip hrest
      simp [value, hskip, hused.2 fuel rest hfuel hrest]
  next tail hskip =>
    cases depth with
    | zero => cases h
    | succ depth =>
      obtain ⟨⟨ms, r⟩, hms, heq⟩ := Option.map_eq_some_iff.mp h
      cases heq
      obtain ⟨used, rfl, hused, -⟩ := ih.members hms
      apply Takes.token used hskip fun _ _ => trivial
      intro fuel cs rest hfuel hskip hrest
      simp [value, hskip, hused.2 fuel rest hfuel hrest]
  · -- no other value opens like a number
    obtain ⟨c, used, hskip, hc, hused⟩ := number_take h hrest
    apply Takes.token used hskip fun _ _ => trivial
    intro fuel cs rest _ hskip hrest
    rw [value_number hskip hc]
    exact hused rest hrest

/-- The items of an array. -/
theorem takes_items (ih : AllTake fuel)
    {vs : List Json} (h : items (fuel + 1) depth cs = some (vs, rest)) :
    Takes (items · depth) Any cs vs rest := by
  unfold items at h
  split at h
  next tail hskip =>
    cases h
    apply Takes.token [] hskip fun _ _ => trivial
    intro fuel cs rest _ hskip _
    simp only [List.nil_append] at hskip
    simp [items, hskip]
  next hother =>
    obtain ⟨⟨v, rest₁⟩, hv, h⟩ := Option.bind_eq_some_iff.mp h
    obtain ⟨⟨vs, rest₂⟩, hvs, heq⟩ := Option.bind_eq_some_iff.mp h
    cases heq
    obtain ⟨more, rfl, hmore, hclosed⟩ := ih.moreItems hvs
    obtain ⟨first, hskip, hfirst, -⟩ := ih.value hv (hclosed.append hmore.1 rest)
    obtain ⟨c, first, rfl⟩ := List.exists_cons_of_ne_nil hfirst.1
    -- with the bracket in front there would be no items
    have hopen : c ≠ ']' := by
      intro hbracket
      subst hbracket
      exact hother _ hskip
    have hlength : 0 < more.length := List.length_pos_iff.mpr hmore.1
    rw [List.cons_append, ← List.append_assoc] at hskip
    apply Takes.token (first ++ more) hskip fun _ _ => trivial
    intro fuel cs rest hfuel hskip hrest
    rw [List.length_append] at hfuel
    have hv : value fuel depth (c :: (first ++ (more ++ rest))) = some (v, more ++ rest) :=
      hfirst.2 fuel (more ++ rest) (by rw [List.length_cons]; omega)
        (hclosed.append hmore.1 rest)
    have hvs : moreItems fuel depth (more ++ rest) = some (vs, rest) :=
      hmore.2 fuel rest (by omega) hrest
    unfold items
    rw [hskip, List.append_assoc]
    split
    next heq =>
      cases heq
      exact absurd rfl hopen
    · simp only [hv, hvs, Option.bind_eq_bind, Option.bind_some]

/-- The items behind the first one. -/
theorem takes_moreItems (ih : AllTake fuel)
    {vs : List Json} (h : moreItems (fuel + 1) depth cs = some (vs, rest)) :
    Takes (moreItems · depth) Closed cs vs rest := by
  unfold moreItems at h
  split at h
  next tail hskip =>
    cases h
    apply Takes.token [] hskip fun gaps hgaps => closed_gaps hgaps (by decide) _
    intro fuel cs rest _ hskip _
    simp only [List.nil_append] at hskip
    simp [moreItems, hskip]
  next tail hskip =>
    obtain ⟨⟨v, rest₁⟩, hv, h⟩ := Option.bind_eq_some_iff.mp h
    obtain ⟨⟨vs, rest₂⟩, hvs, heq⟩ := Option.bind_eq_some_iff.mp h
    cases heq
    obtain ⟨more, rfl, hmore, hclosed⟩ := ih.moreItems hvs
    obtain ⟨first, rfl, hfirst, -⟩ := ih.value hv (hclosed.append hmore.1 rest)
    rw [← List.append_assoc] at hskip
    apply Takes.token (first ++ more) hskip fun gaps hgaps => closed_gaps hgaps (by decide) _
    intro fuel cs rest hfuel hskip hrest
    rw [List.length_append] at hfuel
    have hv : value fuel depth (first ++ (more ++ rest)) = some (v, more ++ rest) :=
      hfirst.2 fuel (more ++ rest) (by omega) (hclosed.append hmore.1 rest)
    have hvs : moreItems fuel depth (more ++ rest) = some (vs, rest) :=
      hmore.2 fuel rest (by omega) hrest
    rw [List.append_assoc] at hskip
    simp [moreItems, hskip, hv, hvs]
  · cases h

/-- A name with its value. -/
theorem takes_member (ih : AllTake fuel)
    {m : String × Json} (h : member (fuel + 1) depth cs = some (m, rest)) (hrest : Closed rest) :
    Takes (member · depth) Closed cs m rest := by
  unfold member at h
  split at h
  next tail hskip =>
    obtain ⟨⟨name, rest₁⟩, hname, h⟩ := Option.bind_eq_some_iff.mp h
    dsimp only at h
    split at h
    next rest₂ hcolon =>
      obtain ⟨⟨v, rest₃⟩, hv, heq⟩ := Option.bind_eq_some_iff.mp h
      cases heq
      obtain ⟨first, rfl, hfirst, -⟩ := ih.value hv hrest
      obtain ⟨gaps, rfl, hgaps, hc⟩ := skipGap_eq_cons hcolon
      obtain ⟨quoted, rfl, hquoted⟩ := stringBody_take hname
      have htail : ∀ rest, quoted ++ (gaps ++ ':' :: (first ++ rest)) =
          (quoted ++ gaps ++ ':' :: first) ++ rest := fun rest => by simp
      rw [htail] at hskip
      apply Takes.token (quoted ++ gaps ++ ':' :: first) hskip
        fun gaps hgaps => closed_gaps hgaps (by decide) _
      intro fuel cs rest hfuel hskip hrest
      simp only [List.length_append, List.length_cons] at hfuel
      have hv : value fuel depth (first ++ rest) = some (v, rest) :=
        hfirst.2 fuel rest (by omega) hrest
      rw [← htail] at hskip
      simp [member, hskip, hquoted, skipGap_append hgaps hc, hv]
    · cases h
  · cases h

theorem braced_gaps {gaps : List Char} (hgaps : ∀ g ∈ gaps, isGap g = true)
    (hc : isNumeric c = false) (hend : ∃ front, c :: tok = front ++ ['\x7d']) :
    Braced (gaps ++ c :: tok) := by
  obtain ⟨front, hfront⟩ := hend
  exact ⟨closed_gaps hgaps hc tok, gaps ++ front, by rw [hfront, List.append_assoc]⟩

/-- The members of an object. -/
theorem takes_members (ih : AllTake fuel)
    {ms : List (String × Json)} (h : members (fuel + 1) depth cs = some (ms, rest)) :
    Takes (members · depth) Braced cs ms rest := by
  unfold members at h
  split at h
  next tail hskip =>
    cases h
    apply Takes.token [] hskip fun gaps hgaps => braced_gaps hgaps (by decide) ⟨[], rfl⟩
    intro fuel cs rest _ hskip _
    simp only [List.nil_append] at hskip
    simp [members, hskip]
  next hother =>
    obtain ⟨⟨m, rest₁⟩, hm, h⟩ := Option.bind_eq_some_iff.mp h
    obtain ⟨⟨ms, rest₂⟩, hms, heq⟩ := Option.bind_eq_some_iff.mp h
    cases heq
    obtain ⟨more, rfl, hmore, hclosed, front, hfront⟩ := ih.moreMembers hms
    obtain ⟨first, hskip, hfirst, hstart⟩ := ih.member hm (hclosed.append hmore.1 rest)
    obtain ⟨c, first, rfl⟩ := List.exists_cons_of_ne_nil hfirst.1
    -- with the brace in front there would be no members
    have hopen : c ≠ '\x7d' := by
      intro hbrace
      subst hbrace
      exact hother _ hskip
    have hlength : 0 < more.length := List.length_pos_iff.mpr hmore.1
    rw [List.cons_append, ← List.append_assoc] at hskip
    apply Takes.token (first ++ more) hskip fun gaps hgaps => braced_gaps hgaps
      (closed_cons.mp hstart) ⟨c :: first ++ front, by rw [hfront]; simp⟩
    intro fuel cs rest hfuel hskip hrest
    rw [List.length_append] at hfuel
    have hm : member fuel depth (c :: (first ++ (more ++ rest))) = some (m, more ++ rest) :=
      hfirst.2 fuel (more ++ rest) (by rw [List.length_cons]; omega)
        (hclosed.append hmore.1 rest)
    have hms : moreMembers fuel depth (more ++ rest) = some (ms, rest) :=
      hmore.2 fuel rest (by omega) hrest
    unfold members
    rw [hskip, List.append_assoc]
    split
    next heq =>
      cases heq
      exact absurd rfl hopen
    · simp only [hm, hms, Option.bind_eq_bind, Option.bind_some]

/-- The members behind the first one. -/
theorem takes_moreMembers (ih : AllTake fuel)
    {ms : List (String × Json)} (h : moreMembers (fuel + 1) depth cs = some (ms, rest)) :
    Takes (moreMembers · depth) Braced cs ms rest := by
  unfold moreMembers at h
  split at h
  next tail hskip =>
    cases h
    apply Takes.token [] hskip fun gaps hgaps => braced_gaps hgaps (by decide) ⟨[], rfl⟩
    intro fuel cs rest _ hskip _
    simp only [List.nil_append] at hskip
    simp [moreMembers, hskip]
  next tail hskip =>
    obtain ⟨⟨m, rest₁⟩, hm, h⟩ := Option.bind_eq_some_iff.mp h
    obtain ⟨⟨ms, rest₂⟩, hms, heq⟩ := Option.bind_eq_some_iff.mp h
    cases heq
    obtain ⟨more, rfl, hmore, hclosed, front, hfront⟩ := ih.moreMembers hms
    obtain ⟨first, rfl, hfirst, -⟩ := ih.member hm (hclosed.append hmore.1 rest)
    rw [← List.append_assoc] at hskip
    apply Takes.token (first ++ more) hskip fun gaps hgaps => braced_gaps hgaps (by decide)
      ⟨',' :: first ++ front, by rw [hfront]; simp⟩
    intro fuel cs rest hfuel hskip hrest
    rw [List.length_append] at hfuel
    have hm : member fuel depth (first ++ (more ++ rest)) = some (m, more ++ rest) :=
      hfirst.2 fuel (more ++ rest) (by omega) (hclosed.append hmore.1 rest)
    have hms : moreMembers fuel depth (more ++ rest) = some (ms, rest) :=
      hmore.2 fuel rest (by omega) hrest
    rw [List.append_assoc] at hskip
    simp [moreMembers, hskip, hm, hms]
  · cases h

/-- By induction on the fuel, each reader takes what it reads. -/
theorem all_take (fuel : Nat) : AllTake fuel := by
  induction fuel with
  | zero =>
    constructor <;> intro depth cs _ rest h <;>
      simp [Reader.value, Reader.items, Reader.moreItems, Reader.members, Reader.moreMembers,
        Reader.member] at h
  | succ fuel ih =>
    exact ⟨takes_value ih, takes_items ih, takes_moreItems ih, takes_members ih,
      takes_moreMembers ih, takes_member ih⟩

end Reader

/-! ### Whole texts -/

open Reader

variable {ms : List (String × Json)} {text : String}

/-- Gaps are blanks. -/
theorem isBlank_of_isGap {c : Char} (h : isGap c = true) : Text.isBlank c = true := by
  simp only [isGap, Bool.or_eq_true, decide_eq_true_eq] at h
  rcases h with ((h | h) | h) | h <;> rw [h] <;> decide

/-- What gaps alone are made of. -/
theorem blanks_of_skipGap (h : (skipGap rest).isEmpty = true) : Text.Blanks rest := by
  intro c hc
  have hgaps : rest.takeWhile isGap = rest := by
    have hsplit : rest.takeWhile isGap ++ skipGap rest = rest := List.takeWhile_append_dropWhile
    rwa [List.isEmpty_iff.mp h, List.append_nil] at hsplit
  rw [← hgaps] at hc
  exact isBlank_of_isGap (List.all_eq_true.mp List.all_takeWhile c hc)

/-- The blanks at the end of a text do not matter for the object in it. -/
theorem membersOfText?_trimEnd (h : membersOfText? text = some ms) :
    membersOfText? (String.ofList (Text.trimEnd text.toList)) = some ms := by
  unfold membersOfText? at h
  split at h
  next tail hskip =>
    split at h
    next ms' rest hms =>
      split at h
      next hempty =>
        cases h
        obtain ⟨used, rfl, hused, -, front, hfront⟩ := (all_take _).members hms
        obtain ⟨gaps, htext, hgaps, hbrace⟩ := skipGap_eq_cons hskip
        -- the object ends with a brace, so what is trimmed is what the reader left
        have htrim : Text.trimEnd text.toList = gaps ++ '\x7b' :: used := by
          rw [htext, ← List.cons_append, ← List.append_assoc,
            Text.trimEnd_append (blanks_of_skipGap hempty), hfront]
          apply Text.trimEnd_eq_self
          intro c hc
          rw [← List.cons_append, ← List.append_assoc, List.getLast?_concat] at hc
          cases hc
          decide
        have hread : members (fuelFor used) (maxDepth - 1) used = some (ms, []) := by
          have hfuel : used.length ≤ fuelFor used := by
            unfold fuelFor
            omega
          have hread := hused.2 (fuelFor used) [] hfuel closed_nil
          rw [List.append_nil] at hread
          exact hread
        unfold membersOfText?
        rw [String.toList_ofList, htrim, skipGap_append hgaps hbrace]
        simp only [hread]
        rfl
      · cases h
    · cases h
  · cases h

end Json

/-- The blanks at the end of a text do not matter for the claims in it. -/
theorem Claims.ofText?_trimEnd {text : String} {c : Claims} (h : Claims.ofText? text = some c) :
    Claims.ofText? (String.ofList (Text.trimEnd text.toList)) = some c := by
  obtain ⟨ms, hms, hc⟩ := Option.bind_eq_some_iff.mp h
  exact Option.bind_eq_some_iff.mpr ⟨ms, Json.membersOfText?_trimEnd hms, hc⟩

end RecordGate

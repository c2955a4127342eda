import RecordGate.Proofs.Preparation
import RecordGate.Schema.Hook

/-! # The stored form of a type

  A field holds `null` or a value in the form in which its type is stored. The
  form is said here from outside, by `FieldType.Stores`; where values come from
  is settled source by source.

  - `Shape.coerce_stores`: what was coerced is in stored form.
  - `Hook.trimValue_stores`: trimming leaves the form, because neither an
    identifier nor a date has a blank at an end.
  - `stores_date_iff`: a date is in the form of a date or a text, and of no
    other type.
-/

namespace RecordGate

/-- A lower-case hexadecimal digit. -/
def Hex.IsLower (c : Char) : Prop :=
  c ∈ "0123456789abcdef".toList

/-- Twenty-four lower-case hexadecimal digits. -/
def ObjectId.IsText (s : String) : Prop :=
  s.toList.length = 24 ∧ ∀ c ∈ s.toList, Hex.IsLower c

/-- The text of an instant, to the millisecond and in UTC. -/
def Time.IsText (s : String) : Prop :=
  ∃ t : Time.Instant, s = t.stored

/-- A value is in the stored form of a type; `null` is in that of every type. -/
def FieldType.Stores : FieldType → Json → Prop
  | _, .null => True
  | .string, .str _ => True
  | .number, .num _ => True
  | .boolean, .bool _ => True
  | .date, .str s => Time.IsText s
  | .objectId, .str s => ObjectId.IsText s
  | .array, .arr _ => True
  | .objectIds, .arr items => ∀ item ∈ items, ∃ s, item = .str s ∧ ObjectId.IsText s
  | _, _ => False

/-- A text without any blank is trimmed already. -/
theorem Text.trim_eq_self {s : String} (h : ∀ c ∈ s.toList, Text.isBlank c = false) :
    Text.trim s = s := by
  unfold Text.trim
  rw [Text.trimChars_eq_self, String.ofList_toList]
  · intro c hc
    exact h c (List.mem_of_mem_head? hc)
  · intro c hc
    exact h c (List.mem_of_mem_getLast? hc)

/-! ### Texts of identifiers -/

theorem Hex.digit_isLower : ∀ n < 16, Hex.IsLower (Hex.digit n) := by
  unfold Hex.IsLower
  decide

theorem Hex.length_encodeChars (bytes : List UInt8) :
    (Hex.encodeChars bytes).length = 2 * bytes.length := by
  induction bytes with
  | nil => rfl
  | cons b bytes ih =>
    have hbyte : Hex.encodeChars (b :: bytes) = Hex.ofByte b ++ Hex.encodeChars bytes := rfl
    rw [hbyte, List.length_append, ih, List.length_cons]
    show 2 + 2 * bytes.length = 2 * (bytes.length + 1)
    omega

/-- Bytes are written in lower-case digits. -/
theorem Hex.isLower_encodeChars {bytes : List UInt8} {c : Char} (h : c ∈ Hex.encodeChars bytes) :
    Hex.IsLower c := by
  obtain ⟨b, -, hc⟩ := List.mem_flatMap.mp h
  have hb : b.toNat < 256 := b.toNat_lt
  -- a byte is written by its high and then by its low half
  rcases List.mem_cons.mp hc with rfl | hc
  · exact Hex.digit_isLower _ (by omega)
  · rw [List.mem_singleton.mp hc]
    exact Hex.digit_isLower _ (by omega)

/-- An identifier is written in 24 lower-case digits. -/
theorem ObjectId.isText_toHex (id : ObjectId) : ObjectId.IsText id.toHex := by
  obtain ⟨bytes, hlength⟩ := id
  unfold ObjectId.IsText ObjectId.toHex Hex.encode
  rw [String.toList_ofList]
  constructor
  · rw [Hex.length_encodeChars, hlength]
  · intro c hc
    exact Hex.isLower_encodeChars hc

theorem Hex.isBlank_of_isLower {c : Char} (h : Hex.IsLower c) : Text.isBlank c = false := by
  have hlower : "0123456789abcdef".toList.all (fun d => !Text.isBlank d) = true := by decide
  exact (Bool.not_eq_true' _).mp (List.all_eq_true.mp hlower c h)

/-! ### Texts of dates -/

/-- A character that dates are written with. -/
def Time.isMark (c : Char) : Bool :=
  c.isDigit || ['-', '+', 'T', ':', '.', 'Z'].contains c

/-- A text of such characters alone. -/
def Time.Marked (s : String) : Prop :=
  ∀ c ∈ s.toList, Time.isMark c = true

instance (s : String) : Decidable (Time.Marked s) :=
  List.decidableBAll _ s.toList

theorem Time.Marked.append {a b : String} (ha : Time.Marked a) (hb : Time.Marked b) :
    Time.Marked (a ++ b) := by
  intro c hc
  rw [String.toList_append, List.mem_append] at hc
  rcases hc with hc | hc
  · exact ha c hc
  · exact hb c hc

theorem Time.marked_padded (width n : Nat) : Time.Marked (Time.padded width n) := by
  have hzeros : ∀ count, Time.Marked (Decimal.zeros count) := by
    intro count c hc
    unfold Decimal.zeros at hc
    rw [String.toList_ofList] at hc
    rw [List.eq_of_mem_replicate hc]
    rfl
  have hdigits : Time.Marked (Decimal.natText n) := by
    intro c hc
    unfold Decimal.natText at hc
    rw [String.toList_ofList] at hc
    have hdigit : c.isDigit = true := Nat.isDigit_of_mem_toDigits (by omega) (by omega) hc
    unfold Time.isMark
    rw [hdigit, Bool.true_or]
  exact (hzeros _).append hdigits

theorem Time.marked_yearText (year : Int) : Time.Marked (Time.yearText year) := by
  unfold Time.yearText
  split
  · exact Time.marked_padded _ _
  · apply Time.Marked.append
    · split <;> decide
    · exact Time.marked_padded _ _

/-- A date is written in digits and the marks between them. -/
theorem Time.marked_stored (t : Time.Instant) : Time.Marked t.stored := by
  have hdash : Time.Marked "-" := by decide
  have hcolon : Time.Marked ":" := by decide
  have hpad : ∀ width n, Time.Marked (Time.padded width n) := Time.marked_padded
  have hdate : ∀ (year : Int) (month day : Nat), Time.Marked
      (Time.yearText year ++ "-" ++ Time.padded 2 month ++ "-" ++ Time.padded 2 day) := by
    intro year month day
    have hmonth := ((Time.marked_yearText year).append hdash).append (hpad 2 month)
    exact (hmonth.append hdash).append (hpad 2 day)
  have hclock : ∀ (date : String) (hour minute second : Nat), Time.Marked date → Time.Marked
      (date ++ "T" ++ Time.padded 2 hour ++ ":" ++ Time.padded 2 minute ++ ":" ++
        Time.padded 2 second) := by
    intro date hour minute second h
    have hhour := (h.append (b := "T") (by decide)).append (hpad 2 hour)
    have hminute := (hhour.append hcolon).append (hpad 2 minute)
    exact (hminute.append hcolon).append (hpad 2 second)
  have hfraction : ∀ nanos, Time.Marked (Time.Fraction.text .millis nanos) := by
    intro nanos
    exact Time.Marked.append (a := ".") (by decide) (hpad 3 _)
  have hzone : Time.Marked (Time.Offset.text .zulu) := by decide
  exact ((hclock _ _ _ _ (hdate _ _ _)).append (hfraction _)).append hzone

/-- No mark of a date is blank. -/
theorem Time.isBlank_of_isMark {c : Char} (h : Time.isMark c = true) : Text.isBlank c = false := by
  unfold Time.isMark at h
  rw [Bool.or_eq_true] at h
  rcases h with h | h
  · -- the digits lie between two blanks far apart
    have hbounds : 48 ≤ c.toNat ∧ c.toNat ≤ 57 := by
      simp only [Char.isDigit, Bool.and_eq_true, decide_eq_true_eq, ge_iff_le,
        UInt32.le_iff_toNat_le] at h
      exact h
    simp only [Text.isBlank, Bool.or_eq_false_iff, Bool.and_eq_false_iff, decide_eq_false_iff_not]
    omega
  · have hmark : ['-', '+', 'T', ':', '.', 'Z'].all (fun d => !Text.isBlank d) = true := by decide
    exact (Bool.not_eq_true' _).mp (List.all_eq_true.mp hmark c (List.contains_iff_mem.mp h))

/-- A date is no identifier, because there is a dash in it. -/
theorem Time.not_isText_stored (t : Time.Instant) : ¬ ObjectId.IsText t.stored := by
  intro h
  have hdash : '-' ∈ t.stored.toList := by
    unfold Time.Instant.stored Time.Instant.render
    simp
  have hlower : Hex.IsLower '-' := h.2 '-' hdash
  revert hlower
  unfold Hex.IsLower
  decide

/-! ### Values in stored form -/

theorem FieldType.stores_null (type : FieldType) : type.Stores .null := by
  cases type <;> trivial

/-- A date is in the form of a date or of a text, and of nothing else. -/
theorem FieldType.stores_date_iff (type : FieldType) (t : Time.Instant) :
    type.Stores (.str t.stored) ↔ type = .date ∨ type = .string := by
  cases type with
  | date => exact iff_of_true ⟨t, rfl⟩ (.inl rfl)
  | string => exact iff_of_true trivial (.inr rfl)
  | objectId => exact iff_of_false (Time.not_isText_stored t) (by simp)
  | number => exact iff_of_false id (by simp)
  | boolean => exact iff_of_false id (by simp)
  | array => exact iff_of_false id (by simp)
  | objectIds => exact iff_of_false id (by simp)

/-- An identifier is in the form of an identifier and of a text. -/
theorem FieldType.stores_toHex {type : FieldType} (h : type = .objectId ∨ type = .string)
    (id : ObjectId) : type.Stores (.str id.toHex) := by
  rcases h with rfl | rfl
  · exact ObjectId.isText_toHex id
  · trivial

/-- Dropping the blanks around a text leaves its form. -/
theorem Hook.trimValue_stores {type : FieldType} {v : Json} (h : type.Stores v) :
    type.Stores (Hook.trimValue v) := by
  cases v with
  | str s =>
    show type.Stores (.str (Text.trim s))
    cases type with
    | string => trivial
    | date =>
      obtain ⟨t, rfl⟩ := h
      rw [Text.trim_eq_self fun c hc => Time.isBlank_of_isMark (Time.marked_stored t c hc)]
      exact ⟨t, rfl⟩
    | objectId =>
      have hs : ObjectId.IsText s := h
      rw [Text.trim_eq_self fun c hc => Hex.isBlank_of_isLower (hs.2 c hc)]
      exact hs
    | number => exact h
    | boolean => exact h
    | array => exact h
    | objectIds => exact h
  | null => exact h
  | bool b => exact h
  | num n => exact h
  | arr items => exact h
  | obj members => exact h

/-! ### Coerced values -/

namespace Shape

theorem identifierItems_stores {name : String} {items stored : List Json}
    (h : identifierItems name items = .ok stored) :
    FieldType.Stores .objectIds (.arr stored) := by
  induction items generalizing stored with
  | nil =>
    cases h
    intro item hitem
    cases hitem
  | cons item rest ih =>
    obtain ⟨first, hfirst, h⟩ := bind_eq_ok_iff.mp h
    obtain ⟨others, hothers, h⟩ := bind_eq_ok_iff.mp h
    cases h
    intro stored hstored
    rcases List.mem_cons.mp hstored with rfl | hstored
    · unfold identifierItem at hfirst
      split at hfirst
      · obtain ⟨id, rfl⟩ := identifier_eq_ok hfirst
        exact ⟨id.toHex, rfl, ObjectId.isText_toHex id⟩
      · cases hfirst
    · exact ih hothers stored hstored

theorem coercePresent_stores {name : String} {type : FieldType} {value stored : Json}
    (h : coercePresent name type value = .ok stored) : type.Stores stored := by
  unfold coercePresent at h
  split at h
  case h_10 =>
    obtain ⟨id, rfl⟩ := identifier_eq_ok h
    exact ObjectId.isText_toHex id
  case h_12 items =>
    cases hitems : identifierItems name items with
    | ok stored' =>
      rw [hitems] at h
      cases h
      exact identifierItems_stores hitems
    | error e =>
      rw [hitems] at h
      cases h
  case h_13 => cases h
  -- what is left is taken as it stands, or read from a text or a number
  all_goals try split at h
  all_goals cases h
  all_goals first | trivial | exact ⟨_, rfl⟩

/-- What was coerced is in the stored form of its type. -/
theorem coerce_stores {name : String} {type : FieldType} {value stored : Json}
    (h : coerce name type value = .ok stored) : type.Stores stored := by
  unfold coerce at h
  split at h
  · cases h
    exact type.stores_null
  · exact coercePresent_stores h

end Shape

end RecordGate

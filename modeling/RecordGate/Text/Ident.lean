/-! # Identifiers

  Labels, collections, fields and path parameters are named by identifiers:
  an ASCII letter or `_`, then ASCII letters, digits and `_`.

  - `Identifier` spells the class out, and `isIdent` decides it
    (`isIdent_iff`).
-/

namespace RecordGate.Text

/-- A character that may open an identifier. -/
def isIdentStart (c : Char) : Bool :=
  c.isAlpha || c = '_'

/-- A character that may continue an identifier. -/
def isIdentRest (c : Char) : Bool :=
  c.isAlphanum || c = '_'

/-- A non-empty run of identifier characters that does not open with a digit. -/
def isIdentChars : List Char → Bool
  | [] => false
  | c :: cs => isIdentStart c && cs.all isIdentRest

/-- `isIdentChars` on strings. -/
def isIdent (s : String) : Bool :=
  isIdentChars s.toList

/-! ### The class -/

/-- A character of `[A-Za-z_]`. -/
def IsLetter (c : Char) : Prop :=
  ('A' ≤ c ∧ c ≤ 'Z') ∨ ('a' ≤ c ∧ c ≤ 'z') ∨ c = '_'

/-- A character of `[0-9]`. -/
def IsDigit (c : Char) : Prop :=
  '0' ≤ c ∧ c ≤ '9'

instance (c : Char) : Decidable (IsLetter c) :=
  inferInstanceAs (Decidable (_ ∨ _))

instance (c : Char) : Decidable (IsDigit c) :=
  inferInstanceAs (Decidable (_ ∧ _))

/-- A text of `[A-Za-z_][A-Za-z0-9_]*`. -/
inductive Identifier : List Char → Prop where
  | intro {first : Char} {rest : List Char} (hfirst : IsLetter first)
      (hrest : ∀ c ∈ rest, IsLetter c ∨ IsDigit c) : Identifier (first :: rest)

theorem isIdentStart_iff {c : Char} : isIdentStart c = true ↔ IsLetter c := by
  have hupper : c.isUpper = true ↔ 'A' ≤ c ∧ c ≤ 'Z' := decide_eq_true_iff
  have hlower : c.isLower = true ↔ 'a' ≤ c ∧ c ≤ 'z' := by
    show (decide ('a' ≤ c) && decide (c ≤ 'z')) = true ↔ _
    rw [← Bool.decide_and, decide_eq_true_iff]
  show ((c.isUpper || c.isLower) || decide (c = '_')) = true ↔ _
  rw [Bool.or_eq_true, Bool.or_eq_true, hupper, hlower, decide_eq_true_iff]
  exact or_assoc

theorem isIdentRest_iff {c : Char} : isIdentRest c = true ↔ IsLetter c ∨ IsDigit c := by
  have hdigit : c.isDigit = true ↔ IsDigit c := by
    show (decide ('0' ≤ c) && decide (c ≤ '9')) = true ↔ _
    rw [← Bool.decide_and, decide_eq_true_iff, IsDigit]
  rw [← isIdentStart_iff, ← hdigit]
  show ((c.isAlpha || c.isDigit) || decide (c = '_')) = true ↔
    (c.isAlpha || decide (c = '_')) = true ∨ c.isDigit = true
  simp only [Bool.or_eq_true]
  exact or_right_comm

theorem isIdentChars_iff {cs : List Char} : isIdentChars cs = true ↔ Identifier cs := by
  cases cs with
  | nil => exact ⟨nofun, nofun⟩
  | cons first rest =>
    simp only [isIdentChars, Bool.and_eq_true, isIdentStart_iff, List.all_eq_true, isIdentRest_iff]
    exact ⟨fun ⟨hfirst, hrest⟩ => .intro hfirst hrest, fun | .intro hfirst hrest => ⟨hfirst, hrest⟩⟩

/-- The check decides the class. -/
theorem isIdent_iff {s : String} : isIdent s = true ↔ Identifier s.toList :=
  isIdentChars_iff

theorem Identifier.mem {cs : List Char} (h : Identifier cs) {c : Char} (hc : c ∈ cs) :
    IsLetter c ∨ IsDigit c := by
  cases h with
  | intro hfirst hrest =>
    rcases List.mem_cons.mp hc with rfl | hc
    · exact .inl hfirst
    · exact hrest c hc

/-- No other character is in an identifier. -/
theorem Identifier.not_mem {cs : List Char} (h : Identifier cs) {c : Char}
    (hc : ¬(IsLetter c ∨ IsDigit c)) : c ∉ cs :=
  fun hmem => hc (h.mem hmem)

end RecordGate.Text

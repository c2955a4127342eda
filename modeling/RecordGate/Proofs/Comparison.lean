import RecordGate.Proofs.Recoercion
import RecordGate.Proofs.Tables
import RecordGate.Proofs.WholeDoubles

/-! # Which record a path names

  A path parameter is text. It is coerced to the type of a field and then held
  against the value that a record has there: in memory by equality of JSON
  values, in SQL by equality of what SQL makes of them.

  **Key idea.** A text is coerced to a text, a boolean or a number, never to an
  array. Texts and booleans are compared in the same way by both, and so are
  numbers of one kind. Numbers of different kinds are never the same value in
  memory, but equal in SQL if they have the same value (`Crosses`).

  - `equal_ofJson`: SQL's equality, as that of memory and what crosses.
  - `path_names` says when both accept a record, and that they agree unless a
    whole number is held against a double; `whole_path_misses` is such a case.
-/

namespace RecordGate

/-! ### Coerced values -/

namespace Shape

variable {name text : String} {type : FieldType} {raw w k : Json} {n : Int}

/-- A whole number read from a text has 64 bits with its sign. -/
theorem numberOf?_signed (h : numberOf? text = some (.int n)) :
    (Number.int n).signed? = some n := by
  unfold numberOf? at h
  dsimp only at h
  split at h
  next i hwhole =>
    cases h
    obtain ⟨m, -, hm⟩ := Option.bind_eq_some_iff.mp hwhole
    obtain ⟨rfl, hrange⟩ := Number.signed?_eq_some.mp hm
    exact hm
  · obtain ⟨x, -, hx⟩ := Option.map_eq_some_iff.mp h
    cases hx

/-- What a value that is present and a text can be coerced to for one field: two
    texts, two booleans or two numbers. -/
inductive Pair : Json → Json → Prop where
  | texts (a b : String) : Pair (.str a) (.str b)
  | flags (a b : Bool) : Pair (.bool a) (.bool b)
  /-- A whole number in a record has 64 bits, one in a path with its sign. -/
  | numbers (a b : Number) (ha : ∀ n, a = .int n → Number.InRange n)
      (hb : ∀ n, b = .int n → b.signed? = some n) : Pair (.num a) (.num b)

theorem coerce_str_signed (h : coerce name .number (.str text) = .ok (.num (.int n))) :
    (Number.int n).signed? = some n := by
  unfold coerce coercePresent at h
  dsimp only at h
  split at h
  next a ha =>
    cases h
    exact numberOf?_signed ha
  · cases h

/-- A whole number of a record has 64 bits, if that is so of the value that was
    coerced. -/
theorem coerce_number_inRange (hraw : ∀ n, raw = .num (.int n) → Number.InRange n)
    (h : coerce name .number raw = .ok (.num (.int n))) : Number.InRange n := by
  cases raw with
  | num a =>
    cases h
    exact hraw n rfl
  | str text =>
    obtain ⟨-, hrange⟩ := Number.signed?_eq_some.mp (coerce_str_signed h)
    unfold Number.InRange
    omega
  | null => cases h
  | bool b => cases h
  | arr items => cases h
  | obj members => cases h

/-- A text is never coerced to nothing. -/
theorem coerce_str_ne_null (h : coerce name type (.str text) = .ok k) : k ≠ .null := by
  rintro rfl
  unfold coerce coercePresent identifier at h
  cases type <;> dsimp only at h
  all_goals try split at h
  all_goals cases h

theorem stores_str {v : Json} (htype : type = .string ∨ type = .date ∨ type = .objectId)
    (h : type.Stores v) (hv : v ≠ .null) : ∃ s, v = .str s := by
  cases v with
  | str s => exact ⟨s, rfl⟩
  | null => exact absurd rfl hv
  | _ => rcases htype with rfl | rfl | rfl <;> exact h.elim

theorem stores_bool {v : Json} (h : FieldType.boolean.Stores v) (hv : v ≠ .null) :
    ∃ b, v = .bool b := by
  cases v with
  | bool b => exact ⟨b, rfl⟩
  | null => exact absurd rfl hv
  | _ => exact h.elim

theorem stores_num {v : Json} (h : FieldType.number.Stores v) (hv : v ≠ .null) :
    ∃ a, v = .num a := by
  cases v with
  | num a => exact ⟨a, rfl⟩
  | null => exact absurd rfl hv
  | _ => exact h.elim

/-- A stored value and one from a path are a pair. -/
theorem coerced_pair (hraw : ∀ n, raw = .num (.int n) → Number.InRange n)
    (hw : coerce name type raw = .ok w) (hpresent : w ≠ .null)
    (hk : coerce name type (.str text) = .ok k) : Pair w k := by
  have hw' := coerce_stores hw
  have hk' := coerce_stores hk
  have hpresent' := coerce_str_ne_null hk
  have htexts : type = .string ∨ type = .date ∨ type = .objectId → Pair w k := by
    intro htype
    obtain ⟨a, rfl⟩ := stores_str htype hw' hpresent
    obtain ⟨b, rfl⟩ := stores_str htype hk' hpresent'
    exact .texts a b
  cases type with
  | string => exact htexts (.inl rfl)
  | date => exact htexts (.inr (.inl rfl))
  | objectId => exact htexts (.inr (.inr rfl))
  | boolean =>
    obtain ⟨a, rfl⟩ := stores_bool hw' hpresent
    obtain ⟨b, rfl⟩ := stores_bool hk' hpresent'
    exact .flags a b
  | number =>
    obtain ⟨a, rfl⟩ := stores_num hw' hpresent
    obtain ⟨b, rfl⟩ := stores_num hk' hpresent'
    refine .numbers a b ?_ ?_
    · rintro n rfl
      exact coerce_number_inRange hraw hw
    · rintro n rfl
      exact coerce_str_signed hk
  | array => cases hk
  | objectIds => cases hk

end Shape

/-! ### Two equalities -/

namespace Storage.Sql

variable {name text : String} {type : FieldType} {raw w k : Json} {r : Record}

/-- A whole number and a double of the same value: exactly, if the number has 64
    bits with its sign, and as doubles otherwise. -/
def SameValue (n : Int) (x : Float) : Prop :=
  match (Number.int n).signed? with
  | some i => wholeOf? x = some i
  | none => (Float.ofInt n == x) = true

/-- One value is a whole number and the other a double, and they have the same
    value. -/
def Crosses : Json → Json → Prop
  | .num (.int n), .num (.float x) | .num (.float x), .num (.int n) => SameValue n x
  | _, _ => False

theorem ofJson_int_signed {n i : Int} (h : (Number.int n).signed? = some i) :
    Value.ofJson (.num (.int n)) = .int i := by
  unfold Value.ofJson
  dsimp only
  rw [h]

theorem ofJson_int_wide {n : Int} (h : (Number.int n).signed? = none) :
    Value.ofJson (.num (.int n)) = .real (Float.ofInt n) := by
  unfold Value.ofJson
  dsimp only
  rw [h]
  rfl

theorem ofJson_float (x : Float) : Value.ofJson (.num (.float x)) = .real x := rfl

/-- A whole number beyond those with a sign does not become one of them as a
    double. -/
theorem equal_wide {n m : Int} (hn : Number.InRange n) (hwide : (Number.int n).signed? = none)
    (hm : (Number.int m).signed? = some m) : wholeOf? (Float.ofInt n) ≠ some m ∧ n ≠ m := by
  obtain ⟨-, -, hmax⟩ := Number.signed?_eq_some.mp hm
  have hlow : 2 ^ 63 ≤ n := by
    by_contra hsmall
    unfold Number.InRange at hn
    have hsigned : (Number.int n).signed? = some n :=
      Number.signed?_eq_some.mpr ⟨rfl, by omega, by omega⟩
    rw [hwide] at hsigned
    cases hsigned
  refine ⟨fun hwhole => ?_, by omega⟩
  have hback := wholeOf?_ofInt hlow hn.2 hwhole
  omega

/-- A value is held against one from a path in SQL as it is in memory, and what
    crosses is equal as well. -/
theorem equal_ofJson (h : Shape.Pair w k) :
    (Value.ofJson w).equal (Value.ofJson k) = true ↔ w.same k = true ∨ Crosses w k := by
  cases h with
  | texts a b => simp [Value.ofJson, Value.equal, Json.same, Crosses]
  | flags a b => cases a <;> cases b <;> simp [Value.ofJson, Value.equal, Json.same, Crosses]
  | numbers a b ha hb =>
    cases a with
    | int n =>
      cases hn : (Number.int n).signed? with
      | some i =>
        obtain ⟨rfl, -⟩ := Number.signed?_eq_some.mp hn
        cases b with
        | int m =>
          rw [ofJson_int_signed hn, ofJson_int_signed (hb m rfl)]
          simp [Value.equal, Json.same, Number.same, Crosses]
        | float x =>
          rw [ofJson_int_signed hn, ofJson_float]
          simp [Value.equal, Json.same, Number.same, Crosses, SameValue, hn]
      | none =>
        cases b with
        | int m =>
          obtain ⟨hwhole, hne⟩ := equal_wide (ha n rfl) hn (hb m rfl)
          rw [ofJson_int_wide hn, ofJson_int_signed (hb m rfl)]
          simp [Value.equal, Json.same, Number.same, Crosses, hwhole, hne]
        | float x =>
          rw [ofJson_int_wide hn, ofJson_float]
          simp [Value.equal, Json.same, Number.same, Crosses, SameValue, hn]
    | float x =>
      cases b with
      | int m =>
        have hm := hb m rfl
        rw [ofJson_float, ofJson_int_signed hm]
        simp [Value.equal, Json.same, Number.same, Crosses, SameValue, hm]
      | float y =>
        rw [ofJson_float, ofJson_float]
        simp [Value.equal, Json.same, Number.same, Crosses]

/-- What crosses is not the same value. -/
theorem not_same_of_crosses (h : Crosses w k) : w.same k = false := by
  unfold Crosses at h
  split at h
  · rfl
  · rfl
  · exact h.elim

/-- Which record a path names: a record with a value that was coerced for a field
    is held against what a text is coerced to for that field. Whole numbers of JSON
    have 64 bits, with or without a sign.

    - SQL accepts the record exactly if memory does or one value is a whole
      number and the other a double of the same value.
    - So the two agree exactly if that is not so. They always do for fields of
      any type but numbers, and for numbers of one kind. -/
theorem path_names (hname : Text.isIdent name = true)
    (hraw : ∀ n, raw = .num (.int n) → Number.InRange n)
    (hw : Shape.coerce name type raw = .ok w) (hpresent : w ≠ .null)
    (hk : Shape.coerce name type (.str text) = .ok k) (hr : r.get? name = some w) :
    ∃ found, (Document.json (.obj r)).accepts [(name, k)] = .ok found ∧
      (found = true ↔ Storage.accepts [(name, k)] r = true ∨ Crosses w k) ∧
      (found = Storage.accepts [(name, k)] r ↔ ¬ Crosses w k) ∧
      (type ≠ .number → ¬ Crosses w k) := by
  have hpair := Shape.coerced_pair hraw hw hpresent hk
  have hmemory : Storage.accepts [(name, k)] r = w.same k := by
    simp [Storage.accepts, hr]
  have hsql : (Document.json (.obj r)).accepts [(name, k)] =
      .ok ((Value.ofJson w).equal (Value.ofJson k)) := by
    rw [Document.accepts]
    simp only [Document.extract, quotable hname, hr]
    show (if (Value.ofJson w).equal (Value.ofJson k) then _ else _) = _
    cases (Value.ofJson w).equal (Value.ofJson k) <;> rfl
  have hequal := equal_ofJson hpair
  refine ⟨_, hsql, by rw [hmemory, hequal], ?_, ?_⟩
  · rw [hmemory, Bool.eq_iff_iff, hequal]
    constructor
    · intro h hcrosses
      have hsame := h.mp (.inr hcrosses)
      rw [not_same_of_crosses hcrosses] at hsame
      cases hsame
    · intro hno
      exact or_iff_left hno
  · intro htype hcrosses
    have hstored := Shape.coerce_stores hw
    cases w with
    | num a => cases type <;> first | exact htype rfl | exact hstored.elim
    | _ => exact hcrosses.elim

/-- The text `7` names the record whose number is `7`. -/
theorem seven_named :
    Shape.coerce "n" .number (.num (.int 7)) = .ok (.num (.int 7)) ∧
      Shape.coerce "n" .number (.str " 7") = .ok (.num (.int 7)) ∧
      (Document.json (.obj [("n", .num (.int 7))])).accepts [("n", .num (.int 7))] = .ok true ∧
      Storage.accepts [("n", .num (.int 7))] [("n", .num (.int 7))] = true := by
  have hraw : ∀ n, Json.num (.int 7) = .num (.int n) → Number.InRange n := by
    rintro n hn
    cases hn
    exact ⟨by decide, by decide⟩
  have hw : Shape.coerce "n" .number (.num (.int 7)) = .ok (.num (.int 7)) := rfl
  have hk : Shape.coerce "n" .number (.str " 7") = .ok (.num (.int 7)) := by decide +kernel
  have hmemory : Storage.accepts [("n", .num (.int 7))] [("n", .num (.int 7))] = true := by
    decide
  obtain ⟨found, hsql, hfound, -, -⟩ :=
    path_names (r := [("n", .num (.int 7))]) (by decide) hraw hw nofun hk rfl
  rw [hfound.mpr (.inl hmemory)] at hsql
  exact ⟨hw, hk, hsql, hmemory⟩

/-- The text `1` names a record whose number is the double `1` in SQL, and not in
    memory. -/
theorem whole_path_misses :
    let one : Json := .num (.float (Float.ofNat 1))
    Text.isIdent "n" = true ∧ Shape.coerce "n" .number one = .ok one ∧ one ≠ .null ∧
      Shape.coerce "n" .number (.str "1") = .ok (.num (.int 1)) ∧
      (Document.json (.obj [("n", one)])).accepts [("n", .num (.int 1))] = .ok true ∧
      Storage.accepts [("n", .num (.int 1))] [("n", one)] = false := by
  intro one
  have hk : Shape.coerce "n" .number (.str "1") = .ok (.num (.int 1)) := by decide +kernel
  have hsql : (Document.json (.obj [("n", one)])).accepts [("n", .num (.int 1))] = .ok true := by
    decide +kernel
  have hmemory : Storage.accepts [("n", .num (.int 1))] [("n", one)] = false := by decide +kernel
  exact ⟨by decide, rfl, nofun, hk, hsql, hmemory⟩

end Storage.Sql

end RecordGate

import RecordGate.Permission.Evaluate
import RecordGate.Proofs.IdentifierText

/-! # Equality of values in permissions

  A permission compares two values. For values without doubles this is equality,
  but for `null`, which equals nothing, and for identifiers, which may be written
  in either case.

  **Key idea.** Only doubles blur equality. A whole number is compared in one of
  two forms of 64 bits, and one of the two has room for both sides whenever they
  are equal. Two texts that are both identifiers are equal up to case exactly if
  they are the same identifier (`ObjectId.lower_eq_iff`).

  - `Number.equalValue_int`: whole numbers are compared exactly.
  - `Json.same_iff`: without doubles, equality of arrays and objects is identity.
  - `Json.matches_iff`, `Json.matches_comm`, `Json.matches_trans`: what matching
    is; `Json.matches_exact` puts it together.
-/

namespace RecordGate

/-! ### Doubles -/

section doubles
open Float.Model Float.Model.UnpackedFloat

/-- Two doubles of one sign are equal exactly if their parts are. -/
theorem finite_beq {sign : Sign} {m₁ m₂ : Nat} {e₁ e₂ : Int} (h₁ : 0 < m₁) (h₂ : 0 < m₂) :
    (finite sign m₁ e₁ h₁).beq (finite sign m₂ e₂ h₂) = true ↔ e₁ = e₂ ∧ m₁ = m₂ := by
  -- the parts are compared in turn, for negative doubles the other way round
  cases sign with
  | negative =>
    show (some ((compare e₁ e₂).then (compare m₁ m₂)).swap == some .eq) = true ↔ _
    simp [Ordering.then_eq_eq]
  | positive =>
    show (some ((compare e₁ e₂).then (compare m₁ m₂)) == some .eq) = true ↔ _
    simp [Ordering.then_eq_eq]

theorem finite_beq_comm {sign : Sign} {m₁ m₂ : Nat} {e₁ e₂ : Int} (h₁ : 0 < m₁) (h₂ : 0 < m₂) :
    (finite sign m₁ e₁ h₁).beq (finite sign m₂ e₂ h₂) =
      (finite sign m₂ e₂ h₂).beq (finite sign m₁ e₁ h₁) := by
  rw [Bool.eq_iff_iff, finite_beq h₁ h₂, finite_beq h₂ h₁, eq_comm, @eq_comm _ m₁]

theorem unpacked_beq_comm (a b : UnpackedFloat) : a.beq b = b.beq a := by
  cases a with
  | notANumber => cases b <;> rfl
  | infinity s => cases b with
    | infinity t => cases s <;> cases t <;> rfl
    | _ => cases s <;> rfl
  | zero s => cases b with
    | infinity t => cases t <;> rfl
    | finite t _ _ _ => cases t <;> rfl
    | _ => rfl
  | finite s m e h => cases b with
    | notANumber => rfl
    | infinity t => cases t <;> rfl
    | zero t => cases s <;> rfl
    | finite t m' e' h' =>
      -- doubles of different signs are not equal either way
      cases s with
      | positive => cases t with
        | positive => exact finite_beq_comm h h'
        | negative => rfl
      | negative => cases t with
        | positive => rfl
        | negative => exact finite_beq_comm h h'

/-- Equality of doubles does not depend on their order. -/
theorem float_beq_comm (x y : Float) : (x == y) = (y == x) :=
  unpacked_beq_comm x.toModel.unpack y.toModel.unpack

/-- A finite double is equal to itself. -/
theorem float_beq_self {x : Float} (h : x.isFinite = true) : (x == x) = true := by
  change x.toModel.unpack.isFinite = true at h
  show x.toModel.unpack.beq x.toModel.unpack = true
  cases hx : x.toModel.unpack with
  | notANumber => rw [hx] at h; cases h
  | infinity s => rw [hx] at h; cases h
  | zero s => rfl
  | finite s m e hm => exact (finite_beq hm hm).mpr ⟨rfl, rfl⟩

end doubles

/-! ### Numbers -/

/-- A number that JSON can hold: whole and of 64 bits, or a finite double. -/
def Number.Legal : Number → Prop
  | .int n => InRange n
  | .float x => x.isFinite = true

/-- A whole number that JSON can hold. -/
def Number.Whole (x : Number) : Prop :=
  ∃ n, x = .int n ∧ InRange n

namespace Number

theorem Whole.legal {x : Number} (h : x.Whole) : x.Legal := by
  obtain ⟨n, rfl, hn⟩ := h
  exact hn

/-- Whole numbers are compared exactly, also where one needs the sign and the
    other all the bits. -/
theorem equalValue_int {m n : Int} (hm : InRange m) (hn : InRange n) :
    (int m).equalValue (int n) = true ↔ m = n := by
  unfold InRange at hm hn
  unfold equalValue
  split
  next a b hma hnb =>
    obtain ⟨rfl, -⟩ := signed?_eq_some.mp hma
    obtain ⟨rfl, -⟩ := signed?_eq_some.mp hnb
    exact decide_eq_true_iff
  next hsigned =>
    split
    next a b hma hnb =>
      obtain ⟨rfl, -⟩ := unsigned?_eq_some.mp hma
      obtain ⟨rfl, -⟩ := unsigned?_eq_some.mp hnb
      exact decide_eq_true_iff
    next hunsigned =>
      -- no form has room for both, so one is negative and the other wide
      refine iff_of_false nofun ?_
      rintro rfl
      by_cases hneg : m < 0
      · have hform : (int m).signed? = some m := signed?_eq_some.mpr ⟨rfl, by omega, by omega⟩
        exact hsigned m m hform hform
      · have hform : (int m).unsigned? = some m :=
          unsigned?_eq_some.mpr ⟨rfl, by omega, by omega⟩
        exact hunsigned m m hform hform

theorem equalValue_comm (x y : Number) : x.equalValue y = y.equalValue x := by
  have hwhole : ∀ a b : Int, decide (a = b) = decide (b = a) := fun a b =>
    decide_eq_decide.mpr eq_comm
  unfold equalValue
  rw [float_beq_comm, Bool.or_comm]
  cases x.signed? <;> cases y.signed? <;> cases x.unsigned? <;> cases y.unsigned? <;>
    simp only [hwhole]

/-- A number is equal to itself. -/
theorem equalValue_self {x : Number} (h : x.Legal) : x.equalValue x = true := by
  cases x with
  | int n => exact (equalValue_int h h).mpr rfl
  | float x => exact float_beq_self h

theorem same_comm (x y : Number) : x.same y = y.same x := by
  cases x <;> cases y <;> simp [Number.same, eq_comm, float_beq_comm]

theorem same_self {x : Number} (h : x.Legal) : x.same x = true := by
  cases x with
  | int n => exact decide_eq_true rfl
  | float x => exact float_beq_self h

end Number

/-! ### Arrays and objects -/

mutual

/-- The numbers in a value, from left to right. -/
def Json.numbers : Json → List Number
  | .num x => [x]
  | .arr items => Json.numbersOfItems items
  | .obj members => Json.numbersOfMembers members
  | .null | .bool _ | .str _ => []

/-- The numbers in an array. -/
def Json.numbersOfItems : List Json → List Number
  | [] => []
  | a :: as => a.numbers ++ Json.numbersOfItems as

/-- The numbers in an object. -/
def Json.numbersOfMembers : List (String × Json) → List Number
  | [] => []
  | (_, a) :: as => a.numbers ++ Json.numbersOfMembers as

end

/-- A value that JSON can hold. -/
def Json.Legal (v : Json) : Prop :=
  ∀ x ∈ v.numbers, x.Legal

/-- A value that JSON can hold, without doubles. -/
def Json.Whole (v : Json) : Prop :=
  ∀ x ∈ v.numbers, x.Whole

theorem Json.Whole.legal {v : Json} (h : v.Whole) : v.Legal :=
  fun x hx => (h x hx).legal

mutual

/-- Without doubles, equality of values is identity. -/
theorem Json.same_iff {a : Json} (b : Json) (h : ∀ x ∈ a.numbers, x.Whole) : a.same b = true ↔ a = b := by
  cases a with
  | null => cases b <;> simp [Json.same]
  | bool x => cases b <;> simp [Json.same]
  | str x => cases b <;> simp [Json.same]
  | num x =>
    obtain ⟨n, rfl, -⟩ := h x (List.mem_singleton.mpr rfl)
    cases b with
    | num y => cases y <;> simp [Json.same, Number.same]
    | _ => simp [Json.same]
  | arr items =>
    cases b with
    | arr others => simp [Json.same, Json.sameItems_iff others h]
    | _ => simp [Json.same]
  | obj members =>
    cases b with
    | obj others => simp [Json.same, Json.sameMembers_iff others h]
    | _ => simp [Json.same]

theorem Json.sameItems_iff {items : List Json} (others : List Json)
    (h : ∀ x ∈ Json.numbersOfItems items, x.Whole) :
    Json.sameItems items others = true ↔ items = others := by
  cases items with
  | nil => cases others <;> simp [Json.sameItems]
  | cons a as =>
    cases others with
    | nil => simp [Json.sameItems]
    | cons b bs =>
      have hfirst := Json.same_iff b fun x hx => h x (List.mem_append_left _ hx)
      have hrest := Json.sameItems_iff bs fun x hx => h x (List.mem_append_right _ hx)
      simp [Json.sameItems, hfirst, hrest]

theorem Json.sameMembers_iff {members : List (String × Json)} (others : List (String × Json))
    (h : ∀ x ∈ Json.numbersOfMembers members, x.Whole) :
    Json.sameMembers members others = true ↔ members = others := by
  cases members with
  | nil => cases others <;> simp [Json.sameMembers]
  | cons entry as =>
    obtain ⟨j, a⟩ := entry
    cases others with
    | nil => simp [Json.sameMembers]
    | cons other bs =>
      obtain ⟨k, b⟩ := other
      have hfirst := Json.same_iff b fun x hx => h x (List.mem_append_left _ hx)
      have hrest := Json.sameMembers_iff bs fun x hx => h x (List.mem_append_right _ hx)
      simp [Json.sameMembers, hfirst, hrest]

end

mutual

/-- Equality of values does not depend on their order. -/
theorem Json.same_comm (a b : Json) : a.same b = b.same a := by
  cases a with
  | null => cases b <;> simp [Json.same]
  | bool x => cases b <;> simp [Json.same, eq_comm]
  | str x => cases b <;> simp [Json.same, eq_comm]
  | num x => cases b <;> simp [Json.same, x.same_comm]
  | arr items =>
    cases b with
    | arr others => simp [Json.same, Json.sameItems_comm items others]
    | _ => simp [Json.same]
  | obj members =>
    cases b with
    | obj others => simp [Json.same, Json.sameMembers_comm members others]
    | _ => simp [Json.same]

theorem Json.sameItems_comm (items others : List Json) :
    Json.sameItems items others = Json.sameItems others items := by
  cases items with
  | nil => cases others <;> simp [Json.sameItems]
  | cons a as =>
    cases others with
    | nil => simp [Json.sameItems]
    | cons b bs => simp [Json.sameItems, Json.same_comm a b, Json.sameItems_comm as bs]

theorem Json.sameMembers_comm (members others : List (String × Json)) :
    Json.sameMembers members others = Json.sameMembers others members := by
  cases members with
  | nil => cases others <;> simp [Json.sameMembers]
  | cons entry as =>
    obtain ⟨j, a⟩ := entry
    cases others with
    | nil => simp [Json.sameMembers]
    | cons other bs =>
      obtain ⟨k, b⟩ := other
      simp [Json.sameMembers, Json.same_comm a b, Json.sameMembers_comm as bs, @eq_comm _ j]

end

mutual

/-- A value that JSON can hold is the same as itself. -/
theorem Json.same_self (a : Json) (h : ∀ x ∈ a.numbers, x.Legal) : a.same a = true := by
  cases a with
  | null => rfl
  | bool x => exact decide_eq_true rfl
  | str x => exact decide_eq_true rfl
  | num x => exact Number.same_self (h x (List.mem_singleton.mpr rfl))
  | arr items => exact Json.sameItems_self items h
  | obj members => exact Json.sameMembers_self members h

theorem Json.sameItems_self (items : List Json) (h : ∀ x ∈ Json.numbersOfItems items, x.Legal) :
    Json.sameItems items items = true := by
  cases items with
  | nil => rfl
  | cons a as =>
    have hfirst := Json.same_self a fun x hx => h x (List.mem_append_left _ hx)
    have hrest := Json.sameItems_self as fun x hx => h x (List.mem_append_right _ hx)
    simp [Json.sameItems, hfirst, hrest]

theorem Json.sameMembers_self (members : List (String × Json))
    (h : ∀ x ∈ Json.numbersOfMembers members, x.Legal) :
    Json.sameMembers members members = true := by
  cases members with
  | nil => rfl
  | cons entry as =>
    obtain ⟨j, a⟩ := entry
    have hfirst := Json.same_self a fun x hx => h x (List.mem_append_left _ hx)
    have hrest := Json.sameMembers_self as fun x hx =>
      h x (List.mem_append_right _ hx)
    simp [Json.sameMembers, hfirst, hrest]

end

/-! ### Values of permissions -/

namespace Json

/-- Two texts that are read as the same identifier. -/
def SameIdentifier (a b : Json) : Prop :=
  ∃ s t id, a = .str s ∧ b = .str t ∧ ObjectId.parse s = .ok id ∧ ObjectId.parse t = .ok id

variable {a b c : Json} {s t : String}

/-- Texts match if they are equal, or read as the same identifier. -/
theorem matches_str_iff : (str s).matches (str t) = true ↔
    s = t ∨ ∃ id, ObjectId.parse s = .ok id ∧ ObjectId.parse t = .ok id := by
  show (if ObjectId.isValid s && ObjectId.isValid t then
    decide (s.toList.map Char.toLower = t.toList.map Char.toLower) else decide (s = t)) = true ↔ _
  by_cases hvalid : (ObjectId.isValid s && ObjectId.isValid t) = true
  · rw [if_pos hvalid, decide_eq_true_iff]
    obtain ⟨hs, ht⟩ := (Bool.and_eq_true _ _).mp hvalid
    obtain ⟨id, hs⟩ := ObjectId.isValid_iff.mp hs
    obtain ⟨id', ht⟩ := ObjectId.isValid_iff.mp ht
    rw [ObjectId.lower_eq_iff hs ht, hs, ht]
    constructor
    · rintro rfl
      exact .inr ⟨id, rfl, rfl⟩
    · rintro (rfl | ⟨both, hboth, hboth'⟩)
      · exact Except.ok.inj (hs.symm.trans ht)
      · exact (Except.ok.inj hboth).trans (Except.ok.inj hboth').symm
  · rw [if_neg hvalid, decide_eq_true_iff]
    refine ⟨.inl, fun h => h.resolve_right ?_⟩
    rintro ⟨id, hs, ht⟩
    exact hvalid ((Bool.and_eq_true _ _).mpr
      ⟨ObjectId.isValid_iff.mpr ⟨id, hs⟩, ObjectId.isValid_iff.mpr ⟨id, ht⟩⟩)

/-- Without doubles, values match if they are equal and not `null`, or read as
    the same identifier. -/
theorem matches_iff (ha : a.Whole) (hb : b.Whole) :
    a.matches b = true ↔ a ≠ .null ∧ b ≠ .null ∧ (a = b ∨ a.SameIdentifier b) := by
  cases a with
  | null => cases b <;> simp [Json.matches]
  | bool x => cases b <;> simp [Json.matches, SameIdentifier]
  | str x =>
    cases b with
    | str y => simp [matches_str_iff, SameIdentifier]
    | _ => simp [Json.matches, SameIdentifier]
  | num x =>
    cases b with
    | num y =>
      obtain ⟨m, rfl, hm⟩ := ha x (List.mem_singleton.mpr rfl)
      obtain ⟨n, rfl, hn⟩ := hb y (List.mem_singleton.mpr rfl)
      simp [Json.matches, SameIdentifier, Number.equalValue_int hm hn]
    | _ => simp [Json.matches, SameIdentifier]
  | arr items =>
    cases b with
    | arr others => simp [Json.matches, SameIdentifier, sameItems_iff others ha]
    | _ => simp [Json.matches, SameIdentifier]
  | obj members =>
    cases b with
    | obj others => simp [Json.matches, SameIdentifier, sameMembers_iff others ha]
    | _ => simp [Json.matches, SameIdentifier]

/-- Values of different kinds do not match. -/
theorem kind_of_matches (h : a.matches b = true) : a.kind = b.kind := by
  unfold Json.matches at h
  split at h
  case h_6 => cases h
  all_goals rfl

/-- Whether values match does not depend on their order. -/
theorem matches_comm (a b : Json) : a.matches b = b.matches a := by
  cases a with
  | null => cases b <;> rfl
  | bool x => cases b <;> simp [Json.matches, eq_comm]
  | str x =>
    cases b with
    | str y =>
      rw [Bool.eq_iff_iff, matches_str_iff, matches_str_iff, eq_comm]
      simp only [and_comm]
    | _ => rfl
  | num x =>
    cases b with
    | num y => exact x.equalValue_comm y
    | _ => rfl
  | arr items =>
    cases b with
    | arr others => exact sameItems_comm items others
    | _ => rfl
  | obj members =>
    cases b with
    | obj others => exact sameMembers_comm members others
    | _ => rfl

/-- A value that JSON can hold matches itself, unless it is `null`. -/
theorem matches_self (ha : a.Legal) (hpresent : a ≠ .null) : a.matches a = true := by
  cases a with
  | null => exact absurd rfl hpresent
  | bool x => exact decide_eq_true rfl
  | str x => exact matches_str_iff.mpr (.inl rfl)
  | num x => exact Number.equalValue_self (ha x (List.mem_singleton.mpr rfl))
  | arr items => exact sameItems_self items ha
  | obj members => exact sameMembers_self members ha

/-- Without doubles, what matches the same value matches. -/
theorem matches_trans (ha : a.Whole) (hb : b.Whole) (hc : c.Whole) (hab : a.matches b = true)
    (hbc : b.matches c = true) : a.matches c = true := by
  obtain ⟨hpresent, -, hab⟩ := (matches_iff ha hb).mp hab
  obtain ⟨-, hpresent', hbc⟩ := (matches_iff hb hc).mp hbc
  refine (matches_iff ha hc).mpr ⟨hpresent, hpresent', ?_⟩
  rcases hab with rfl | ⟨s, t, id, rfl, rfl, hs, ht⟩
  · exact hbc
  · rcases hbc with rfl | ⟨t', u, id', ht', rfl, hread, hu⟩
    · exact .inr ⟨s, t, id, rfl, rfl, hs, ht⟩
    · cases ht'
      rw [ht] at hread
      cases hread
      exact .inr ⟨s, u, id, rfl, rfl, hs, hu⟩

end Json

/-- A permission says the same with its sides exchanged. -/
theorem Expr.holds_swap (e : Expr) (c : Context) :
    (⟨e.right, e.left⟩ : Expr).holds c = e.holds c := by
  rw [Bool.eq_iff_iff, holds_iff, holds_iff]
  constructor
  · rintro ⟨a, b, ha, hb, hmatch⟩
    exact ⟨b, a, hb, ha, (Json.matches_comm b a).trans hmatch⟩
  · rintro ⟨a, b, ha, hb, hmatch⟩
    exact ⟨b, a, hb, ha, (Json.matches_comm b a).trans hmatch⟩

/-- Matching is exact: between values without doubles it is equality but for
    `null`, which matches nothing, and for texts of the same identifier. It is
    exact on all whole numbers, keeps kinds apart, is an equivalence on values
    without doubles and does not depend on the order, so neither does a
    permission. A text is valid exactly if it is read as an identifier. -/
theorem Json.matches_exact :
    (∀ a b : Json, a.Whole → b.Whole →
      (a.matches b = true ↔ a ≠ .null ∧ b ≠ .null ∧ (a = b ∨ a.SameIdentifier b))) ∧
    (∀ m n : Int, Number.InRange m → Number.InRange n →
      ((Json.num (.int m)).matches (.num (.int n)) = true ↔ m = n)) ∧
    (∀ a b : Json, a.matches b = true → a.kind = b.kind) ∧
    (∀ a : Json, a.Whole → a ≠ .null → a.matches a = true) ∧
    (∀ a b : Json, a.matches b = b.matches a) ∧
    (∀ a b c : Json, a.Whole → b.Whole → c.Whole →
      a.matches b = true → b.matches c = true → a.matches c = true) ∧
    (∀ (e : Expr) (c : Context), (⟨e.right, e.left⟩ : Expr).holds c = e.holds c) ∧
    (∀ s : String, ObjectId.isValid s = true ↔ ∃ id, ObjectId.parse s = .ok id) := by
  refine ⟨?exact, ?numbers, ?kinds, ?self, Json.matches_comm, ?trans, Expr.holds_swap, ?valid⟩
  case exact => exact fun a b => Json.matches_iff
  case numbers => exact fun m n => Number.equalValue_int
  case kinds => exact fun a b => Json.kind_of_matches
  case self => exact fun a ha => Json.matches_self ha.legal
  case trans => exact fun a b c => Json.matches_trans
  case valid => exact fun s => ObjectId.isValid_iff

/-- The largest number with a sign and the next one are told apart, and three
    spellings of one identifier match. -/
theorem Json.matches_exact_bounds :
    (Json.num (.int 0x7FFFFFFFFFFFFFFF)).matches (.num (.int 0x8000000000000000)) = false ∧
    (Json.num (.int 0xFFFFFFFFFFFFFFFF)).matches (.num (.int 0xFFFFFFFFFFFFFFFF)) = true ∧
    (Json.str "64b0f0f0f0f0f0f0f0f0f00a").matches (.str "64B0f0f0F0f0f0f0f0F0f00A") = true := by
  obtain ⟨-, hnumbers, -, -, -, htrans, -, -⟩ := Json.matches_exact
  have htext : ∀ s, (Json.str s).Whole := fun s x hx => by cases hx
  refine ⟨?_, (hnumbers _ _ (by decide) (by decide)).mpr rfl, ?_⟩
  · refine Bool.eq_false_iff.mpr fun h => ?_
    exact absurd ((hnumbers _ _ (by decide) (by decide)).mp h) (by decide)
  · exact htrans _ (.str "64B0F0F0F0F0F0F0F0F0F00A") _ (htext _) (htext _) (htext _)
      (by decide +kernel) (by decide +kernel)

end RecordGate

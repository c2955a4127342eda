/-! # JSON values

  The values that requests carry, records hold and permissions compare.

  - Whole numbers and doubles are different values: `1` is not `1.0`.
  - The members of an object are kept in the order of their names, by code
    points; `Record` has the operations that keep it so.
  - `Json.same` is equality of values. It differs from `=` only in that two
    doubles are the same when they compare equal, so `0.0` is the same as
    `-0.0`.
-/

namespace RecordGate

/-- A number: whole, or a finite double. -/
inductive Number where
  /-- A whole number between `-2^63` and `2^64 - 1`. -/
  | int (n : Int)
  /-- A finite double. -/
  | float (x : Float)
  deriving DecidableEq, Repr, Inhabited

/-- A JSON value. -/
inductive Json where
  | null
  | bool (b : Bool)
  | num (n : Number)
  | str (s : String)
  | arr (items : List Json)
  | obj (members : List (String × Json))
  deriving Repr, Inhabited

/-- The members of an object, sorted by name. -/
abbrev Record := List (String × Json)

/-! ### Numbers -/

/-- The whole numbers that fit 64 bits, signed or unsigned. -/
def Number.InRange (n : Int) : Prop :=
  -0x8000000000000000 ≤ n ∧ n < 0x10000000000000000

instance (n : Int) : Decidable (Number.InRange n) :=
  inferInstanceAs (Decidable (_ ∧ _))

/-- The whole number, if it fits 64 signed bits. -/
def Number.signed? : Number → Option Int
  | .int n => if -0x8000000000000000 ≤ n ∧ n < 0x8000000000000000 then some n else none
  | .float _ => none

/-- The whole number, if it fits 64 bits without a sign. -/
def Number.unsigned? : Number → Option Int
  | .int n => if 0 ≤ n ∧ n < 0x10000000000000000 then some n else none
  | .float _ => none

/-- A number has 64 bits with its sign exactly if it lies between `-2^63` and
    `2^63`. -/
theorem Number.signed?_eq_some {n m : Int} :
    (Number.int n).signed? = some m ↔
      n = m ∧ -0x8000000000000000 ≤ n ∧ n < 0x8000000000000000 := by
  unfold Number.signed?
  dsimp only
  split
  next hrange =>
    rw [Option.some.injEq]
    exact ⟨fun h => ⟨h, hrange⟩, fun h => h.1⟩
  next hrange => exact iff_of_false nofun fun h => hrange h.2

/-- It has 64 bits without a sign exactly if it lies between `0` and `2^64`. -/
theorem Number.unsigned?_eq_some {n m : Int} :
    (Number.int n).unsigned? = some m ↔ n = m ∧ 0 ≤ n ∧ n < 0x10000000000000000 := by
  unfold Number.unsigned?
  dsimp only
  split
  next hrange =>
    rw [Option.some.injEq]
    exact ⟨fun h => ⟨h, hrange⟩, fun h => h.1⟩
  next hrange => exact iff_of_false nofun fun h => hrange h.2

/-- Whether a number is a double. -/
def Number.isFloat : Number → Bool
  | .int _ => false
  | .float _ => true

/-- The double nearest to a number. -/
def Number.toFloat : Number → Float
  | .int n => Float.ofInt n
  | .float x => x

/-- The same kind of number and the same value. -/
def Number.same : Number → Number → Bool
  | .int a, .int b => a = b
  | .float x, .float y => x == y
  | _, _ => false

/-- Equal in value: whole numbers exactly, in 64 bits with a sign or without
    one, and as doubles as soon as one of them is a double. -/
def Number.equalValue (x y : Number) : Bool :=
  match x.signed?, y.signed? with
  | some a, some b => a = b
  | _, _ =>
    match x.unsigned?, y.unsigned? with
    | some a, some b => a = b
    | _, _ => if x.isFloat || y.isFloat then x.toFloat == y.toFloat else false

/-! ### Equality -/

mutual

/-- Equality of values. -/
def Json.same : Json → Json → Bool
  | .null, .null => true
  | .bool a, .bool b => a = b
  | .num a, .num b => a.same b
  | .str a, .str b => a = b
  | .arr a, .arr b => Json.sameItems a b
  | .obj a, .obj b => Json.sameMembers a b
  | _, _ => false

/-- Equality of two arrays. -/
def Json.sameItems : List Json → List Json → Bool
  | [], [] => true
  | a :: as, b :: bs => a.same b && Json.sameItems as bs
  | _, _ => false

/-- Equality of two objects. -/
def Json.sameMembers : List (String × Json) → List (String × Json) → Bool
  | [], [] => true
  | (j, a) :: as, (k, b) :: bs => j = k && a.same b && Json.sameMembers as bs
  | _, _ => false

end

mutual

/-- Decides whether two values are identical. -/
def Json.decEq : (a b : Json) → Decidable (a = b)
  | .null, .null => .isTrue rfl
  | .bool a, .bool b => decidable_of_iff (a = b) (by simp)
  | .num a, .num b => decidable_of_iff (a = b) (by simp)
  | .str a, .str b => decidable_of_iff (a = b) (by simp)
  | .arr a, .arr b =>
    have := Json.decEqItems a b
    decidable_of_iff (a = b) (by simp)
  | .obj a, .obj b =>
    have := Json.decEqMembers a b
    decidable_of_iff (a = b) (by simp)
  | .null, .bool _ | .null, .num _ | .null, .str _ | .null, .arr _ | .null, .obj _
  | .bool _, .null | .bool _, .num _ | .bool _, .str _ | .bool _, .arr _ | .bool _, .obj _
  | .num _, .null | .num _, .bool _ | .num _, .str _ | .num _, .arr _ | .num _, .obj _
  | .str _, .null | .str _, .bool _ | .str _, .num _ | .str _, .arr _ | .str _, .obj _
  | .arr _, .null | .arr _, .bool _ | .arr _, .num _ | .arr _, .str _ | .arr _, .obj _
  | .obj _, .null | .obj _, .bool _ | .obj _, .num _ | .obj _, .str _ | .obj _, .arr _ =>
    .isFalse (by simp)

/-- Decides whether two arrays are identical. -/
def Json.decEqItems : (a b : List Json) → Decidable (a = b)
  | [], [] => .isTrue rfl
  | a :: as, b :: bs =>
    have := Json.decEq a b
    have := Json.decEqItems as bs
    decidable_of_iff (a = b ∧ as = bs) (by simp)
  | [], _ :: _ | _ :: _, [] => .isFalse (by simp)

/-- Decides whether two objects are identical. -/
def Json.decEqMembers : (a b : List (String × Json)) → Decidable (a = b)
  | [], [] => .isTrue rfl
  | (j, a) :: as, (k, b) :: bs =>
    have := Json.decEq a b
    have := Json.decEqMembers as bs
    decidable_of_iff ((j = k ∧ a = b) ∧ as = bs) (by simp)
  | [], _ :: _ | _ :: _, [] => .isFalse (by simp)

end

instance : DecidableEq Json := Json.decEq

/-! ### Looking inside -/

/-- The text of a string value. -/
def Json.str? : Json → Option String
  | .str s => some s
  | _ => none

theorem Json.str?_eq_some {v : Json} {s : String} : v.str? = some s ↔ v = .str s := by
  cases v <;> simp [Json.str?]

/-- The kind of a value, as messages name it. -/
def Json.kind : Json → String
  | .null => "null"
  | .bool _ => "boolean"
  | .num _ => "number"
  | .str _ => "string"
  | .arr _ => "array"
  | .obj _ => "object"

end RecordGate

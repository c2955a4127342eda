/-! # Bytes and words

  Little-endian words of 32 and 64 bits, and cutting bytes into blocks.
-/

namespace RecordGate.Cipher

/-- The number that bytes write, least significant first. -/
def ofLittle : List UInt8 → Nat
  | [] => 0
  | b :: bs => b.toNat + 256 * ofLittle bs

/-- The `count` lowest bytes of a number, least significant first. -/
def toLittle : (count n : Nat) → List UInt8
  | 0, _ => []
  | count + 1, n => UInt8.ofNat n :: toLittle count (n / 256)

/-- Cuts into blocks of `size`; only the last may be shorter. -/
def blocks (size : Nat) : (fuel : Nat) → List UInt8 → List (List UInt8)
  | 0, _ => []
  | _, [] => []
  | fuel + 1, bs => bs.take size :: blocks size fuel (bs.drop size)

/-- The 32-bit words of bytes. -/
def words32 (bs : List UInt8) : List UInt32 :=
  (blocks 4 bs.length bs).map fun b => UInt32.ofNat (ofLittle b)

/-- The 64-bit words of bytes. -/
def words64 (bs : List UInt8) : List UInt64 :=
  (blocks 8 bs.length bs).map fun b => UInt64.ofNat (ofLittle b)

/-- The bytes of 32-bit words. -/
def bytes32 (ws : List UInt32) : List UInt8 :=
  ws.flatMap fun w => toLittle 4 w.toNat

/-- The bytes of 64-bit words. -/
def bytes64 (ws : List UInt64) : List UInt8 :=
  ws.flatMap fun w => toLittle 8 w.toNat

/-- Numbers write the indices of sixteen words. -/
instance neZero_sixteen : @NeZero Nat Zero.ofOfNat0 16 := ⟨by decide⟩

/-- Replaces the word at an index. -/
def put {α : Type} {n : Nat} (ws : Vector α n) (i : Fin n) (w : α) : Vector α n :=
  ws.set i w

/-- The byte-wise exclusive or, as long as the shorter of the two. -/
def xorBytes (a b : List UInt8) : List UInt8 :=
  List.zipWith (· ^^^ ·) a b

end RecordGate.Cipher

import RecordGate.Cipher.Words

/-! # Keyed BLAKE2b

  The hash of a message under a key, of up to 64 bytes. The key fills the
  first block; every block but the last counts its bytes and only the last is
  flagged.
-/

namespace RecordGate.Cipher.Blake

/-- The initial values. -/
def initial : Vector UInt64 8 :=
  #v[0x6A09E667F3BCC908, 0xBB67AE8584CAA73B, 0x3C6EF372FE94F82B, 0xA54FF53A5F1D36F1,
    0x510E527FADE682D1, 0x9B05688C2B3E6C1F, 0x1F83D9ABFB41BD6B, 0x5BE0CD19137E2179]

/-- The order of the message words in each of the twelve rounds. -/
def schedule : List (Vector (Fin 16) 16) := [
  #v[0, 1, 2, 3, 4, 5, 6, 7, 8, 9, 10, 11, 12, 13, 14, 15],
  #v[14, 10, 4, 8, 9, 15, 13, 6, 1, 12, 0, 2, 11, 7, 5, 3],
  #v[11, 8, 12, 0, 5, 2, 15, 13, 10, 14, 3, 6, 7, 1, 9, 4],
  #v[7, 9, 3, 1, 13, 12, 11, 14, 2, 6, 5, 10, 4, 0, 15, 8],
  #v[9, 0, 5, 7, 2, 4, 10, 15, 14, 1, 11, 12, 6, 8, 3, 13],
  #v[2, 12, 6, 10, 0, 11, 8, 3, 4, 13, 7, 5, 15, 14, 1, 9],
  #v[12, 5, 1, 15, 14, 13, 4, 10, 0, 7, 6, 3, 9, 2, 8, 11],
  #v[13, 11, 7, 14, 12, 1, 3, 9, 5, 0, 15, 4, 8, 6, 2, 10],
  #v[6, 15, 14, 9, 11, 3, 0, 8, 12, 2, 13, 7, 1, 4, 10, 5],
  #v[10, 2, 8, 4, 7, 6, 1, 5, 15, 11, 9, 14, 3, 12, 13, 0],
  #v[0, 1, 2, 3, 4, 5, 6, 7, 8, 9, 10, 11, 12, 13, 14, 15],
  #v[14, 10, 4, 8, 9, 15, 13, 6, 1, 12, 0, 2, 11, 7, 5, 3]]

/-- Sixteen words. -/
abbrev State := Vector UInt64 16

/-- Rotates to the right; the distance is between 1 and 63. -/
def rotate (w n : UInt64) : UInt64 :=
  (w >>> n) ||| (w <<< (64 - n))

/-- Mixes two message words into four words. -/
def mix (v : State) (a b c d : Fin 16) (x y : UInt64) : State :=
  let p := v[a] + v[b] + x
  let s := rotate (v[d] ^^^ p) 32
  let r := v[c] + s
  let q := rotate (v[b] ^^^ r) 24
  let p := p + q + y
  let s := rotate (s ^^^ p) 16
  let r := r + s
  let q := rotate (q ^^^ r) 63
  (((v.set a p).set b q).set c r).set d s

/-- One round under an order of the message words. -/
def round (m : State) (v : State) (o : Vector (Fin 16) 16) : State :=
  let v := mix v 0 4 8 12 m[o[0]] m[o[1]]
  let v := mix v 1 5 9 13 m[o[2]] m[o[3]]
  let v := mix v 2 6 10 14 m[o[4]] m[o[5]]
  let v := mix v 3 7 11 15 m[o[6]] m[o[7]]
  let v := mix v 0 5 10 15 m[o[8]] m[o[9]]
  let v := mix v 1 6 11 12 m[o[10]] m[o[11]]
  let v := mix v 2 7 8 13 m[o[12]] m[o[13]]
  mix v 3 4 9 14 m[o[14]] m[o[15]]

/-- Takes a block of up to 128 bytes into the hash; `counted` is the number of
    bytes up to its end. -/
def compress (h : Vector UInt64 8) (block : List UInt8) (counted : Nat) (last : Bool) :
    Vector UInt64 8 :=
  let ws := words64 (block ++ List.replicate (128 - block.length) 0)
  let m : State := Vector.ofFn fun i => ws[i.val]?.getD 0
  let v : State := h ++ initial
  let v := v.set 12 (v[12] ^^^ UInt64.ofNat counted)
  let v := v.set 13 (v[13] ^^^ UInt64.ofNat (counted / 0x10000000000000000))
  let v := if last then v.set 14 (v[14] ^^^ 0xFFFFFFFFFFFFFFFF) else v
  let v := schedule.foldl (round m) v
  Vector.ofFn fun i => h[i] ^^^ v[i.val] ^^^ v[i.val + 8]

/-- Takes blocks into the hash; `counted` bytes went before. -/
def absorb (h : Vector UInt64 8) (counted : Nat) : List (List UInt8) → Vector UInt64 8
  | [] => h
  | [block] => compress h block (counted + block.length) true
  | block :: rest => absorb (compress h block (counted + 128) false) (counted + 128) rest

/-- The hash of a message under a non-empty key of up to 64 bytes, `size`
    bytes long. -/
def hash (size : Nat) (key message : List UInt8) : List UInt8 :=
  let parameters := 0x01010000 + 256 * key.length + size
  let h := initial.set 0 (initial[0] ^^^ UInt64.ofNat parameters)
  let padded := key ++ List.replicate (128 - key.length) 0 ++ message
  (bytes64 (absorb h 0 (blocks 128 padded.length padded)).toList).take size

end RecordGate.Cipher.Blake

import RecordGate.Cipher.Words

/-! # XChaCha20

  The ChaCha20 stream cipher with a 24-byte nonce: the first 16 bytes of the
  nonce derive a key for the message, the last 8 take part in its stream.
-/

namespace RecordGate.Cipher.ChaCha

/-- Sixteen words. -/
abbrev State := Vector UInt32 16

/-- Rotates to the left; the distance is between 1 and 31. -/
def rotate (w n : UInt32) : UInt32 :=
  (w <<< n) ||| (w >>> (32 - n))

/-- Mixes four words. -/
def quarter (s : State) (a b c d : Fin 16) : State :=
  let x := s.get a + s.get b
  let w := rotate (s.get d ^^^ x) 16
  let z := s.get c + w
  let y := rotate (s.get b ^^^ z) 12
  let x := x + y
  let w := rotate (w ^^^ x) 8
  let z := z + w
  let y := rotate (y ^^^ z) 7
  put (put (put (put s a x) b y) c z) d w

/-- A column round and a diagonal round. -/
def doubleRound (s : State) : State :=
  let s := quarter s 0 4 8 12
  let s := quarter s 1 5 9 13
  let s := quarter s 2 6 10 14
  let s := quarter s 3 7 11 15
  let s := quarter s 0 5 10 15
  let s := quarter s 1 6 11 12
  let s := quarter s 2 7 8 13
  quarter s 3 4 9 14

/-- Twenty rounds. -/
def rounds (s : State) : State :=
  (List.range 10).foldl (fun s _ => doubleRound s) s

/-- The four constant words. -/
def constants : List UInt32 := [0x61707865, 0x3320646E, 0x79622D32, 0x6B206574]

/-- A state of a list of words; missing words are zero. -/
def ofWords (ws : List UInt32) : State :=
  Vector.ofFn fun i => ws[i.val]?.getD 0

/-- The key of a message: eight words of the mixed state. -/
def deriveKey (key nonce : List UInt8) : List UInt8 :=
  let s := rounds (ofWords (constants ++ words32 key ++ words32 nonce))
  bytes32 (s.toList.take 4 ++ s.toList.drop 12)

/-- One block of the stream: the mixed state added to the state. -/
def block (key nonce : List UInt8) (counter : Nat) : List UInt8 :=
  let s := ofWords (constants ++ words32 key ++ [UInt32.ofNat counter, 0] ++ words32 nonce)
  bytes32 (List.zipWith (· + ·) (rounds s).toList s.toList)

/-- Encrypts or decrypts with a 32-byte key and a 24-byte nonce. -/
def apply (key nonce message : List UInt8) : List UInt8 :=
  let messageKey := deriveKey key (nonce.take 16)
  let count := (message.length + 63) / 64
  let stream := (List.range count).flatMap fun i => block messageKey (nonce.drop 16) i
  xorBytes message stream

end RecordGate.Cipher.ChaCha

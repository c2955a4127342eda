import RecordGate.Base64
import RecordGate.Cipher.Blake
import RecordGate.Cipher.ChaCha
import RecordGate.Json.Reader
import RecordGate.Text.Split
import RecordGate.Time.Rfc3339

/-! # Sealed tokens

  Tokens of the form PASETO v4.local: `v4.local.` and the unpadded URL-safe
  base64 of a 32-byte nonce, the encrypted claims and a 32-byte tag. The key
  and the nonce derive one key for the cipher and one for the tag.

  - `openText?` checks the tag before it decrypts.
  - `open?` also checks the times `exp` and `nbf` of the claims.
-/

namespace RecordGate.Sealed

/-- A key of 32 bytes. -/
abbrev Key := List UInt8

/-- The header of a token. -/
def header : String := "v4.local."

/-- The pieces of a message, each after its length, after their count; the
    lengths take eight bytes with the highest bit clear. -/
def pieces (ps : List (List UInt8)) : List UInt8 :=
  let length (n : Nat) := Cipher.toLittle 8 (n % 0x8000000000000000)
  length ps.length ++ ps.flatMap fun p => length p.length ++ p

/-- The nonce, the encrypted claims and the tag. -/
structure Payload where
  /-- The nonce. -/
  nonce : List UInt8
  /-- The encrypted claims. -/
  content : List UInt8
  /-- The tag. -/
  tag : List UInt8
  deriving Repr, DecidableEq

/-- Cuts the bytes of a payload. -/
def Payload.ofBytes? (bs : List UInt8) : Option Payload :=
  if bs.length < 64 then none
  else
    some ⟨bs.take 32, (bs.drop 32).take (bs.length - 64), bs.drop (bs.length - 32)⟩

/-- The payload of a token; a footer may be there only if it is empty. -/
def payload? (token : String) : Option Payload :=
  let body :=
    match Text.splitOn '.' token.toList with
    | [version, purpose, body] | [version, purpose, body, []] =>
      if version = ['v', '4'] && purpose = "local".toList then some body else none
    | _ => none
  do
    let body ← body
    let bs ← Base64.decodeChars Base64.Form.urlSafe body
    Payload.ofBytes? bs

/-- The tag that belongs to a nonce and encrypted claims. -/
def tagOf (key : Key) (nonce content : List UInt8) : List UInt8 :=
  let tagKey := Cipher.Blake.hash 32 key (Text.bytes "paseto-auth-key-for-aead" ++ nonce)
  Cipher.Blake.hash 32 tagKey (pieces [Text.bytes header, nonce, content, [], []])

/-- The decrypted claims. -/
def decrypt (key : Key) (nonce content : List UInt8) : List UInt8 :=
  let derived := Cipher.Blake.hash 56 key (Text.bytes "paseto-encryption-key" ++ nonce)
  Cipher.ChaCha.apply (derived.take 32) (derived.drop 32) content

/-- The claims text of a token that was sealed with the key. -/
def openText? (key : Key) (token : String) : Option String := do
  let p ← payload? token
  if tagOf key p.nonce p.content = p.tag then Text.ofBytes? (decrypt key p.nonce p.content)
  else none

/-- Whether a time claim passes: it does if it is no text or an empty one. -/
def timeClaim (claims : Json) (name : String) (passes : Time.Instant → Bool) : Bool :=
  match claims with
  | .obj r =>
    match Record.get? r name with
    | some (.str s) =>
      s.isEmpty ||
      match Time.separated? s.toList with
      | some t => passes t
      | none => false
    | _ => true
  | _ => true

/-- The claims of a token that was sealed with the key and is in force. -/
def open? (now : Time.Instant) (key : Key) (token : String) : Option Json := do
  let text ← openText? key token
  let claims ← Json.ofText? text
  if timeClaim claims "exp" now.lt && timeClaim claims "nbf" fun t => t.lt now then some claims
  else none

end RecordGate.Sealed

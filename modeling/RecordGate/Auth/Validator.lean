import RecordGate.Auth.Claims
import RecordGate.Auth.Sealed
import RecordGate.Error

/-! # Validating credentials

  A bearer token is opened into claims. With keys, only sealed tokens count
  and every key is tried in turn. Without keys the service is in development
  mode and takes plain claims: after `json:`, or in either form of base64.

  - `authenticate` never fails: a credential that does not open makes a
    rejected caller, and the rule of the route decides what that means.
-/

namespace RecordGate

/-- Who sends a request. -/
inductive Caller where
  /-- The bearer of a valid token. -/
  | authenticated (claims : Claims)
  /-- Nobody in particular. -/
  | anonymous
  /-- Somebody with a credential that does not open. -/
  | rejected (reason : String)
  deriving Repr, DecidableEq

/-- The claims of an authenticated caller. -/
def Caller.claims? : Caller → Option Claims
  | .authenticated claims => some claims
  | _ => none

namespace Auth

/-- The token of an authorization header. -/
def bearerToken? (header : String) : Option String :=
  match Text.dropStart? "Bearer ".toList header.toList with
  | none => none
  | some rest =>
    let token := Text.trimChars rest
    if token.isEmpty then none else some (String.ofList token)

/-! ### Keys -/

/-- The bytes, if there are 32 of them. -/
def key32? (bs : List UInt8) : Option Sealed.Key :=
  if bs.length = 32 then some bs else none

/-- The key in 64 hexadecimal digits. -/
def hexKey? (text : String) : Option Sealed.Key :=
  match Hex.decode 32 (Text.bytes text) with
  | .ok bs => some bs
  | .error _ => none

/-- The key material of a configured text: hexadecimal digits, either form of
    base64, or 32 bytes as they stand. -/
def keyMaterial? (raw : String) : Option Sealed.Key :=
  let text := Text.trim raw
  hexKey? text
    <|> (Base64.decode Base64.Form.urlSafe text).bind key32?
    <|> (Base64.decode Base64.Form.standard text).bind key32?
    <|> key32? (Text.bytes text)

/-! ### Tokens -/

/-- How sealed tokens are opened: a key and a token give the claims. -/
abbrev Opener := Sealed.Key → String → Option Json

/-- What is said of claims that cannot be read. -/
def badClaims : Error := .invalidToken "malformed claims"

/-- Tries keys in turn. Texts that are no key are passed over; the first key
    that opens the token decides, also if the claims cannot be read. -/
def openSealed (opener : Opener) (token : String) : List String → Except Error Claims
  | [] => .error (.invalidToken "paseto validation failed")
  | raw :: rest =>
    match keyMaterial? raw with
    | none => openSealed opener token rest
    | some key =>
      match opener key token with
      | none => openSealed opener token rest
      | some json =>
        match Claims.ofJson? json with
        | some claims => .ok claims
        | none => .error badClaims

/-- The claims in the bytes of a JSON text. -/
def claimsOfBytes? (bs : List UInt8) : Option Claims :=
  (Text.ofBytes? bs).bind Claims.ofText?

/-- The claims of a plain token. -/
def openPlain (token : String) : Except Error Claims :=
  match Text.dropStart? "json:".toList token.toList with
  | some rest =>
    match Claims.ofText? (String.ofList rest) with
    | some claims => .ok claims
    | none => .error badClaims
  | none =>
    match (Base64.decode Base64.Form.urlSafe token).bind claimsOfBytes?
        <|> (Base64.decode Base64.Form.standard token).bind claimsOfBytes? with
    | some claims => .ok claims
    | none => .error (.invalidToken "unable to decode access token")

/-- The claims of a token under a list of configured keys. -/
def openToken (opener : Opener) (keys : List String) (token : String) : Except Error Claims :=
  if keys.isEmpty then openPlain token else openSealed opener token keys

/-- The claims of a token that has not expired. -/
def validate (opener : Opener) (now : Time.Instant) (keys : List String) (token : String) :
    Except Error Claims :=
  match openToken opener keys (Text.trim token) with
  | .ok claims => if claims.isExpired now then .error .tokenExpired else .ok claims
  | .error e => .error e

/-- The caller of an authorization header, if there is one. -/
def authenticate (opener : Opener) (now : Time.Instant) (keys : List String) :
    Option String → Caller
  | none => .anonymous
  | some header =>
    match bearerToken? header with
    | none => .rejected "malformed authorization header"
    | some token =>
      match validate opener now keys token with
      | .ok claims => .authenticated claims
      | .error e => .rejected e.message

end Auth

end RecordGate

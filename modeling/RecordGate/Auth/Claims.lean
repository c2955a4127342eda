import RecordGate.Json.Reader
import RecordGate.ObjectId
import RecordGate.Time.Rfc3339

/-! # Claims

  What a token says about its bearer: an identifier, roles, when it was
  issued, when it expires, and any further values.

  - `ofMembers?` reads claims; `sub` is another name of the identifier.
  - `toJson` is what permissions see under `req_user`.
  - `serialized` is the form that reads back.
-/

namespace RecordGate

/-- The claims of a token. -/
structure Claims where
  /-- The identifier of the bearer. -/
  id : String
  /-- The roles of the bearer. -/
  roles : List String
  /-- When the token was issued. -/
  issuedAt : Option Time.Instant
  /-- When the token expires, if ever. -/
  expiresAt : Option Time.Instant
  /-- All other claims. -/
  extra : Record
  deriving Repr, DecidableEq

namespace Claims

/-- Whether the token has expired at a time. -/
def isExpired (c : Claims) (now : Time.Instant) : Bool :=
  match c.expiresAt with
  | some t => t.lt now
  | none => false

/-! ### Making claims -/

/-- Claims that are issued at a time and never expire. -/
def issue (id : String) (now : Time.Instant) : Claims :=
  ⟨id, [], some now, none, []⟩

/-- Issues the claims anew for so many seconds. -/
def withLifetime (c : Claims) (now : Time.Instant) (seconds : Int) : Claims :=
  { c with issuedAt := some now, expiresAt := some (now.addSeconds seconds) }

/-- Sets a further claim. -/
def withClaim (c : Claims) (name : String) (value : Json) : Claims :=
  { c with extra := c.extra.insert name value }

/-! ### Reading -/

/-- What of the known claims was read so far. -/
structure Draft where
  /-- The identifier. -/
  id : Option String
  /-- The roles. -/
  roles : Option (List String)
  /-- When the token was issued. -/
  issuedAt : Option (Option Time.Instant)
  /-- When the token expires. -/
  expiresAt : Option (Option Time.Instant)
  /-- The further claims. -/
  extra : Record

/-- The texts of an array of texts. -/
def texts? : List Json → Option (List String)
  | [] => some []
  | .str s :: rest => (texts? rest).map (s :: ·)
  | _ :: _ => none

/-- A time, or `null` for none. -/
def time? : Json → Option (Option Time.Instant)
  | .null => some none
  | .str s => (Time.relaxed? s.toList).map some
  | _ => none

/-- Reads one member; a known claim may not occur twice. -/
def readMember (p : Draft) (name : String) (value : Json) : Option Draft :=
  if name = idField || name = "sub" then
    match p.id, value with
    | none, .str s => some { p with id := some s }
    | _, _ => none
  else if name = "roles" then
    match p.roles, value with
    | none, .arr items => (texts? items).map fun roles => { p with roles := some roles }
    | _, _ => none
  else if name = "iat" then
    match p.issuedAt with
    | none => (time? value).map fun t => { p with issuedAt := some t }
    | some _ => none
  else if name = "exp" then
    match p.expiresAt with
    | none => (time? value).map fun t => { p with expiresAt := some t }
    | some _ => none
  else some { p with extra := p.extra.insert name value }

/-- Reads members one after the other. -/
def readMembers : List (String × Json) → Draft → Option Draft
  | [], p => some p
  | (name, value) :: rest, p =>
    match readMember p name value with
    | some p => readMembers rest p
    | none => none

/-- The claims of the members of an object, in any order; only the identifier
    has to be there. -/
def ofMembers? (members : List (String × Json)) : Option Claims :=
  match readMembers members ⟨none, none, none, none, []⟩ with
  | some p =>
    p.id.map fun id =>
      ⟨id, p.roles.getD [], p.issuedAt.getD none, p.expiresAt.getD none, p.extra⟩
  | none => none

/-- The claims of a JSON text. -/
def ofText? (text : String) : Option Claims :=
  (Json.membersOfText? text).bind ofMembers?

/-- The claims of a JSON value. -/
def ofJson? : Json → Option Claims
  | .obj members => ofMembers? members
  | _ => none

/-! ### Writing -/

/-- Sets a time claim if there is a time. -/
def insertTime (r : Record) (name : String) (offset : Time.Offset) :
    Option Time.Instant → Record
  | some t => r.insert name (.str (t.render .exact offset))
  | none => r

/-- The roles as an array. -/
def rolesJson (c : Claims) : Json :=
  .arr (c.roles.map .str)

/-- The claims as permissions see them: the identifier and the roles are
    always there, and no further claim hides them. -/
def toRecord (c : Claims) : Record :=
  let r := c.extra.insert idField (.str c.id)
  let r := r.insert "roles" c.rolesJson
  let r := insertTime r "iat" .numeric c.issuedAt
  insertTime r "exp" .numeric c.expiresAt

/-- `toRecord` as a value. -/
def toJson (c : Claims) : Json :=
  .obj c.toRecord

/-- The claims in the form that reads back: what is empty is left out. -/
def serialized (c : Claims) : Record :=
  let r := Record.insert [] idField (.str c.id)
  let r := if c.roles.isEmpty then r else r.insert "roles" c.rolesJson
  let r := insertTime r "iat" .zulu c.issuedAt
  let r := insertTime r "exp" .zulu c.expiresAt
  r.merge c.extra

end Claims

end RecordGate

import RecordGate.Proofs.CallOrder
import RecordGate.Proofs.OwnerIsolation
import RecordGate.Proofs.Resolution
import RecordGate.Proofs.TypedWrites
import RecordGate.Proofs.Unauthenticated

/-! # Two notions of ownership

  Who owns a record is asked twice. The lookup compares the owner field with the
  caller's identifier in the stored form of that field. The permission
  `@label.owner=@req_user._id` compares it with the identifier as it stands.

  **Key idea.** Both are questions about three texts: the identifier of the
  creator, that of the reader, and what was stored for the creator. What is
  stored for an identifier (`StoredAs`) is known for the two types that an owner
  field has, so both questions come to one about the first two texts.

  - `Padded`: the lookup finds a record that the permission denies, as blanks
    around an identifier are dropped by the lookup alone.
  - `Recased`: the permission allows a record that the lookup does not find, as
    a field of texts is compared without regard to case by the permission alone.
  - `ownership_agrees`: elsewhere the two notions agree.
-/

namespace RecordGate

/-- The claims that permissions see hold the identifier. -/
theorem Claims.toRecord_id (p : Claims) : p.toRecord.get? idField = some (.str p.id) := by
  have htime : ∀ (r : Record) (name : String) (offset : Time.Offset) (t : Option Time.Instant),
      name ≠ idField → (insertTime r name offset t).get? idField = r.get? idField := by
    intro r name offset t hname
    cases t with
    | none => rfl
    | some t =>
      show (r.insert name _).get? idField = _
      rw [Record.get?_insert, if_neg hname]
  unfold toRecord
  rw [htime _ _ _ _ (by decide), htime _ _ _ _ (by decide), Record.get?_insert,
    if_neg (by decide), Record.get?_insert, if_pos rfl]

namespace Engine

open Storage RecordGate.Flow

/-! ### The two questions -/

/-- Whether the lookup takes a record for one of the caller. -/
def scopes (m : Model) (p : Claims) (r : Record) : Bool :=
  match m.owner, ownerValue? m (callerContext (.authenticated p)) with
  | some w, some id => accepts (Record.insert [] w id) r
  | _, _ => false

/-- The permission that the owner field holds the caller's identifier. -/
def ownerExpr (m : Model) (w : String) : Expr :=
  ⟨.field (.base m.bindingName) w, .field (.base callerRoot) idField⟩

/-- Whether the permission takes a record for one of the caller. -/
def allows (m : Model) (w : String) (p : Claims) (r : Record) : Bool :=
  (ownerExpr m w).holds ((callerContext (.authenticated p)).bind m.bindingName (.obj r))

/-- The text that is stored for an identifier in an owner field. -/
def StoredAs : FieldType → String → String → Prop
  | .objectId, raw, s => ∃ id, ObjectId.parse (Text.trim raw) = .ok id ∧ s = id.toHex
  | .string, raw, s => s = raw
  | _, _, _ => False

/-- Two texts that a permission takes for the same. -/
def SameText (s t : String) : Prop :=
  s = t ∨ ∃ id, ObjectId.parse s = .ok id ∧ ObjectId.parse t = .ok id

variable {m : Model} {w s creator reader : String} {f : Field} {type : FieldType} {p : Claims}
  {r : Record} {id : ObjectId}

/-- In an owner field, an identifier is coerced to the text that is stored for
    it. -/
theorem coerce_storedAs (htype : type = .objectId ∨ type = .string) (name raw : String) (v : Json) :
    Shape.coerce name type (.str raw) = .ok v ↔ ∃ s, v = .str s ∧ StoredAs type raw s := by
  rcases htype with rfl | rfl
  · show Shape.identifier name raw = .ok v ↔ _
    unfold Shape.identifier
    cases hparse : ObjectId.parse (Text.trim raw) with
    | error fault => simp [StoredAs, hparse]
    | ok id => simp [StoredAs, hparse, eq_comm]
  · show Except.ok (Json.str raw) = .ok v ↔ _
    simp [StoredAs, eq_comm]

/-- What a caller owns is stored under the text for the identifier. -/
theorem ownerValue?_eq_some (hw : m.owner = some w) (hf : m.field? w = some f)
    (htype : f.type = .objectId ∨ f.type = .string) {o : Json} :
    ownerValue? m (callerContext (.authenticated p)) = some o ↔
      ∃ s, o = .str s ∧ StoredAs f.type p.id s := by
  have hid : (callerContext (.authenticated p)).callerId? = some (.str p.id) := by
    show (Context.empty.bind callerRoot (.obj p.toRecord)).callerId? = _
    unfold Context.callerId?
    rw [Context.get?_bind, if_pos rfl]
    dsimp only
    rw [p.toRecord_id]
  unfold ownerValue?
  simp only [← coerce_storedAs htype f.name, hw, hf, hid, Option.bind_eq_bind, Option.bind_some]
  split
  next hnull =>
    -- no text is coerced to null
    obtain ⟨s, hs, -⟩ := (coerce_storedAs htype f.name p.id .null).mp hnull
    cases hs
  next value _ hvalue => simp [hvalue]
  next e herror => simp [herror]

/-- The lookup asks whether the same is stored for the caller. -/
theorem scopes_iff (hw : m.owner = some w) (hf : m.field? w = some f)
    (htype : f.type = .objectId ∨ f.type = .string) (hr : r.get? w = some (.str s)) :
    scopes m p r = true ↔ StoredAs f.type p.id s := by
  have howner := fun o => ownerValue?_eq_some (p := p) (o := o) hw hf htype
  unfold scopes
  rw [hw]
  cases hvalue : ownerValue? m (callerContext (.authenticated p)) with
  | none =>
    refine iff_of_false nofun fun hstored => ?_
    rw [(howner (.str s)).mpr ⟨s, rfl, hstored⟩] at hvalue
    cases hvalue
  | some o =>
    obtain ⟨t, rfl, ht⟩ := (howner o).mp hvalue
    dsimp only
    rw [accepts_owner]
    unfold owned
    rw [hr, decide_eq_true_iff]
    constructor
    · intro h
      cases h
      exact ht
    · intro hstored
      rw [← hvalue]
      exact ((howner _).mpr ⟨s, rfl, hstored⟩).symm

/-- The permission asks whether what is stored is the caller's identifier, or the
    same one in another case. -/
theorem allows_iff (hlabel : m.bindingName ≠ callerRoot) (hr : r.get? w = some (.str s)) :
    allows m w p r = true ↔ SameText s p.id := by
  have hleft : (ownerExpr m w).left.Leads
      ((callerContext (.authenticated p)).bind m.bindingName (.obj r)) (.str s) := by
    refine ⟨.obj r, ?_, .step hr (.stay nofun)⟩
    exact (Context.get?_bind _ _ _ _).trans (if_pos rfl)
  have hright : (ownerExpr m w).right.Leads
      ((callerContext (.authenticated p)).bind m.bindingName (.obj r)) (.str p.id) := by
    refine ⟨p.toJson, ?_, .step p.toRecord_id (.stay nofun)⟩
    exact (Context.get?_bind _ _ _ _).trans (if_neg hlabel)
  unfold allows SameText
  rw [Expr.holds_iff, Path.resolve_eq_some.mpr hleft, Path.resolve_eq_some.mpr hright,
    ← Json.matches_str_iff]
  simp

/-! ### Where they part -/

/-- The identifiers are the same but for the case, in a field of texts. -/
structure Recased (type : FieldType) (creator reader : String) : Prop where
  /-- The owner field holds texts. -/
  texts : type = .string
  /-- The texts differ. -/
  differ : creator ≠ reader
  /-- They are read as the same identifier. -/
  same : ∃ id, ObjectId.parse creator = .ok id ∧ ObjectId.parse reader = .ok id

/-- The identifiers are the same but for blanks around that of the reader, in a
    field of identifiers. -/
structure Padded (type : FieldType) (creator reader : String) : Prop where
  /-- The owner field holds identifiers. -/
  identifiers : type = .objectId
  /-- There are blanks around the identifier of the reader. -/
  blanks : Text.trim reader ≠ reader
  /-- Without blanks both are read as the same identifier. -/
  same : ∃ id, ObjectId.parse (Text.trim creator) = .ok id ∧
    ObjectId.parse (Text.trim reader) = .ok id

/-- The digits of an identifier are stored for what is read as it without the
    blanks around it. -/
theorem storedAs_toHex :
    StoredAs .objectId reader id.toHex ↔ ObjectId.parse (Text.trim reader) = .ok id := by
  constructor
  · rintro ⟨id', hreader, hsame⟩
    rw [hreader, ObjectId.toHex_injective hsame]
  · intro hreader
    exact ⟨id, hreader, rfl⟩

/-- They are the same text as what is read as it. -/
theorem sameText_toHex : SameText id.toHex reader ↔ ObjectId.parse reader = .ok id := by
  unfold SameText
  rw [ObjectId.parse_toHex]
  constructor
  · rintro (rfl | ⟨id', hid, hreader⟩)
    · exact ObjectId.parse_toHex id
    · rw [hreader, hid]
  · intro hreader
    exact .inr ⟨id, rfl, hreader⟩

/-- In a field of identifiers, what the permission allows the lookup finds. -/
theorem stored_of_same (h : SameText id.toHex reader) : StoredAs .objectId reader id.toHex := by
  rw [sameText_toHex] at h
  rw [storedAs_toHex, ObjectId.trim_of_parse h, h]

/-- There the lookup finds more exactly for a padded reader. -/
theorem padded_iff (hcreator : ObjectId.parse (Text.trim creator) = .ok id) :
    StoredAs .objectId reader id.toHex ∧ ¬ SameText id.toHex reader ↔
      Padded .objectId creator reader := by
  rw [storedAs_toHex, sameText_toHex]
  constructor
  · rintro ⟨hreader, hdenied⟩
    exact ⟨rfl, fun hblank => hdenied (hblank ▸ hreader), id, hcreator, hreader⟩
  · rintro ⟨-, hblanks, id', hcreator', hreader⟩
    rw [hcreator] at hcreator'
    cases hcreator'
    exact ⟨hreader, fun hallowed => hblanks (ObjectId.trim_of_parse hallowed)⟩

/-- In a field of texts, the permission allows more exactly for a recased
    reader. -/
theorem recased_iff : SameText creator reader ∧ ¬ StoredAs .string reader creator ↔
    Recased .string creator reader := by
  constructor
  · rintro ⟨rfl | hsame, hmissed⟩
    · exact absurd rfl hmissed
    · exact ⟨rfl, hmissed, hsame⟩
  · rintro ⟨-, hdiffer, hsame⟩
    exact ⟨.inr hsame, hdiffer⟩

/-- The ways in which the two questions part, for what is stored for a creator. -/
theorem parted_iff (htype : type = .objectId ∨ type = .string) (hs : StoredAs type creator s)
    (reader : String) :
    (StoredAs type reader s ∧ ¬ SameText s reader ↔ Padded type creator reader) ∧
      (SameText s reader ∧ ¬ StoredAs type reader s ↔ Recased type creator reader) := by
  rcases htype with rfl | rfl
  · obtain ⟨id, hcreator, rfl⟩ := hs
    refine ⟨padded_iff hcreator, iff_of_false (fun h => h.2 (stored_of_same h.1)) fun h => ?_⟩
    cases h.texts
  · obtain rfl : s = creator := hs
    refine ⟨iff_of_false (fun h => h.2 (.inl h.1)) fun h => ?_, recased_iff⟩
    cases h.identifiers

/-! ### What a create stores -/

section creates
variable {catalog : Catalog} {route : Route} {c : Context} {values : Record}

/-- Without claims there is no owner. -/
theorem authenticated_of_ownerValue? {caller : Caller} {o : Json}
    (h : ownerValue? m (callerContext caller) = some o) : ∃ p, caller = .authenticated p := by
  by_contra hnobody
  have hcaller : Unauthenticated caller := fun p hp => hnobody ⟨p, hp⟩
  rw [callerContext_of_unauthenticated hcaller, ownerValue?_empty] at h
  cases h

/-- The call of a create stores the values that were drawn for it. -/
theorem acts_create {req : Request} {bound : Bound} {call : Call}
    {next : Except Error call.Answer → Flow Response} (h : Acts m req bound .create call next) :
    ∃ values, call = .insertOne m.collection values ∧
      Trail (newValues m req bound.context) [] (.done (.ok values)) := by
  cases h with
  | created drawn => exact ⟨_, rfl, drawn⟩

/-- Only an authenticated caller binds itself under its own credential. -/
theorem authenticated_of_checked {rule : Rule} {req req' : Request}
    (hcredential : checkCredential rule req = .ok req') (h : req'.caller = .authenticated p) :
    req.caller = .authenticated p := by
  rcases checkCredential_eq_ok hcredential with rfl | rfl
  · exact h
  · cases h

/-- What a create gives to the storage holds in its owner field what is stored
    for its caller. -/
theorem create_stored (hroute : route.Compiled catalog) (hw : route.model.owner = some w)
    (hf : route.model.field? w = some f) (htype : f.type = .objectId ∨ f.type = .string)
    {made : Request} {σ : Type} {driver : Driver σ} {world : World σ} {e : Exchange}
    (he : e ∈ (execute route .create made).exchanges driver world)
    (hvalues : e.call.written? = some (.create, values)) :
    ∃ creator s, made.caller = .authenticated creator ∧ values.get? w = some (.str s) ∧
      StoredAs f.type creator.id s := by
  obtain ⟨before, after, hlog⟩ := List.append_of_mem he
  obtain ⟨next, htrail, -⟩ := (hlog ▸ trail_exchanges driver (execute route .create made) world).split
  rcases execute_paused htrail with ⟨-, _, _, -, -, hcall⟩ | ⟨bound, hclears, hacts⟩
  · rw [hcall] at hvalues
    cases hvalues
  · -- a create loads no record, so the context is that of its caller
    obtain ⟨rule, req', hrule, hcredential, hbinds, -⟩ := hclears
    obtain ⟨values', hcall, hdrawn⟩ := acts_create hacts
    rw [hcall] at hvalues
    cases hvalues
    cases hbinds with
    | record hb _ =>
      have hloads := (hroute.rules .create rule hrule).loads
      rw [hb] at hloads
      cases hloads
    | caller _ =>
      obtain ⟨o, ho, hstored⟩ :=
        (newValues_stamped hw made).of_trail (offline_newValues _ _ _) hdrawn
      obtain ⟨creator, hcreator⟩ := authenticated_of_ownerValue? ho
      rw [hcreator] at ho
      obtain ⟨s, rfl, hs⟩ := (ownerValue?_eq_some hw hf htype).mp ho
      exact ⟨creator, s, authenticated_of_checked hcredential hcreator, hstored, hs⟩

end creates

/-! ### Agreement -/

/-- The two notions of ownership part in two ways. For a record with what a create
    stored in the owner field, the lookup finds it and the permission denies it
    exactly if the reader is padded, the permission allows it and the lookup does
    not find it exactly if the reader is recased, and else they agree. -/
theorem ownership_agrees {decl : RouteDecl} {catalog : Catalog} {route : Route}
    (hcatalog : catalog.Built) (hroute : Route.compile decl catalog = .ok route)
    (hw : route.model.owner = some w) {made : Request} {σ : Type} (driver : Driver σ)
    (world : World σ) {e : Exchange} (he : e ∈ (execute route .create made).exchanges driver world)
    {values : Record} (hvalues : e.call.written? = some (.create, values))
    (hr : r.get? w = values.get? w) (p : Claims) :
    ∃ f creator, route.model.field? w = some f ∧ made.caller = .authenticated creator ∧
      (scopes route.model p r = true ∧ allows route.model w p r = false ↔
        Padded f.type creator.id p.id) ∧
      (scopes route.model p r = false ∧ allows route.model w p r = true ↔
        Recased f.type creator.id p.id) ∧
      (scopes route.model p r = allows route.model w p r ↔
        ¬ Padded f.type creator.id p.id ∧ ¬ Recased f.type creator.id p.id) := by
  have hcompiled := Route.compile_compiled hroute
  obtain ⟨f, hf, htype⟩ := (hcatalog.checked _ hcompiled.model).owner w hw
  obtain ⟨creator, s, hcreator, hstored, hs⟩ := create_stored hcompiled hw hf htype he hvalues
  have hscopes := scopes_iff (p := p) hw hf htype (hr.trans hstored)
  have hallows := allows_iff (p := p) hcompiled.label (hr.trans hstored)
  obtain ⟨hpadded, hrecased⟩ := parted_iff htype hs p.id
  rw [← hscopes, ← hallows, Bool.not_eq_true] at hpadded hrecased
  rw [and_comm] at hrecased
  refine ⟨f, creator, hf, hcreator, hpadded, hrecased, ?_⟩
  rw [← hpadded, ← hrecased]
  cases scopes route.model p r <;> cases allows route.model w p r <;> simp

/-- Photos that belong to those who took them, with a field of a given type for
    these. -/
def photoModel (type : String) : ModelDecl where
  label := none
  storage := some "photos"
  owner := some "by"
  fields := [("_id", .short [.str "ObjectId", .str "r"]), ("by", .short [.str type, .str "r"])]
  createHooks := []
  updateHooks := []

/-- Everybody adds photos, and sees their own. -/
def photoRoute : RouteDecl where
  path := "/photos"
  model := "Photo"
  rules := [("c", .permission "@req_user=@req_user"), ("r", .permission "@photo.by=@req_user._id")]

/-- Somebody with an identifier and nothing else. -/
def bearer (id : String) : Claims :=
  ⟨id, [], none, none, []⟩

/-- A photo is added. -/
def addPhoto (creator : String) : Request :=
  ⟨[], some (.obj []), .authenticated (bearer creator)⟩

/-- Under texts, the lookup does not find a photo for the one who took it with an
    identifier in another case, but the permission allows it. For somebody else
    they agree. -/
theorem ownership_agrees_photo :
    ∃ catalog route, Catalog.empty.declare "Photo" (photoModel "String") = .ok catalog ∧
      Route.compile photoRoute catalog = .ok route ∧
      ∃ e ∈ (execute route .create (addPhoto "64B00000000000000000000A")).exchanges Memory.driver
          ⟨Supply.still, Memory.empty⟩,
        ∃ values, e.call.written? = some (.create, values) ∧
          scopes route.model (bearer "64b00000000000000000000a") values = false ∧
          allows route.model "by" (bearer "64b00000000000000000000a") values = true ∧
          scopes route.model (bearer "bob") values =
            allows route.model "by" (bearer "bob") values := by
  have htest : okAnd (Catalog.empty.declare "Photo" (photoModel "String")) (fun catalog =>
      okAnd (Route.compile photoRoute catalog) fun route =>
        decide (route.model.owner = some "by") &&
        (route.model.field? "by").any (fun f => decide (f.type = .string)) &&
        ((execute route .create (addPhoto "64B00000000000000000000A")).exchanges Memory.driver
          ⟨Supply.still, Memory.empty⟩).any fun e =>
            e.call.written?.any fun write => decide (write.1 = .create)) = true := by
    decide +kernel
  obtain ⟨catalog, hcatalog, htest⟩ := okAnd_iff.mp htest
  obtain ⟨route, hroute, htest⟩ := okAnd_iff.mp htest
  simp only [Bool.and_eq_true, decide_eq_true_eq] at htest
  obtain ⟨⟨hw, hfield⟩, htest⟩ := htest
  obtain ⟨f, hf, htype⟩ := (Option.any_eq_true _ _).mp hfield
  have htype : f.type = .string := of_decide_eq_true htype
  obtain ⟨e, he, htest⟩ := List.any_eq_true.mp htest
  obtain ⟨⟨op, values⟩, hvalues, htest⟩ := (Option.any_eq_true _ _).mp htest
  obtain rfl : op = .create := of_decide_eq_true htest
  have hagree := ownership_agrees (Catalog.Built.empty.declare hcatalog) hroute hw Memory.driver
    ⟨Supply.still, Memory.empty⟩ he hvalues (rfl : values.get? "by" = values.get? "by")
  have hsame : ∃ id, ObjectId.parse "64B00000000000000000000A" = .ok id ∧
      ObjectId.parse "64b00000000000000000000a" = .ok id :=
    ⟨⟨[0x64, 0xb0, 0, 0, 0, 0, 0, 0, 0, 0, 0, 0x0a], rfl⟩, by decide +kernel, by decide +kernel⟩
  refine ⟨catalog, route, hcatalog, hroute, e, he, values, hvalues, ?_⟩
  obtain ⟨f', creator, hf', hcreator, -, hrecased, -⟩ :=
    hagree (bearer "64b00000000000000000000a")
  obtain ⟨f'', creator', hf'', hcreator', -, -, hboth⟩ := hagree (bearer "bob")
  rw [hf] at hf' hf''
  cases hf'
  cases hf''
  cases hcreator
  cases hcreator'
  obtain ⟨hmissed, hallowed⟩ := hrecased.mpr ⟨htype, by decide, hsame⟩
  refine ⟨hmissed, hallowed, hboth.mpr ⟨fun h => ?_, fun h => ?_⟩⟩
  · rw [htype] at h
    cases h.identifiers
  · obtain ⟨id, -, hbob⟩ := h.same
    exact absurd (ObjectId.isValid_iff.mpr ⟨id, hbob⟩) (by decide +kernel)

/-- Under identifiers, the lookup finds a photo for the one who took it, and the
    permission denies it, if there is a blank in front of the identifier. -/
theorem ownership_parts :
    ∃ catalog route, Catalog.empty.declare "Photo" (photoModel "ObjectId") = .ok catalog ∧
      Route.compile photoRoute catalog = .ok route ∧
      ∃ e ∈ (execute route .create (addPhoto " 64b00000000000000000000a")).exchanges Memory.driver
          ⟨Supply.still, Memory.empty⟩,
        ∃ values, e.call.written? = some (.create, values) ∧
          scopes route.model (bearer " 64b00000000000000000000a") values = true ∧
          allows route.model "by" (bearer " 64b00000000000000000000a") values = false := by
  have htest : okAnd (Catalog.empty.declare "Photo" (photoModel "ObjectId")) (fun catalog =>
      okAnd (Route.compile photoRoute catalog) fun route =>
        ((execute route .create (addPhoto " 64b00000000000000000000a")).exchanges Memory.driver
          ⟨Supply.still, Memory.empty⟩).any fun e =>
            e.call.written?.any fun write => decide (write.1 = .create) &&
              scopes route.model (bearer " 64b00000000000000000000a") write.2 &&
              !allows route.model "by" (bearer " 64b00000000000000000000a") write.2) =
        true := by
    decide +kernel
  obtain ⟨catalog, hcatalog, htest⟩ := okAnd_iff.mp htest
  obtain ⟨route, hroute, htest⟩ := okAnd_iff.mp htest
  obtain ⟨e, he, htest⟩ := List.any_eq_true.mp htest
  obtain ⟨⟨op, values⟩, hvalues, htest⟩ := (Option.any_eq_true _ _).mp htest
  simp only [Bool.and_eq_true, decide_eq_true_eq, Bool.not_eq_true'] at htest
  obtain ⟨⟨rfl, hfound⟩, hdenied⟩ := htest
  exact ⟨catalog, route, hcatalog, hroute, e, he, values, hvalues, hfound, hdenied⟩

end Engine

end RecordGate

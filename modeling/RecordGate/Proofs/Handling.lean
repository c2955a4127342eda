import RecordGate.Engine.Handle
import RecordGate.Proofs.Collection
import RecordGate.Proofs.Compilation

/-! # Requests over a storage in memory

  A request sees one collection, that of its model. Its run falls into two
  parts, each with an equation of its own.

  - `screen`: the credential, the lookup and the permission. They change
    nothing, and `run_handleRule` says that an action runs only after them.
  - `run_create`, `run_list`, `run_read`, `run_update` and `run_delete`: what
    an action answers and what it leaves in the collection. Whatever a write
    draws on beside the storage is in `newValues` and `changedValues`.
-/

namespace RecordGate.Engine

open Storage RecordGate.Flow

variable {m : Model} {rule : Rule} {req : Request} {rows before after : List Record}
  {bound : Bound}

/-! ### The caller as an owner -/

/-- The identifier of an owner was made to fit the owner field, and `null` is no
    owner. -/
theorem ownerValue?_coerced {c : Context} {o : Json} (h : ownerValue? m c = some o) :
    ∃ w f id, m.owner = some w ∧ m.field? w = some f ∧
      Shape.coerce f.name f.type id = .ok o ∧ o ≠ .null := by
  unfold ownerValue? at h
  obtain ⟨w, hw, h⟩ := Option.bind_eq_some_iff.mp h
  obtain ⟨f, hf, h⟩ := Option.bind_eq_some_iff.mp h
  obtain ⟨id, -, h⟩ := Option.bind_eq_some_iff.mp h
  split at h
  · cases h
  next value hnull hvalue =>
    cases h
    exact ⟨w, f, id, hw, hf, hvalue, fun ho => hnull (ho ▸ rfl)⟩
  · cases h

/-- The identifier of an owner is stored as a text. -/
theorem ownerValue?_text (hm : m.Checked) {c : Context} {o : Json}
    (h : ownerValue? m c = some o) : ∃ s, o = .str s := by
  obtain ⟨w, f, id, hw, hf, hvalue, hnull⟩ := ownerValue?_coerced h
  obtain ⟨f', hf', htype⟩ := hm.owner w hw
  rw [hf] at hf'
  cases hf'
  rcases Shape.coerce_text htype hvalue with rfl | htext
  · exact absurd rfl hnull
  · exact htext

/-! ### Until an action is allowed -/

/-- The context of a request over the records of its collection. -/
def locate (m : Model) (rule : Rule) (req : Request) (rows : List Record) : Except Error Bound :=
  let context := callerContext req.caller
  match rule.binding with
  | none => .ok ⟨context, none⟩
  | some b =>
    match lookupFilter? m b context req.params with
    | none => .error (missing m)
    | some filter =>
      match rows.find? (accepts filter) with
      | none => .error (missing m)
      | some record => .ok ⟨context.bind m.bindingName (.obj record), some record⟩

/-- The context of a request whose credential and permission hold. -/
def screen (m : Model) (rule : Rule) (req : Request) (rows : List Record) : Except Error Bound := do
  let req ← checkCredential rule req
  let bound ← locate m rule req rows
  authorize rule bound.context
  pure bound

/-- Without an owner a record is found by the bound field alone. -/
theorem lookupFilter?_unowned (hm : m.owner = none) (b : Binding) (c : Context)
    (params : Keyed String) :
    lookupFilter? m b c params = (keyValue? m b params).map fun key => [(b.field, key)] := by
  unfold lookupFilter?
  rw [hm]
  cases keyValue? m b params <;> rfl

/-- With an owner it has to be the caller's as well. -/
theorem lookupFilter?_owned {w : String} (hm : m.owner = some w) (b : Binding) (c : Context)
    (params : Keyed String) :
    lookupFilter? m b c params = (keyValue? m b params).bind fun key =>
      (ownerValue? m c).map fun id => Record.insert [(b.field, key)] w id := by
  unfold lookupFilter?
  rw [hm]
  cases keyValue? m b params with
  | none => rfl
  | some key => cases ownerValue? m c <;> rfl

theorem run_bindContext (m : Model) (rule : Rule) (req : Request) (w : World Memory) :
    (bindContext m rule req).run Memory.driver w =
      (locate m rule req (w.store.rows m.collection), w) := by
  cases hb : rule.binding with
  | none => simp [bindContext, locate, hb]
  | some b =>
    cases hl : lookupFilter? m b (callerContext req.caller) req.params with
    | none => simp [bindContext, locate, hb, hl]
    | some filter =>
      have hask : (ask (.findOne m.collection filter)).run Memory.driver w =
          (.ok ((w.store.rows m.collection).find? (accepts filter)), w) := rfl
      cases hf : (w.store.rows m.collection).find? (accepts filter) with
      | none => simp [bindContext, locate, hb, hl, run_bind, hask, hf]
      | some record => simp [bindContext, locate, hb, hl, run_bind, hask, hf]

/-- Forgetting a rejected credential changes nothing but the caller. -/
theorem checkCredential_eq_ok {req' : Request} (h : checkCredential rule req = .ok req') :
    req' = req ∨ req' = { req with caller := .anonymous } := by
  unfold checkCredential at h
  split at h
  · split at h <;> cases h
    exact .inr rfl
  · cases h
    exact .inl rfl

/-- No action looks at the credential again. -/
theorem perform_checkCredential {req' : Request} (h : checkCredential rule req = .ok req')
    (m : Model) (action : Action) (bound : Bound) :
    perform m action req' bound = perform m action req bound := by
  rcases checkCredential_eq_ok h with rfl | rfl
  · rfl
  · cases action <;> rfl

/-- An action runs after the credential, the lookup and the permission, in the
    world in which the request came in. -/
theorem run_handleRule (m : Model) (action : Action) (rule : Rule) (req : Request)
    (w : World Memory) :
    (handleRule m action rule req).run Memory.driver w =
      match screen m rule req (w.store.rows m.collection) with
      | .ok bound => (perform m action req bound).run Memory.driver w
      | .error e => (.error e, w) := by
  unfold handleRule screen
  rw [run_bind, run_ofExcept]
  cases hcredential : checkCredential rule req with
  | error e => rfl
  | ok req' =>
    dsimp only
    rw [run_bind, run_bindContext, ok_bind]
    cases hlocate : locate m rule req' (w.store.rows m.collection) with
    | error e => rfl
    | ok bound =>
      dsimp only
      rw [run_bind, run_ofExcept, ok_bind, perform_checkCredential hcredential]
      cases hauthorize : authorize rule bound.context with
      | error e => rfl
      | ok u => rfl

theorem authorize_eq_ok {c : Context} :
    authorize rule c = .ok () ↔ rule.permission.holds c = true := by
  unfold authorize Expr.holds
  cases rule.permission.evaluate c with
  | ok u => simp [Except.isOk, Except.toBool]
  | error denial => simp [Except.isOk, Except.toBool]

/-- What an admitted request has passed. -/
theorem screen_eq_ok :
    screen m rule req rows = .ok bound ↔
      ∃ req', checkCredential rule req = .ok req' ∧ locate m rule req' rows = .ok bound ∧
        rule.permission.holds bound.context = true := by
  unfold screen
  constructor
  · intro h
    obtain ⟨req', hcredential, h⟩ := bind_eq_ok_iff.mp h
    obtain ⟨bound', hlocate, h⟩ := bind_eq_ok_iff.mp h
    obtain ⟨⟨⟩, hauthorize, h⟩ := bind_eq_ok_iff.mp h
    cases h
    exact ⟨req', hcredential, hlocate, authorize_eq_ok.mp hauthorize⟩
  · rintro ⟨req', hcredential, hlocate, hholds⟩
    rw [hcredential, ok_bind, hlocate, ok_bind, authorize_eq_ok.mpr hholds]
    rfl

/-- A located record is the first hit of the lookup. -/
theorem locate_eq_ok {b : Binding} (hb : rule.binding = some b)
    (h : locate m rule req rows = .ok bound) :
    ∃ filter before record after,
      lookupFilter? m b (callerContext req.caller) req.params = some filter ∧
      FirstHit filter rows before record after ∧
      bound = ⟨(callerContext req.caller).bind m.bindingName (.obj record), some record⟩ := by
  unfold locate at h
  simp only [hb] at h
  split at h
  · cases h
  next filter hfilter =>
    split at h
    · cases h
    next record hrecord =>
      cases h
      obtain ⟨before, after, hit⟩ := find?_eq_some_iff.mp hrecord
      exact ⟨filter, before, record, after, hfilter, hit, rfl⟩

/-- The record of an admitted request is the first hit of its lookup, and the
    permission holds on it. -/
theorem screen_loaded {b : Binding} (hb : rule.binding = some b)
    (h : screen m rule req rows = .ok bound) :
    ∃ req' filter before record after, checkCredential rule req = .ok req' ∧
      lookupFilter? m b (callerContext req'.caller) req'.params = some filter ∧
      FirstHit filter rows before record after ∧
      bound = ⟨(callerContext req'.caller).bind m.bindingName (.obj record), some record⟩ ∧
      rule.permission.holds bound.context = true := by
  obtain ⟨req', hcred, hlocate, hholds⟩ := screen_eq_ok.mp h
  obtain ⟨filter, before, record, after, hfilter, hit, hbound⟩ := locate_eq_ok hb hlocate
  exact ⟨req', filter, before, record, after, hcred, hfilter, hit, hbound, hholds⟩

/-- An action on one record is admitted with a stored record. -/
theorem screen_resource {action : Action} (hfits : rule.Fits action m)
    (htargets : action.targetsOne = true) (h : screen m rule req rows = .ok bound) :
    ∃ filter before record after, FirstHit filter rows before record after ∧
      bound.resource = some record := by
  obtain ⟨b, hb⟩ := Option.isSome_iff_exists.mp (hfits.loads.trans htargets)
  obtain ⟨_, filter, before, record, after, -, -, hit, rfl, -⟩ := screen_loaded hb h
  exact ⟨filter, before, record, after, hit, rfl⟩

/-! ### What an action does -/

/-- The values that a create stores. -/
def newValues (m : Model) (req : Request) (c : Context) : Flow Record := do
  let raw ← Flow.ofExcept (Shape.ofBody req.body)
  let values ← Shape.prepare m .create raw
  Flow.ofExcept (stampOwner m c values)

/-- The values that an update overwrites. -/
def changedValues (m : Model) (req : Request) : Flow Record := do
  let raw ← Flow.ofExcept (Shape.ofBody req.body)
  let values ← Shape.prepare m .update raw
  pure (dropOwner m values)

/-- The records that a list shows. -/
def visible (m : Model) (c : Context) (rows : List Record) : List Record :=
  match m.owner with
  | none => rows
  | some owner =>
    match ownerValue? m c with
    | some id => rows.filter (accepts (Record.insert [] owner id))
    | none => []

theorem offline_newValues (m : Model) (req : Request) (c : Context) :
    Offline (newValues m req c) :=
  (offline_ofExcept _).bind fun _ =>
    (Shape.offline_prepare m .create _).bind fun _ => offline_ofExcept _

theorem offline_changedValues (m : Model) (req : Request) : Offline (changedValues m req) :=
  (offline_ofExcept _).bind fun _ =>
    (Shape.offline_prepare m .update _).bind fun _ => offline_pure _

/-- Names without prepared values are not overwritten, and neither is the
    owner. -/
theorem dropOwner_lacks {values : Record} {k : String}
    (h : Shape.Lacks k values ∨ m.owner = some k) : Shape.Lacks k (dropOwner m values) := by
  unfold dropOwner
  cases howner : m.owner with
  | none =>
    rcases h with h | h
    · exact h
    · rw [howner] at h
      cases h
  | some owner =>
    show (values.erase owner).get? k = none
    rw [Record.get?_erase]
    by_cases hk : k = owner
    · rw [if_pos hk]
    · rw [if_neg hk]
      rcases h with h | h
      · exact h
      · rw [howner] at h
        exact absurd (Option.some.inj h).symm hk

/-- An update has no value for the owner, and none for a name that its
    preparation gives no value to. -/
theorem changedValues_lacks {k : String}
    (h : (∀ raw, (Shape.prepare m .update raw).Yields (Shape.Lacks k)) ∨ m.owner = some k)
    (req : Request) : (changedValues m req).Yields (Shape.Lacks k) := by
  refine (yields_true _).bind fun raw _ => ?_
  rcases h with h | h
  · exact (h raw).bind fun values hvalues => yields_pure (dropOwner_lacks (.inl hvalues))
  · exact (yields_true _).bind fun values _ => yields_pure (dropOwner_lacks (.inr h))

/-- What an update answers. -/
def updateReply (m : Model) : Option Record → Flow Response
  | none => Flow.fail (missing m)
  | some updated => pure (.ok (shown m updated))

/-- A create is its values and then one storage call. -/
theorem create_eq (m : Model) (req : Request) (bound : Bound) :
    create m req bound = newValues m req bound.context >>= fun values =>
      ask (.insertOne m.collection values) >>= fun (stored : Record) =>
        pure (.created (shown m stored)) := by
  unfold create newValues
  rw [bind_assoc]
  congr
  funext raw
  rw [bind_assoc]
  rfl

/-- An update is the loaded record, its values and then one storage call. -/
theorem update_eq (m : Model) (req : Request) (bound : Bound) :
    update m req bound = ofExcept (loaded bound.resource) >>= fun record =>
      changedValues m req >>= fun values => ofExcept (byId record) >>= fun filter =>
        ask (.updateOne m.collection filter values) >>= updateReply m := by
  unfold update changedValues
  congr
  funext record
  rw [bind_assoc]
  congr
  funext raw
  rw [bind_assoc]
  show Shape.prepare m .update raw >>= _ = Shape.prepare m .update raw >>= _
  congr
  funext values
  show ofExcept (byId record) >>= _ = ofExcept (byId record) >>= _
  congr
  funext filter
  show ask (.updateOne m.collection filter (dropOwner m values)) >>= _ =
    ask (.updateOne m.collection filter (dropOwner m values)) >>= updateReply m
  congr
  funext updated
  -- both look at the answer in the same way, but by different matches
  cases updated with
  | none => rfl
  | some updated => rfl

section actions
variable {record row : Record} {id : String}

/-- A create appends what it prepares, with an identifier. -/
theorem run_create (m : Model) (req : Request) (bound : Bound) (w : World Memory) :
    (create m req bound).run Memory.driver w =
      match (newValues m req bound.context).draw w.supply with
      | (.ok values, s) =>
        (.ok (.created (shown m (withId values s).1)), ⟨(withId values s).2,
          w.store.setRows m.collection
            (w.store.rows m.collection ++ [(withId values s).1])⟩)
      | (.error e, s) => (.error e, ⟨s, w.store⟩) := by
  rw [create_eq, run_bind, (offline_newValues m req bound.context).run_eq]
  rcases (newValues m req bound.context).draw w.supply with ⟨result, s⟩
  cases result with
  | ok values => rfl
  | error e => rfl

/-- A list shows the visible records and changes nothing. -/
theorem run_list (m : Model) (bound : Bound) (w : World Memory) :
    (list m bound).run Memory.driver w =
      (.ok (.ok (.arr ((visible m bound.context (w.store.rows m.collection)).map (shown m)))),
        w) := by
  unfold list visible
  cases m.owner with
  | none =>
    -- without an owner the filter is empty, and that accepts everything
    have hall : (w.store.rows m.collection).filter (accepts []) = w.store.rows m.collection :=
      List.filter_eq_self.mpr fun r _ => accepts_nil r
    show (Except.ok (Response.ok (.arr (((w.store.rows m.collection).filter (accepts [])).map _))),
      w) = _
    rw [hall]
  | some owner =>
    cases ownerValue? m bound.context with
    | none => rfl
    | some id => rfl

/-- A read shows the loaded record and changes nothing. -/
theorem run_read (m : Model) (hloaded : bound.resource = some record) (w : World Memory) :
    (read m bound).run Memory.driver w = (.ok (.ok (shown m record)), w) := by
  unfold read
  rw [hloaded]
  rfl

theorem byId_text (hid : record.get? idField = some (.str id)) :
    byId record = .ok [(idField, .str id)] := by
  unfold byId
  rw [hid]
  rfl

/-- An update overwrites the first record that has the identifier of the
    loaded one. -/
theorem run_update (m : Model) (req : Request) (hloaded : bound.resource = some record)
    (hid : record.get? idField = some (.str id)) {w : World Memory}
    (hit : FirstHit [(idField, .str id)] (w.store.rows m.collection) before row after) :
    (update m req bound).run Memory.driver w =
      match (changedValues m req).draw w.supply with
      | (.ok values, s) =>
        (.ok (.ok (shown m (row.merge values))), ⟨s,
          w.store.setRows m.collection (before ++ row.merge values :: after)⟩)
      | (.error e, s) => (.error e, ⟨s, w.store⟩) := by
  -- the record is there and has an identifier, so what is left is the values and the call
  rw [update_eq, hloaded]
  show (changedValues m req >>= fun values => ofExcept (byId record) >>= fun filter =>
    ask (.updateOne m.collection filter values) >>= updateReply m).run Memory.driver w = _
  rw [byId_text hid, run_bind, (offline_changedValues m req).run_eq]
  rcases (changedValues m req).draw w.supply with ⟨result, s⟩
  cases result with
  | ok values =>
    show (updateReply m (Memory.answer (.updateOne m.collection [(idField, .str id)] values)
      ⟨s, w.store⟩).1).run Memory.driver
        (Memory.answer (.updateOne m.collection [(idField, .str id)] values) ⟨s, w.store⟩).2 = _
    have hs : FirstHit [(idField, .str id)]
        ((⟨s, w.store⟩ : World Memory).store.rows m.collection) before row after := hit
    rw [hs.answer_updateOne values]
    rfl
  | error e => rfl

/-- A delete takes out the first record that has the identifier of the loaded
    one. -/
theorem run_delete (m : Model) (hloaded : bound.resource = some record)
    (hid : record.get? idField = some (.str id)) {w : World Memory}
    (hit : FirstHit [(idField, .str id)] (w.store.rows m.collection) before row after) :
    (delete m bound).run Memory.driver w =
      (.ok .noContent, { w with store := w.store.setRows m.collection (before ++ after) }) := by
  let reply : Bool → Flow Response := fun deleted =>
    if deleted then pure .noContent else Flow.fail (missing m)
  unfold delete
  simp only [hloaded, loaded, ofExcept_ok_bind, byId_text hid]
  show (reply (Memory.answer (.deleteOne m.collection [(idField, .str id)]) w).1).run
    Memory.driver (Memory.answer (.deleteOne m.collection [(idField, .str id)]) w).2 = _
  rw [hit.answer_deleteOne]
  rfl

end actions

end RecordGate.Engine

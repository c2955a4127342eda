import RecordGate.Proofs.Interleaving
import RecordGate.Proofs.SortedRecords
import RecordGate.Proofs.Whitelist

/-! # The history of a record

  Requests may interleave in any way, and an update holds a copy of the record
  that may be old when it writes. This copy leaves no trace: a record is what
  was inserted, with the values of its updates merged in, in the order of the
  writes. What was deleted does not come back.

  **Key idea.** The journal of all storage calls is read from the insert of a
  record on (`Grown`), and of each call only what it did to that record
  (`hit?`). A turn of the collection adds one exchange to the journal and
  changes one record at most (`grown_turn`).

  - `changedValues_sorted`: the values of an update are sorted, so it puts each of
    them in.
  - `Gone`: an identifier that was handed out and has no record. No turn gives
    it one.
  - `Lost`: what is left of a request whose record is gone. It can only end in
    `missing`.
-/

namespace RecordGate

namespace Shape

open RecordGate.Flow

/-- The preparation of an update keeps the values sorted, if the hooks do. -/
theorem prepare_sorted {m : Model} (raw : Record)
    (hhooks : ∀ hook ∈ m.updateHooks, ∀ t r, Record.Sorted r → Record.Sorted (hook.run t r)) :
    (prepare m .update raw).Yields Record.Sorted := by
  have htakes : Takes .update raw m.fields Record.Sorted := by
    constructor
    case empty => exact Record.sorted_nil
    case input =>
      intro f _ s taken _ v _ values hvalues
      exact hvalues.insert f.name v
    case fallback =>
      intro hop
      cases hop
  refine htakes.prepare (applyHooks_keeps hhooks fun values hvalues => ?_)
  exact hvalues.filter _

end Shape

/-- A built-in hook of updates keeps records sorted. -/
theorem Hook.updateHook_sorted {name : String} {hook : Hook}
    (h : Hook.ofName? name .update = some hook) (t : Time.Instant) {r : Record} (hr : r.Sorted) : (hook.run t r).Sorted := by
  unfold Hook.ofName? at h
  split at h
  case h_1 hop => cases hop
  case h_2 =>
    cases h
    exact hr.insert _ _
  case h_3 hop => cases hop
  case h_4 =>
    cases h
    exact hr.mapValues _
  case h_5 => cases h

namespace Engine

open Storage RecordGate.Flow

variable {m : Model} {name : String} {decl : ModelDecl}

/-- The values of an update are sorted, so each of them gets into the record. -/
theorem changedValues_sorted (hregister : Schema.register name decl = .ok m) (req : Request) :
    (changedValues m req).Yields Record.Sorted := by
  refine (yields_true _).bind fun raw _ => ?_
  refine (Shape.prepare_sorted raw fun hook hhook t r hr => ?_).bind fun values hvalues => ?_
  · obtain ⟨hookName, hook'⟩ := Schema.register_hooks hregister .update hook hhook
    exact Hook.updateHook_sorted hook' t hr
  · refine yields_pure ?_
    unfold dropOwner
    split
    · exact hvalues
    · exact hvalues.filter _

/-! ### What the journal says about a record -/

/-- The exchange in which a record was inserted. -/
def insertion (m : Model) (values record : Record) : Exchange where
  call := .insertOne m.collection values
  answer := .ok record

/-- The values that an exchange merged into the record of an identifier, if it
    did. -/
def hit? (m : Model) (id : String) : Exchange → Option Record
  | ⟨.updateOne collection _ values, .ok (some (updated : Record))⟩ =>
    if collection = m.collection ∧ updated.get? idField = some (.str id) then some values else none
  | _ => none

/-- The values of all updates that hit the record of an identifier, in order. -/
def hits (m : Model) (id : String) (journal : List Exchange) : List Record :=
  journal.filterMap (hit? m id)

/-- A record with an identifier is what was inserted, with the values of the
    updates that hit it merged in, one after the other. -/
def Grown (m : Model) (journal : List Exchange) (row : Record) : Prop :=
  ∃ id before values born after, row.get? idField = some (.str id) ∧
    journal = before ++ insertion m values born :: after ∧
    born.get? idField = some (.str id) ∧ row = (hits m id after).foldl Record.merge born

variable {e : Exchange} {w w' : World Memory} {journal : List Exchange} {row : Record} {id : String}

theorem Quiet.hit?_eq_none (h : Quiet m e) (id : String) : hit? m id e = none := by
  cases h with
  | elsewhere hother =>
    unfold hit?
    split
    next collection filter values updated =>
      have hother : collection ≠ m.collection := hother
      rw [if_neg fun hboth => hother hboth.1]
    · rfl
  | findOne _ _ => rfl
  | findAll _ _ => rfl
  | updated _ _ => rfl
  | deleted _ => rfl

theorem hit?_updated (filter values updated : Record) :
    hit? m id ⟨.updateOne m.collection filter values, .ok (some updated)⟩ =
      if updated.get? idField = some (.str id) then some values else none := by
  show (if m.collection = m.collection ∧ _ then some values else none) = _
  simp only [true_and]

/-- An exchange that does nothing to a record leaves its history. -/
theorem Grown.missed (h : Grown m journal row)
    (hmiss : ∀ id, row.get? idField = some (.str id) → hit? m id e = none) :
    Grown m (journal ++ [e]) row := by
  obtain ⟨id, before, values, born, after, hid, rfl, hborn, hrow⟩ := h
  refine ⟨id, before, values, born, after ++ [e], hid, ?_, hborn, ?_⟩
  · rw [List.append_assoc]
    rfl
  · have hhits : hits m id (after ++ [e]) = hits m id after := by
      unfold hits
      rw [List.filterMap_append, List.filterMap_cons_none (hmiss id hid), List.filterMap_nil,
        List.append_nil]
    rw [hhits]
    exact hrow

/-- A hit adds its values to the history. -/
theorem Grown.hit {values : Record} (h : Grown m journal row) (hlacks : Shape.Lacks idField values)
    (hhit : ∀ id, row.get? idField = some (.str id) → hit? m id e = some values) :
    Grown m (journal ++ [e]) (row.merge values) := by
  obtain ⟨id, before, inserted, born, after, hid, rfl, hborn, hrow⟩ := h
  refine ⟨id, before, inserted, born, after ++ [e], ?_, ?_, hborn, ?_⟩
  · rw [Record.get?_merge_of_none _ hlacks]
    exact hid
  · rw [List.append_assoc]
    rfl
  · have hhits : hits m id (after ++ [e]) = hits m id after ++ [values] := by
      unfold hits
      rw [List.filterMap_append, List.filterMap_cons_some (hhit id hid), List.filterMap_nil]
    rw [hhits, List.foldl_append, ← hrow]
    rfl

/-- One turn of a collection: every record has its history again. -/
theorem grown_turn (hrows : Minted w.supply (w.store.rows m.collection))
    (hdistinct : w.supply.Distinct) (hturn : Turn m w e w')
    (h : ∀ row ∈ w.store.rows m.collection, Grown m journal row) :
    ∀ row ∈ w'.store.rows m.collection, Grown m (journal ++ [e]) row := by
  cases hturn with
  | quiet quiet _ rows =>
    intro row hrow
    rw [rows] at hrow
    exact (h row hrow).missed fun id _ => quiet.hit?_eq_none id
  | @inserted values record lacks record_eq =>
    intro row hrow
    have hrow : row ∈ (w.store.setRows m.collection _).rows m.collection := hrow
    rw [Memory.rows_setRows, if_pos rfl] at hrow
    rcases List.mem_append.mp hrow with hrow | hrow
    · exact (h row hrow).missed fun _ _ => rfl
    · -- the history of the new record starts here
      rw [List.mem_singleton.mp hrow]
      have hid : record.get? idField = some (.str w.supply.fresh.1.toHex) := by
        rw [record_eq, Record.get?_insert, if_pos rfl]
      exact ⟨_, journal, values, record, [], hid, rfl, hid, rfl⟩
  | @updated id values hitRow before after hit spares =>
    intro row hrow
    have hrow : row ∈ (w.store.setRows m.collection _).rows m.collection := hrow
    rw [Memory.rows_setRows, if_pos rfl] at hrow
    have hlacks : Shape.Lacks idField values := spares idField .identifier
    have hmerged : (hitRow.merge values).get? idField = hitRow.get? idField :=
      Record.get?_merge_of_none _ hlacks
    rcases mem_replaced hrow with rfl | hrow
    · refine (h hitRow hit.mem).hit hlacks fun id' hid' => ?_
      rw [hit?_updated, hmerged, if_pos hid']
    · -- all but the hit have other identifiers
      have hne := (hrows.identified hdistinct).others hit row hrow
      refine (h row (hit.mem_rest hrow)).missed fun id' hid' => ?_
      rw [hit?_updated, hmerged, if_neg]
      exact fun hsame => hne (hid'.trans hsame.symm)
  | @deleted id hitRow before after hit =>
    intro row hrow
    have hrow : row ∈ (w.store.setRows m.collection _).rows m.collection := hrow
    rw [Memory.rows_setRows, if_pos rfl] at hrow
    exact (h row (hit.mem_rest hrow)).missed fun _ _ => rfl

/-- Wherever requests lead, every record has its history. -/
theorem grown_reached {text : String} {cfg : Config} (hcfg : Config.ofText text = .ok cfg)
    (hm : SoleModel cfg m) (howner : m.owner ≠ some idField) {s : Traffic} (hs : Reached cfg s)
    (hdistinct : s.world.supply.Distinct) :
    ∀ row ∈ s.world.store.rows m.collection, Grown m s.journal row := by
  refine (hs.carry hcfg hm howner (P := fun s =>
    ∀ row ∈ s.world.store.rows m.collection, Grown m s.journal row)
    (fun _ _ hrow => absurd hrow List.not_mem_nil) ?_ hdistinct).2
  intro s s' hsound hprogress hdistinct' hgrown
  have hnow : s.world.supply.Distinct := hdistinct'.earlier hprogress.later
  cases hprogress with
  | idle => exact hgrown
  | arrived _ _ => exact hgrown
  | drew _ _ _ => exact hgrown
  | called _ _ turn => exact grown_turn hsound.minted hnow turn hgrown

/-! ### Where the values come from -/

/-- The values of an update call are prepared from the body of its request. -/
theorem Acts.prepared {req : Request} {bound : Bound} {action : Action} {collection : String}
    {filter values : Record}
    {next : Except Error (Call.Answer (.updateOne collection filter values)) → Flow Response}
    (h : Acts m req bound action (.updateOne collection filter values) next) :
    collection = m.collection ∧ Trail (changedValues m req) [] (.done (.ok values)) := by
  cases h with
  | updated _ _ drawn => exact ⟨rfl, drawn⟩

/-- The values of an update of the model, whenever it was made, are those that a
    request prepares from its body. -/
theorem Sound.prepared {text : String} {cfg : Config} (hcfg : Config.ofText text = .ok cfg)
    (hm : SoleModel cfg m) {s : Traffic} (hs : Sound cfg m s)
    {filter values : Record} {answer : Except Error (Option Record)}
    (he : ⟨.updateOne m.collection filter values, answer⟩ ∈ s.journal) :
    ∃ t ∈ s.tasks, t.visit.route.model = m ∧
      Trail (changedValues m t.visit.request) [] (.done (.ok values)) := by
  obtain ⟨t, ht, hlog⟩ := hs.journaled _ he
  obtain ⟨before, after, hsplit⟩ := List.append_of_mem hlog
  have htrail := hs.trails t ht
  rw [hsplit] at htrail
  have hcompiled := Config.ofText_compiled hcfg _ (hs.routed t ht)
  rcases execute_call hcompiled htrail with ⟨-, -, lookup, hcall⟩ | ⟨bound, next, -, hacts⟩
  · cases hcall
  · obtain ⟨hcollection, hdrawn⟩ := hacts.prepared
    have hmodel : t.visit.route.model = m := hm.only _ hcompiled.model hcollection.symm
    rw [hmodel] at hdrawn
    exact ⟨t, ht, hmodel, hdrawn⟩

/-- An exchange that hit a record is an update of its collection. -/
theorem hit?_eq_some {values : Record} (h : hit? m id e = some values) :
    ∃ filter answer, e = ⟨.updateOne m.collection filter values, answer⟩ := by
  unfold hit? at h
  split at h
  next collection filter values' updated =>
    split at h
    next hboth =>
      obtain ⟨rfl, -⟩ := hboth
      cases h
      exact ⟨filter, _, rfl⟩
    · cases h
  · cases h

theorem foldl_merge_of_none {k : String} {later : List Record} (born : Record)
    (h : ∀ values ∈ later, values.get? k = none) :
    (later.foldl Record.merge born).get? k = born.get? k := by
  induction later generalizing born with
  | nil => rfl
  | cons values later ih =>
    have hfirst : (born.merge values).get? k = born.get? k :=
      Record.get?_merge_of_none born (h values List.mem_cons_self)
    have hrest := fun values' h' => h values' (List.mem_cons_of_mem _ h')
    exact (ih (born.merge values) hrest).trans hfirst

/-- A value that an update wrote into a record is there until a later update
    writes one under the same name. -/
theorem Sound.survives {text : String} {cfg : Config} (hcfg : Config.ofText text = .ok cfg)
    (hm : SoleModel cfg m) {s : Traffic} (hs : Sound cfg m s) {before after : List Exchange}
    (hjournal : s.journal = before ++ e :: after) {born values : Record}
    {earlier later : List Record} (hhits : hits m id after = earlier ++ values :: later)
    {k : String} {v : Json} (hvalue : values.get? k = some v)
    (hlater : ∀ values' ∈ later, values'.get? k = none) :
    ((hits m id after).foldl Record.merge born).get? k = some v := by
  have hmem : values ∈ hits m id after := by
    rw [hhits]
    exact List.mem_append_right _ List.mem_cons_self
  obtain ⟨e', he', hhit⟩ := List.mem_filterMap.mp hmem
  obtain ⟨filter, answer, rfl⟩ := hit?_eq_some hhit
  have hlogged : ⟨.updateOne m.collection filter values, answer⟩ ∈ s.journal := by
    rw [hjournal]
    exact List.mem_append_right _ (List.mem_cons_of_mem _ he')
  obtain ⟨t, -, -, hdrawn⟩ := hs.prepared hcfg hm hlogged
  obtain ⟨name, decl, hregister, -⟩ := Config.ofText_registered hcfg hm.mem
  have hsorted : values.Sorted := (changedValues_sorted hregister t.visit.request).of_trail
    (offline_changedValues m t.visit.request) hdrawn
  rw [hhits, List.foldl_append, List.foldl_cons, foldl_merge_of_none _ hlater]
  exact Record.get?_merge_of_some hsorted hvalue _

end Engine

end RecordGate

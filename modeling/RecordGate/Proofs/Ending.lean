import RecordGate.Proofs.Handling

/-! # How a request ends

  All that a request to a compiled route can come to over a storage in memory,
  said once.

  **Key idea.** Whatever can refuse a request comes before its only write. So
  it fails and leaves the storage as it was, or it ends as its action does
  after it was admitted. `execute_ends` says which calls and values led there;
  what holds of every single request is a case analysis over `Ending`.
-/

namespace RecordGate.Engine

open Storage RecordGate.Flow

/-- The request passes the credential, the lookup and the permission of the
    rule of its action, and this is the context that it is judged in. -/
def Admitted (route : Route) (action : Action) (req : Request) (rows : List Record)
    (bound : Bound) : Prop :=
  ∃ rule, route.rule? action = some rule ∧ screen route.model rule req rows = .ok bound

/-- The loaded record of an admitted request, and the first record that has its
    identifier. That is the one that is written. -/
structure Aimed (route : Route) (action : Action) (req : Request) (rows : List Record)
    (record : Record) (before : List Record) (row : Record) (after : List Record) : Prop where
  /-- The request is admitted with the record. -/
  admitted : ∃ bound, Admitted route action req rows bound ∧ bound.resource = some record
  /-- The record was found by some filter. -/
  found : ∃ filter before after, FirstHit filter rows before record after
  /-- Its identifier selects what is written. -/
  selected : ∃ id, record.get? idField = some (.str id) ∧
    FirstHit [(idField, .str id)] rows before row after

/-- How a request can end. -/
inductive Ending (route : Route) (req : Request) (w : World Memory) :
    Action → Except Error Response × World Memory → Prop where
  /-- It fails, and has drawn on the supply at most. -/
  | failed {action : Action} (e : Error) {supply : Supply} (later : w.supply.Later supply) :
      Ending route req w action (.error e, ⟨supply, w.store⟩)
  /-- A create appends its values, with an identifier. -/
  | created {bound : Bound} {values : Record} {supply : Supply}
      (admitted : Admitted route .create req (w.store.rows route.model.collection) bound)
      (drawn : (newValues route.model req bound.context).draw w.supply = (.ok values, supply)) :
      Ending route req w .create
        (.ok (.created (shown route.model (withId values supply).1)),
          ⟨(withId values supply).2, w.store.setRows route.model.collection
            (w.store.rows route.model.collection ++ [(withId values supply).1])⟩)
  /-- A list shows the visible records. -/
  | listed {bound : Bound}
      (admitted : Admitted route .list req (w.store.rows route.model.collection) bound) :
      Ending route req w .list
        (.ok (.ok (.arr ((visible route.model bound.context
          (w.store.rows route.model.collection)).map (shown route.model)))), w)
  /-- A read shows the loaded record. -/
  | read {bound : Bound} {record : Record}
      (admitted : Admitted route .read req (w.store.rows route.model.collection) bound)
      (loaded : bound.resource = some record) :
      Ending route req w .read (.ok (.ok (shown route.model record)), w)
  /-- An update overwrites its values. -/
  | updated {record row values : Record} {before after : List Record} {supply : Supply}
      (aimed : Aimed route .update req (w.store.rows route.model.collection) record before row after)
      (drawn : (changedValues route.model req).draw w.supply = (.ok values, supply)) :
      Ending route req w .update
        (.ok (.ok (shown route.model (row.merge values))),
          ⟨supply, w.store.setRows route.model.collection (before ++ row.merge values :: after)⟩)
  /-- A delete takes a record out. -/
  | deleted {record row : Record} {before after : List Record}
      (aimed : Aimed route .delete req (w.store.rows route.model.collection) record before row after) :
      Ending route req w .delete
        (.ok .noContent,
          { w with store := w.store.setRows route.model.collection (before ++ after) })

variable {route : Route} {catalog : Catalog} {action : Action} {req : Request} {rows : List Record}
  {bound : Bound} {record row : Record} {before after : List Record} {w : World Memory}

/-- Among records with texts for identifiers, an admitted request on one record
    has something to write. -/
theorem exists_aimed (hroute : route.Compiled catalog) (htexts : Texts rows)
    (h : Admitted route action req rows bound) (htargets : action.targetsOne = true) :
    ∃ record before row after, bound.resource = some record ∧
      Aimed route action req rows record before row after := by
  obtain ⟨rule, hrule, hscreen⟩ := h
  obtain ⟨filter, before, record, after, hfound, hresource⟩ :=
    screen_resource (hroute.rules action rule hrule) htargets hscreen
  obtain ⟨id, before', row, after', hid, hit⟩ := htexts.exists_hit hfound.mem
  exact ⟨record, before', row, after', hresource,
    ⟨bound, ⟨rule, hrule, hscreen⟩, hresource⟩, ⟨filter, before, after, hfound⟩, id, hid, hit⟩

/-- Among identified records that is the loaded one. -/
theorem Aimed.row_eq (h : Aimed route action req rows record before row after)
    (hid : Identified rows) : row = record := by
  obtain ⟨filter, before', after', hfound⟩ := h.found
  obtain ⟨id, hrecord, hit⟩ := h.selected
  exact ((hid.firstHit_id hfound hrecord).unique hit).2.1

/-- An admitted request ends as its action does. This is where the storage calls
    of the five actions are looked at. -/
theorem perform_ends (hroute : route.Compiled catalog)
    (htexts : Texts (w.store.rows route.model.collection))
    (h : Admitted route action req (w.store.rows route.model.collection) bound) :
    Ending route req w action ((perform route.model action req bound).run Memory.driver w) := by
  cases action with
  | create =>
    show Ending _ _ _ _ ((create route.model req bound).run _ _)
    rw [run_create]
    cases hdraw : (newValues route.model req bound.context).draw w.supply with
    | mk result supply =>
      cases result with
      | error e => exact .failed e (later_of_draw hdraw)
      | ok values => exact .created h hdraw
  | list =>
    show Ending _ _ _ _ ((list route.model bound).run _ _)
    rw [run_list]
    exact .listed h
  | read =>
    obtain ⟨record, _, _, _, hresource, -⟩ := exists_aimed hroute htexts h rfl
    show Ending _ _ _ _ ((read route.model bound).run _ _)
    rw [run_read _ hresource]
    exact .read h hresource
  | update =>
    obtain ⟨record, before, row, after, hresource, haimed⟩ := exists_aimed hroute htexts h rfl
    -- the record has an identifier, so the write finds something
    obtain ⟨id, hid, hit⟩ := haimed.selected
    show Ending _ _ _ _ ((update route.model req bound).run _ _)
    rw [run_update _ req hresource hid hit]
    cases hdraw : (changedValues route.model req).draw w.supply with
    | mk result supply =>
      cases result with
      | error e => exact .failed e (later_of_draw hdraw)
      | ok values => exact .updated haimed hdraw
  | delete =>
    obtain ⟨record, before, row, after, hresource, haimed⟩ := exists_aimed hroute htexts h rfl
    obtain ⟨id, hid, hit⟩ := haimed.selected
    show Ending _ _ _ _ ((delete route.model bound).run _ _)
    rw [run_delete _ hresource hid hit]
    exact .deleted haimed

/-- A request to a compiled route, over records with texts for identifiers,
    ends in one of these ways. -/
theorem execute_ends (hroute : route.Compiled catalog) (action : Action) (req : Request)
    (htexts : Texts (w.store.rows route.model.collection)) :
    Ending route req w action ((execute route action req).run Memory.driver w) := by
  unfold execute
  cases hrule : route.rule? action with
  | none => exact .failed _ (Supply.later_refl _)
  | some rule =>
    dsimp only
    rw [run_handleRule]
    cases hscreen : screen route.model rule req (w.store.rows route.model.collection) with
    | error e => exact .failed e (Supply.later_refl _)
    | ok bound => exact perform_ends hroute htexts ⟨rule, hrule, hscreen⟩

end RecordGate.Engine

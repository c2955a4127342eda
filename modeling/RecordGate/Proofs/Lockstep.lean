import Mathlib.Data.List.Forall2
import RecordGate.Proofs.Frame
import RecordGate.Proofs.Resolution
import RecordGate.Proofs.Session
import RecordGate.Proofs.Whitelist

/-! # Two runs in lockstep

  The same requests over two storages whose collections are related record by
  record.

  **Key idea.** What counts is what a route looks at in a record. If all of it
  is the same in two records (`Alike`), then they are selected, judged and
  shown alike. A relation of records that implies this and survives an update
  is one that the route cannot see (`Unseen`).

  - `execute_related`: over related worlds a request ends the same and leaves
    related worlds.
  - `session_related`: so does every session.
-/

namespace RecordGate

/-! ### Records with the same values under some names -/

theorem Record.get?_merge_congr {r r' : Record} {k : String} (values : List (String × Json))
    (h : r.get? k = r'.get? k) : (r.merge values).get? k = (r'.merge values).get? k := by
  induction values generalizing r r' with
  | nil => exact h
  | cons entry rest ih =>
    obtain ⟨j, v⟩ := entry
    show ((r.insert j v).merge rest).get? k = ((r'.insert j v).merge rest).get? k
    apply ih
    rw [get?_insert, get?_insert, h]

/-- An answer shows the same of two records that agree on the names that it
    shows. -/
theorem Shape.output_congr {m : Model} {r r' : Record}
    (h : ∀ k, m.reveals k = true → r.get? k = r'.get? k) : output m r = output m r' := by
  have hfields : ∀ f ∈ m.fields, f.isReadable = true → r.get? f.name = r'.get? f.name := by
    intro f hf hreadable
    refine h f.name (List.any_eq_true.mpr ⟨f, hf, ?_⟩)
    rw [decide_eq_true rfl, hreadable]
    rfl
  -- the fields are taken in order, whatever is in the answer already
  unfold output
  generalize m.fields = fields at hfields
  generalize ([] : Record) = out
  induction fields generalizing out with
  | nil => rfl
  | cons f fields ih =>
    have hrest := fun f' hf' => hfields f' (List.mem_cons_of_mem _ hf')
    unfold outputFields
    by_cases hreadable : f.isReadable = true
    · rw [if_pos hreadable, if_pos hreadable, hfields f List.mem_cons_self hreadable]
      cases r'.get? f.name with
      | none => exact ih hrest out
      | some value => exact ih hrest (Record.insert out f.name value)
    · rw [if_neg hreadable, if_neg hreadable]
      exact ih hrest out

/-! ### Collections that are related record by record -/

namespace Storage

variable {R : Record → Record → Prop} {filter row : Record} {rows rows' before after : List Record}

/-- Two records with the same values under the names of a filter are accepted
    alike. -/
theorem accepts_congr {r r' : Record} (h : ∀ k ∈ filter.names, r.get? k = r'.get? k) :
    accepts filter r = accepts filter r' := by
  unfold accepts
  induction filter with
  | nil => rfl
  | cons entry rest ih =>
    obtain ⟨k, expected⟩ := entry
    have hk : r.get? k = r'.get? k := h k List.mem_cons_self
    rw [List.all_cons, List.all_cons, ih fun j hj => h j (List.mem_cons_of_mem _ hj)]
    dsimp only
    rw [hk]

/-- A filter that accepts related records alike finds none in both collections,
    or related ones. -/
theorem find?_related (hrows : List.Forall₂ R rows rows')
    (hfilter : ∀ {r r'}, R r r' → accepts filter r = accepts filter r') :
    (rows.find? (accepts filter) = none ∧ rows'.find? (accepts filter) = none) ∨
      ∃ r r', rows.find? (accepts filter) = some r ∧ rows'.find? (accepts filter) = some r' ∧
        R r r' := by
  induction hrows with
  | nil => exact .inl ⟨rfl, rfl⟩
  | @cons r r' rest rest' hr _ ih =>
    rw [List.find?_cons, List.find?_cons, hfilter hr]
    cases accepts filter r' with
    | true => exact .inr ⟨r, r', rfl, rfl, hr⟩
    | false => exact ih

/-- A filter that accepts related records alike has its first hit at the same
    place in both collections. -/
theorem FirstHit.related (h : FirstHit filter rows before row after)
    (hrows : List.Forall₂ R rows rows')
    (hfilter : ∀ {r r'}, R r r' → accepts filter r = accepts filter r') :
    ∃ before' row' after', FirstHit filter rows' before' row' after' ∧
      List.Forall₂ R before before' ∧ R row row' ∧ List.Forall₂ R after after' := by
  obtain ⟨rfl, hit, miss⟩ := h
  -- what stands before the hit is passed by in both collections
  induction before generalizing rows' with
  | nil =>
    obtain ⟨row', after', hrow, hafter, rfl⟩ := List.forall₂_cons_left_iff.mp hrows
    exact ⟨[], row', after', ⟨rfl, (hfilter hrow).symm.trans hit, nofun⟩, .nil, hrow, hafter⟩
  | cons r before ih =>
    obtain ⟨r', rest', hr, hrest, rfl⟩ := List.forall₂_cons_left_iff.mp hrows
    obtain ⟨before', row', after', ⟨rfl, hit', miss'⟩, hbefore, hrow, hafter⟩ :=
      ih (fun x hx => miss x (List.mem_cons_of_mem _ hx)) hrest
    refine ⟨r' :: before', row', after', ⟨rfl, hit', ?_⟩, .cons hr hbefore, hrow, hafter⟩
    intro x hx
    rcases List.mem_cons.mp hx with rfl | hx
    · rw [← hfilter hr]
      exact miss r List.mem_cons_self
    · exact miss' x hx

end Storage

namespace Engine

open Storage RecordGate.Flow

/-! ### What a route looks at -/

/-- Two records with the same in all that a route looks at. -/
structure Alike (route : Route) (r r' : Record) : Prop where
  /-- The identifier, by which a record is written. -/
  identifier : r.get? idField = r'.get? idField
  /-- The owner. -/
  owner : ∀ o, route.model.owner = some o → r.get? o = r'.get? o
  /-- The fields by which records are loaded. -/
  bound : ∀ action rule b, route.rule? action = some rule → rule.binding = some b →
    r.get? b.field = r'.get? b.field
  /-- What the permissions say about the loaded record. -/
  permission : ∀ action rule, route.rule? action = some rule → ∀ c : Context,
    rule.permission.evaluate (c.bind route.model.bindingName (.obj r)) =
      rule.permission.evaluate (c.bind route.model.bindingName (.obj r'))
  /-- What answers show. -/
  shown : shown route.model r = shown route.model r'

/-- A relation of records that a route cannot see. -/
structure Unseen (route : Route) (R : Record → Record → Prop) : Prop where
  /-- Related records look alike. -/
  alike : ∀ {r r'}, R r r' → Alike route r r'
  /-- They stay related when the same values are merged into both. -/
  merge : ∀ {r r'}, R r r' → ∀ values, R (r.merge values) (r'.merge values)
  /-- Every record is related to itself. -/
  refl : ∀ r, R r r

/-- Two worlds with the same supply and with collections that are related
    record by record. -/
structure Related (R : String → Record → Record → Prop) (w w' : World Memory) : Prop where
  /-- The supplies are the same. -/
  supply : w.supply = w'.supply
  /-- Each collection is related. -/
  rows : ∀ c, List.Forall₂ (R c) (w.store.rows c) (w'.store.rows c)

/-- Two runs with the same result that leave related worlds. -/
structure EndsAlike (R : String → Record → Record → Prop)
    (run run' : Except Error Response × World Memory) : Prop where
  /-- The results are the same. -/
  result : run.1 = run'.1
  /-- The worlds are related. -/
  related : Related R run.2 run'.2

/-- Two bound contexts that differ in the loaded record at most. -/
inductive BoundAlike (m : Model) (R : Record → Record → Prop) : Bound → Bound → Prop where
  /-- Nothing is loaded. -/
  | unloaded (c : Context) : BoundAlike m R ⟨c, none⟩ ⟨c, none⟩
  /-- Related records are loaded. -/
  | loaded (c : Context) {r r' : Record} (h : R r r') :
      BoundAlike m R ⟨c.bind m.bindingName (.obj r), some r⟩
        ⟨c.bind m.bindingName (.obj r'), some r'⟩

/-- Two bindings of a context: the same error, or contexts that differ in the
    loaded record at most. -/
def Matched (m : Model) (R : Record → Record → Prop) (x x' : Except Error Bound) : Prop :=
  (∃ e, x = .error e ∧ x' = .error e) ∨
    ∃ bound bound', x = .ok bound ∧ x' = .ok bound' ∧ BoundAlike m R bound bound'

variable {route : Route} {catalog : Catalog} {action : Action} {rule : Rule} {req : Request}
  {bound bound' : Bound} {rows rows' : List Record} {w w' : World Memory}

section step
variable {R : String → Record → Record → Prop} {S : Record → Record → Prop}

/-- Worlds stay related when a collection is changed to related records in
    both. -/
theorem Related.setRows (h : Related R w w') {c : String} (hrows : List.Forall₂ (R c) rows rows')
    (supply : Supply) :
    Related R ⟨supply, w.store.setRows c rows⟩ ⟨supply, w'.store.setRows c rows'⟩ where
  supply := rfl
  rows other := by
    rw [Memory.rows_setRows, Memory.rows_setRows]
    by_cases hc : c = other
    · subst hc
      rw [if_pos rfl, if_pos rfl]
      exact hrows
    · rw [if_neg hc, if_neg hc]
      exact h.rows other

/-- A lookup asks for the bound field and for the owner. -/
theorem lookupFilter?_names {m : Model} {b : Binding} {c : Context} {params : Keyed String}
    {filter : Record} (h : lookupFilter? m b c params = some filter) :
    ∀ k ∈ filter.names, k = b.field ∨ m.owner = some k := by
  intro k hk
  cases hm : m.owner with
  | none =>
    rw [lookupFilter?_unowned hm] at h
    obtain ⟨key, -, rfl⟩ := Option.map_eq_some_iff.mp h
    exact .inl (List.mem_singleton.mp hk)
  | some owner =>
    rw [lookupFilter?_owned hm] at h
    obtain ⟨key, -, h⟩ := Option.bind_eq_some_iff.mp h
    obtain ⟨id, -, rfl⟩ := Option.map_eq_some_iff.mp h
    rcases Record.mem_names_insert.mp hk with rfl | hk
    · exact .inr rfl
    · exact .inl (List.mem_singleton.mp hk)

/-- The lookup fails over both collections, or finds related records. -/
theorem locate_related (hS : Unseen route S) (hrule : route.rule? action = some rule)
    (req : Request) (hrows : List.Forall₂ S rows rows') :
    Matched route.model S (locate route.model rule req rows)
      (locate route.model rule req rows') := by
  unfold locate
  dsimp only
  cases hb : rule.binding with
  | none => exact .inr ⟨_, _, rfl, rfl, .unloaded _⟩
  | some b =>
    dsimp only
    cases hfilter : lookupFilter? route.model b (callerContext req.caller) req.params with
    | none => exact .inl ⟨_, rfl, rfl⟩
    | some filter =>
      have haccepts : ∀ {r r'}, S r r' → accepts filter r = accepts filter r' := by
        intro r r' hr
        have halike : Alike route r r' := hS.alike hr
        refine accepts_congr fun k hk => ?_
        rcases lookupFilter?_names hfilter k hk with rfl | howner
        · exact halike.bound action rule b hrule hb
        · exact halike.owner k howner
      dsimp only
      rcases find?_related hrows haccepts with ⟨hnone, hnone'⟩ | ⟨r, r', hfound, hfound', hr⟩
      · rw [hnone, hnone']
        exact .inl ⟨_, rfl, rfl⟩
      · rw [hfound, hfound']
        exact .inr ⟨_, _, rfl, rfl, .loaded _ hr⟩

/-- The permission says the same about both contexts. -/
theorem authorize_related (hS : Unseen route S) (hrule : route.rule? action = some rule)
    (h : BoundAlike route.model S bound bound') :
    authorize rule bound.context = authorize rule bound'.context := by
  cases h with
  | unloaded c => rfl
  | loaded c hr =>
    unfold authorize
    rw [(hS.alike hr).permission action rule hrule c]

theorem screen_related (hS : Unseen route S) (hrule : route.rule? action = some rule)
    (req : Request) (hrows : List.Forall₂ S rows rows') :
    Matched route.model S (screen route.model rule req rows)
      (screen route.model rule req rows') := by
  unfold screen
  cases checkCredential rule req with
  | error e => exact .inl ⟨e, rfl, rfl⟩
  | ok req' =>
    rw [ok_bind, ok_bind]
    rcases locate_related hS hrule req' hrows with
      ⟨e, hlocate, hlocate'⟩ | ⟨bound, bound', hlocate, hlocate', hbound⟩
    · rw [hlocate, hlocate']
      exact .inl ⟨e, rfl, rfl⟩
    · rw [hlocate, hlocate', ok_bind, ok_bind, authorize_related hS hrule hbound]
      cases authorize rule bound'.context with
      | error e => exact .inl ⟨e, rfl, rfl⟩
      | ok u => exact .inr ⟨bound, bound', rfl, rfl, hbound⟩

/-- If a record is loaded in one context, a related one is in the other. -/
theorem BoundAlike.resource {m : Model} (h : BoundAlike m S bound bound') {r : Record}
    (hr : bound.resource = some r) : ∃ r', bound'.resource = some r' ∧ S r r' := by
  cases h with
  | unloaded c => cases hr
  | @loaded c r₁ r' hrelated =>
    cases hr
    exact ⟨r', rfl, hrelated⟩

/-- The caller is the same as an owner, whatever record is loaded. -/
theorem ownerValue?_related (hlabel : route.model.bindingName ≠ callerRoot)
    (h : BoundAlike route.model S bound bound') :
    ownerValue? route.model bound.context = ownerValue? route.model bound'.context := by
  cases h with
  | unloaded c => rfl
  | loaded c hr => rw [ownerValue?_bind hlabel, ownerValue?_bind hlabel]

theorem newValues_congr {m : Model} {c c' : Context} (h : ownerValue? m c = ownerValue? m c')
    (req : Request) : newValues m req c = newValues m req c' := by
  unfold newValues stampOwner
  rw [h]

/-- The records that a list shows are related. -/
theorem visible_related (hS : Unseen route S) (hrows : List.Forall₂ S rows rows') {c c' : Context}
    (h : ownerValue? route.model c = ownerValue? route.model c') :
    List.Forall₂ S (visible route.model c rows) (visible route.model c' rows') := by
  unfold visible
  cases howner : route.model.owner with
  | none => exact hrows
  | some owner =>
    dsimp only
    rw [h]
    cases ownerValue? route.model c' with
    | none => exact .nil
    | some id =>
      refine List.rel_filter (fun r r' hr => ?_) hrows
      have haccepts : accepts (Record.insert [] owner id) r =
          accepts (Record.insert [] owner id) r' := by
        refine accepts_congr fun k hk => ?_
        rw [List.mem_singleton.mp hk]
        exact (hS.alike hr).owner owner howner
      show accepts _ r = true ↔ accepts _ r' = true
      rw [haccepts]

theorem map_shown_related (hS : Unseen route S) (hrows : List.Forall₂ S rows rows') :
    rows.map (shown route.model) = rows'.map (shown route.model) := by
  induction hrows with
  | nil => rfl
  | cons hr _ ih => rw [List.map_cons, List.map_cons, (hS.alike hr).shown, ih]

/-- Two related records have the same identifier, and it selects related records
    at the same place. -/
theorem selected_related (hS : Unseen route S) (hrows : List.Forall₂ S rows rows')
    (htexts : Texts rows) {r r' : Record} (hr : S r r') (hmem : r ∈ rows) :
    ∃ id before row after before' row' after',
      r.get? idField = some (.str id) ∧ r'.get? idField = some (.str id) ∧
      FirstHit [(idField, .str id)] rows before row after ∧
      FirstHit [(idField, .str id)] rows' before' row' after' ∧
      List.Forall₂ S before before' ∧ S row row' ∧ List.Forall₂ S after after' := by
  obtain ⟨id, before, row, after, hid, hit⟩ := htexts.exists_hit hmem
  have hid' : r'.get? idField = some (.str id) := (hS.alike hr).identifier.symm.trans hid
  have haccepts : ∀ {x x' : Record}, S x x' →
      accepts [(idField, .str id)] x = accepts [(idField, .str id)] x' := by
    intro x x' hx
    refine accepts_congr fun k hk => ?_
    rw [List.mem_singleton.mp hk]
    exact (hS.alike hx).identifier
  obtain ⟨before', row', after', hit', hbefore, hrow, hafter⟩ := hit.related hrows haccepts
  exact ⟨id, before, row, after, before', row', after', hid, hid', hit, hit', hbefore, hrow, hafter⟩

/-- An allowed action over related worlds ends the same, provided that an
    action on one record was allowed on a stored one. -/
theorem perform_related (hR : Unseen route (R route.model.collection))
    (hlabel : route.model.bindingName ≠ callerRoot) (h : Related R w w')
    (htexts : Texts (w.store.rows route.model.collection))
    (hbound : BoundAlike route.model (R route.model.collection) bound bound')
    (hloaded : action.targetsOne = true →
      ∃ record ∈ w.store.rows route.model.collection, bound.resource = some record)
    (req : Request) :
    EndsAlike R ((perform route.model action req bound).run Memory.driver w)
      ((perform route.model action req bound').run Memory.driver w') := by
  have hrows := h.rows route.model.collection
  have howner := ownerValue?_related hlabel hbound
  cases action with
  | create =>
    show EndsAlike R ((create route.model req bound).run _ _) ((create route.model req bound').run _ _)
    rw [run_create, run_create, newValues_congr howner, ← h.supply]
    rcases (newValues route.model req bound'.context).draw w.supply with ⟨result, supply⟩
    cases result with
    | error e => exact ⟨rfl, rfl, h.rows⟩
    | ok values =>
      -- the same record goes to the end of both collections
      exact ⟨rfl, h.setRows (List.rel_append hrows (.cons (hR.refl _) .nil)) _⟩
  | list =>
    show EndsAlike R ((list route.model bound).run _ _) ((list route.model bound').run _ _)
    rw [run_list, run_list, map_shown_related hR (visible_related hR hrows howner)]
    exact ⟨rfl, h⟩
  | read =>
    obtain ⟨record, -, hrecord⟩ := hloaded rfl
    obtain ⟨record', hrecord', hr⟩ := hbound.resource hrecord
    show EndsAlike R ((read route.model bound).run _ _) ((read route.model bound').run _ _)
    rw [run_read _ hrecord, run_read _ hrecord', (hR.alike hr).shown]
    exact ⟨rfl, h⟩
  | update =>
    obtain ⟨record, hmem, hrecord⟩ := hloaded rfl
    obtain ⟨record', hrecord', hr⟩ := hbound.resource hrecord
    obtain ⟨id, before, row, after, before', row', after', hid, hid', hit, hit', hbefore, hrow,
      hafter⟩ := selected_related hR hrows htexts hr hmem
    show EndsAlike R ((update route.model req bound).run _ _) ((update route.model req bound').run _ _)
    rw [run_update _ req hrecord hid hit, run_update _ req hrecord' hid' hit', ← h.supply]
    rcases (changedValues route.model req).draw w.supply with ⟨result, supply⟩
    cases result with
    | error e => exact ⟨rfl, rfl, h.rows⟩
    | ok values =>
      -- both merge the same values, so the records stay related and look alike
      have hmerged := hR.merge hrow values
      dsimp only
      rw [(hR.alike hmerged).shown]
      exact ⟨rfl, h.setRows (List.rel_append hbefore (.cons hmerged hafter)) _⟩
  | delete =>
    obtain ⟨record, hmem, hrecord⟩ := hloaded rfl
    obtain ⟨record', hrecord', hr⟩ := hbound.resource hrecord
    obtain ⟨id, before, row, after, before', row', after', hid, hid', hit, hit', hbefore, -,
      hafter⟩ := selected_related hR hrows htexts hr hmem
    show EndsAlike R ((delete route.model bound).run _ _) ((delete route.model bound').run _ _)
    rw [run_delete _ hrecord hid hit, run_delete _ hrecord' hid' hit', ← h.supply]
    exact ⟨rfl, h.setRows (List.rel_append hbefore hafter) _⟩

/-- A request over related worlds ends the same. -/
theorem execute_related (hroute : route.Compiled catalog)
    (hR : Unseen route (R route.model.collection)) (h : Related R w w')
    (htexts : Texts (w.store.rows route.model.collection)) (action : Action) (req : Request) :
    EndsAlike R ((execute route action req).run Memory.driver w)
      ((execute route action req).run Memory.driver w') := by
  unfold execute
  cases hrule : route.rule? action with
  | none => exact ⟨rfl, h⟩
  | some rule =>
    dsimp only
    rw [run_handleRule, run_handleRule]
    rcases screen_related hR hrule req (h.rows route.model.collection) with
      ⟨e, hscreen, hscreen'⟩ | ⟨bound, bound', hscreen, hscreen', hbound⟩
    · rw [hscreen, hscreen']
      exact ⟨rfl, h⟩
    · rw [hscreen, hscreen']
      refine perform_related hR hroute.label h htexts hbound (fun htargets => ?_) req
      obtain ⟨_, _, record, _, hit, hrecord⟩ :=
        screen_resource (hroute.rules action rule hrule) htargets hscreen
      exact ⟨record, hit.mem, hrecord⟩

end step

/-! ### Sessions -/

/-- The results of visits, one after the other. -/
def results : List Visit → World Memory → List (Except Error Response)
  | [], _ => []
  | v :: rest, w =>
    ((execute v.route v.action v.request).run Memory.driver w).1 :: results rest (serve w v)

/-- Over related worlds the visits of a session all end the same, and leave
    related worlds. -/
theorem session_related {R : String → Record → Record → Prop} {text : String} {cfg : Config}
    (hcfg : Config.ofText text = .ok cfg)
    (hR : ∀ r ∈ cfg.routes, Unseen r (R r.model.collection)) {visits : List Visit}
    (hvisits : ∀ v ∈ visits, v.route ∈ cfg.routes) (h : Related R w w')
    (htexts : ∀ c, Texts (w.store.rows c)) :
    results visits w = results visits w' ∧ Related R (session visits w) (session visits w') := by
  -- the invariant is that the worlds are related and the texts are there
  induction visits generalizing w w' with
  | nil => exact ⟨rfl, h⟩
  | cons v rest ih =>
    have hmem : v.route ∈ cfg.routes := hvisits v List.mem_cons_self
    have hroute := Config.ofText_compiled hcfg v.route hmem
    have hm := Config.ofText_sealed hcfg _ hroute.model
    have hstep := execute_related hroute (hR v.route hmem) h (htexts _) v.action v.request
    -- the texts are needed for the rest, and one of the two storages is enough
    have htexts' : ∀ c, Texts ((serve w v).store.rows c) := fun c =>
      (execute_effect hroute hm (htexts _) v.action v.request).texts (htexts c)
    obtain ⟨hresults, hrelated⟩ :=
      ih (fun v' hv' => hvisits v' (List.mem_cons_of_mem _ hv')) hstep.related htexts'
    refine ⟨?_, hrelated⟩
    unfold results
    rw [hstep.result]
    exact congrArg _ hresults

end Engine

end RecordGate

import RecordGate.Proofs.Session

/-! # Which record is written

  An update or a delete finds its record twice: first by the bound field and
  the owner, then by the identifier of what it found. The permission is
  evaluated on the first find, and the second is written.

  - `write_authorized`: both are the same exactly if no record before the
    first shares its identifier. That is always so where identifiers come from
    the supply alone (`Issued`), and where the first find is by the identifier
    too (`ByIdentifier`).
  - A model may declare the identifier as its owner. Then all records that one
    caller creates share an identifier, and `write_unauthorized` is a session
    in which a permission for one record lets another be overwritten.
-/

namespace RecordGate.Engine

open Storage RecordGate.Flow

/-- A record where it stands among others. -/
structure Spot where
  /-- The records before it. -/
  before : List Record
  /-- The record. -/
  record : Record
  /-- The records after it. -/
  after : List Record

namespace Spot

/-- The record is the first of a list that a filter accepts. -/
def IsFirst (p : Spot) (filter : Record) (rows : List Record) : Prop :=
  FirstHit filter rows p.before p.record p.after

/-- What a write of the record, and of no other, leaves of the list. -/
inductive Written (p : Spot) : Action → List Record → Prop where
  /-- An update overwrites values of it where it stands. -/
  | update (values : Record) : p.Written .update (p.before ++ p.record.merge values :: p.after)
  /-- A delete takes it out. -/
  | delete : p.Written .delete (p.before ++ p.after)

theorem IsFirst.unique {p q : Spot} {filter : Record} {rows : List Record}
    (hp : p.IsFirst filter rows) (hq : q.IsFirst filter rows) : q = p := by
  obtain ⟨hbefore, hrecord, hafter⟩ := FirstHit.unique hp hq
  cases p
  cases q
  cases hbefore
  cases hrecord
  cases hafter
  rfl

/-- The first record of an identifier is a given one exactly if no record
    before that has the same. -/
theorem isFirst_id_iff {p q : Spot} {filter : Record} {rows : List Record} {id : String}
    (hp : p.IsFirst filter rows) (hid : p.record.get? idField = some (.str id))
    (hq : q.IsFirst [(idField, .str id)] rows) :
    q = p ↔ ∀ r ∈ p.before, r.get? idField ≠ p.record.get? idField := by
  rw [hid]
  constructor
  · rintro rfl r hr hshared
    have hmiss := hq.miss r hr
    rw [(accepts_text idField id r).mpr hshared] at hmiss
    cases hmiss
  · intro hunshared
    -- then the record itself is the first of its identifier, and there is only one
    refine IsFirst.unique ⟨hp.split, (accepts_text idField id _).mpr hid, fun r hr => ?_⟩ hq
    exact Bool.eq_false_iff.mpr fun hacc => hunshared r hr ((accepts_text idField id r).mp hacc)

end Spot

/-- The record that a request is authorized for: the one that its lookup finds
    and on which the permission of its rule holds. -/
def Authorizes (route : Route) (action : Action) (req : Request) (rows : List Record)
    (p : Spot) : Prop :=
  ∃ rule b req' filter, route.rule? action = some rule ∧ rule.binding = some b ∧
    checkCredential rule req = .ok req' ∧
    lookupFilter? route.model b (callerContext req'.caller) req'.params = some filter ∧
    p.IsFirst filter rows ∧
    rule.permission.holds
      ((callerContext req'.caller).bind route.model.bindingName (.obj p.record)) = true

/-- A write that succeeded: what it was authorized for, and what it wrote. -/
structure Write (route : Route) (action : Action) (req : Request) (w w' : World Memory)
    (p q : Spot) : Prop where
  /-- The request is authorized for the first record. -/
  authorized : Authorizes route action req (w.store.rows route.model.collection) p
  /-- The second one is found by the identifier of the first. -/
  selected : ∃ id, p.record.get? idField = some (.str id) ∧
    q.IsFirst [(idField, .str id)] (w.store.rows route.model.collection)
  /-- It is written. -/
  written : q.Written action (w'.store.rows route.model.collection)
  /-- No other collection is. -/
  others : ∀ c, route.model.collection ≠ c → w'.store.rows c = w.store.rows c

variable {route : Route} {catalog : Catalog} {action : Action} {req : Request} {resp : Response}
  {w w' : World Memory}

/-- The loaded record of an admitted request is what the request is authorized
    for. -/
theorem Aimed.authorizes {rows before after : List Record} {record row : Record}
    (hroute : route.Compiled catalog) (htargets : action.targetsOne = true)
    (h : Aimed route action req rows record before row after) :
    ∃ p : Spot, Authorizes route action req rows p ∧ p.record = record := by
  obtain ⟨bound, ⟨rule, hrule, hscreen⟩, hresource⟩ := h.admitted
  obtain ⟨b, hb⟩ := Option.isSome_iff_exists.mp
    ((hroute.rules action rule hrule).loads.trans htargets)
  obtain ⟨req', filter, before', record', after', hcred, hfilter, hhit, rfl, hholds⟩ :=
    screen_loaded hb hscreen
  exact ⟨⟨before', record', after'⟩,
    ⟨rule, b, req', filter, hrule, hb, hcred, hfilter, hhit, hholds⟩, Option.some.inj hresource⟩

/-- An update or a delete that succeeds is such a write. -/
theorem execute_write (hroute : route.Compiled catalog)
    (htexts : Texts (w.store.rows route.model.collection))
    (haction : action = .update ∨ action = .delete)
    (hrun : (execute route action req).run Memory.driver w = (.ok resp, w')) :
    ∃ p q, Write route action req w w' p q := by
  have hends := execute_ends hroute action req htexts
  rw [hrun] at hends
  cases hends with
  | created _ _ => rcases haction with h | h <;> cases h
  | listed _ => rcases haction with h | h <;> cases h
  | read _ _ => rcases haction with h | h <;> cases h
  | @updated record row values before after supply aimed drawn =>
    obtain ⟨p, hauthorized, rfl⟩ := aimed.authorizes hroute rfl
    refine ⟨p, ⟨before, row, after⟩, hauthorized, aimed.selected, ?_, fun c hc => ?_⟩
    · rw [Memory.rows_setRows, if_pos rfl]
      exact .update values
    · rw [Memory.rows_setRows, if_neg hc]
  | @deleted record row before after aimed =>
    obtain ⟨p, hauthorized, rfl⟩ := aimed.authorizes hroute rfl
    refine ⟨p, ⟨before, row, after⟩, hauthorized, aimed.selected, ?_, fun c hc => ?_⟩
    · rw [Memory.rows_setRows, if_pos rfl]
      exact .delete
    · rw [Memory.rows_setRows, if_neg hc]

/-! ### When both finds agree -/

/-- Whether an action finds its record by the identifier alone, be it as the
    bound field or as the owner. -/
def ByIdentifier (route : Route) (action : Action) : Prop :=
  ∃ rule b, route.rule? action = some rule ∧ rule.binding = some b ∧ b.field = idField ∧
    (route.model.owner = none ∨ route.model.owner = some idField)

theorem lookupFilter?_byIdentifier {m : Model} {b : Binding} {c : Context}
    {params : Keyed String} {filter : Record} (hb : b.field = idField)
    (hm : m.owner = none ∨ m.owner = some idField)
    (h : lookupFilter? m b c params = some filter) : ∃ v, filter = [(idField, v)] := by
  rcases hm with hm | hm
  · rw [lookupFilter?_unowned hm, hb] at h
    obtain ⟨key, -, rfl⟩ := Option.map_eq_some_iff.mp h
    exact ⟨key, rfl⟩
  · rw [lookupFilter?_owned hm, hb] at h
    obtain ⟨key, -, h⟩ := Option.bind_eq_some_iff.mp h
    obtain ⟨id, -, rfl⟩ := Option.map_eq_some_iff.mp h
    exact ⟨id, by simp [Record.insert]⟩

/-- A filter for the identifier that accepts a text is the filter for this
    text. -/
theorem eq_of_accepts_text {k id : String} {v : Json} {r : Record}
    (hid : r.get? k = some (.str id)) (h : accepts [(k, v)] r = true) : v = .str id := by
  obtain ⟨v', hv', hsame⟩ := (accepts_singleton k v r).mp h
  rw [hid] at hv'
  cases hv'
  cases v <;> simp_all [Json.same]

theorem write_byIdentifier {p q : Spot} (h : Write route action req w w' p q)
    (hid : ByIdentifier route action) : q = p := by
  obtain ⟨rule, b, req', filter, hrule, hb, -, hfilter, hp, -⟩ := h.authorized
  obtain ⟨rule', b', hrule', hb', hfield, hm⟩ := hid
  rw [hrule] at hrule'
  cases hrule'
  rw [hb] at hb'
  cases hb'
  -- the first find accepted its record by the identifier, so both ask for the same text
  obtain ⟨v, rfl⟩ := lookupFilter?_byIdentifier hfield hm hfilter
  obtain ⟨id, hrecord, hq⟩ := h.selected
  rw [eq_of_accepts_text hrecord hp.hit] at hp
  exact hp.unique hq

theorem write_identified {p q : Spot} (h : Write route action req w w' p q)
    (hid : Identified (w.store.rows route.model.collection)) : q = p := by
  obtain ⟨rule, b, req', filter, -, -, -, -, hp, -⟩ := h.authorized
  obtain ⟨id, hrecord, hq⟩ := h.selected
  exact Spot.IsFirst.unique (hid.firstHit_id hp hrecord) hq

/-- Under a checked configuration, in every session from an empty storage, an
    update or a delete that succeeds writes one record and no other. This is
    the record that it was authorized for exactly if none before that one
    shares its identifier, and so it is wherever no create in the collection
    sets the identifier as the owner, or the lookup was by the identifier. -/
theorem write_authorized {text : String} {cfg : Config} (hcfg : Config.ofText text = .ok cfg)
    (hroute : route ∈ cfg.routes) (haction : action = .update ∨ action = .delete)
    {visits : List Visit} (hvisits : ∀ v ∈ visits, v.route ∈ cfg.routes) {supply : Supply}
    (hw : w = session visits ⟨supply, Memory.empty⟩) (hdistinct : w.supply.Distinct)
    (hrun : (execute route action req).run Memory.driver w = (.ok resp, w')) :
    ∃ p q, Write route action req w w' p q ∧
      (q = p ↔ ∀ r ∈ p.before, r.get? idField ≠ p.record.get? idField) ∧
      (Issued cfg route.model.collection ∨ ByIdentifier route action → q = p) := by
  have htexts : ∀ c, Texts (Memory.empty.rows c) := fun _ => texts_nil
  have hstored := session_texts (w := ⟨supply, Memory.empty⟩) hcfg hvisits htexts
  rw [← hw] at hstored
  obtain ⟨p, q, hwrite⟩ :=
    execute_write (Config.ofText_compiled hcfg route hroute) (hstored _) haction hrun
  refine ⟨p, q, hwrite, ?_, ?_⟩
  · obtain ⟨rule, b, req', filter, -, -, -, -, hp, -⟩ := hwrite.authorized
    obtain ⟨id, hid, hq⟩ := hwrite.selected
    exact Spot.isFirst_id_iff hp hid hq
  · rintro (hissued | hid)
    · -- identifiers from the supply are distinct, so the second find is the first
      have hminted := session_minted (w := ⟨supply, Memory.empty⟩) hcfg hvisits hissued htexts
        (minted_nil supply)
      rw [← hw] at hminted
      exact write_identified hwrite (hminted.identified hdistinct)
    · exact write_byIdentifier hwrite hid

/-- The author of a new note updates it, and nothing else. -/
theorem notes_authorized :
    ∃ cfg route, Config.ofText Config.notes = .ok cfg ∧ route ∈ cfg.routes ∧
      let ann : Caller := .authenticated ⟨"ann", [], none, none, []⟩
      let w := session [⟨route, .create, ⟨[], none, ann⟩⟩] ⟨Supply.still, Memory.empty⟩
      let req : Request := ⟨[("_id", (Supply.still.ids 0).toHex)],
        some (.obj [("at", .str "noon")]), ann⟩
      ∃ resp w' p, (execute route .update req).run Memory.driver w = (.ok resp, w') ∧
        Write route .update req w w' p p := by
  have htest : okAnd (Config.ofDecl Config.notesDecl) (fun cfg =>
      cfg.routes.all (fun r => decide (r.model.owner ≠ some idField)) &&
      cfg.routes.any fun route =>
        let ann : Caller := .authenticated ⟨"ann", [], none, none, []⟩
        let w := session [⟨route, .create, ⟨[], none, ann⟩⟩] ⟨Supply.still, Memory.empty⟩
        let req : Request := ⟨[("_id", (Supply.still.ids 0).toHex)],
          some (.obj [("at", .str "noon")]), ann⟩
        decide (w.supply.issued = 1) &&
          okAnd ((execute route .update req).run Memory.driver w).1 fun _ => true) = true := by
    decide +kernel
  obtain ⟨cfg, hdecl, htest⟩ := okAnd_iff.mp htest
  have hcfg : Config.ofText Config.notes = .ok cfg := Config.ofText_notes.trans hdecl
  rw [Bool.and_eq_true, List.all_eq_true, List.any_eq_true] at htest
  obtain ⟨howners, route, hroute, htest⟩ := htest
  simp only [Bool.and_eq_true, decide_eq_true_eq] at htest
  obtain ⟨hissued, hok⟩ := htest
  obtain ⟨resp, hresp, -⟩ := okAnd_iff.mp hok
  refine ⟨cfg, route, hcfg, hroute, ?_⟩
  intro ann w req
  -- one identifier was handed out, and that is distinct from all others
  have hdistinct : w.supply.Distinct := by
    intro i hi j hj _
    have hone : w.supply.issued = 1 := hissued
    omega
  have hrun : (execute route .update req).run Memory.driver w =
      (.ok resp, ((execute route .update req).run Memory.driver w).2) := Prod.ext hresp rfl
  obtain ⟨p, q, hwrite, -, hsame⟩ := write_authorized hcfg hroute (.inl rfl)
    (fun v hv => by rw [List.mem_singleton.mp hv]; exact hroute) rfl hdistinct hrun
  have hnever : Issued cfg route.model.collection := fun r hr _ _ => by simpa using howners r hr
  exact ⟨resp, _, p, hrun, hsame (.inl hnever) ▸ hwrite⟩

/-! ### When they do not -/

/-- The record that the lookup of a request finds. -/
def found? (route : Route) (action : Action) (req : Request) (rows : List Record) :
    Option Record := do
  let rule ← route.rule? action
  let b ← rule.binding
  let req ← (checkCredential rule req).toOption
  let filter ← lookupFilter? route.model b (callerContext req.caller) req.params
  rows.find? (accepts filter)

theorem Authorizes.found {rows : List Record} {p : Spot}
    (h : Authorizes route action req rows p) : found? route action req rows = some p.record := by
  obtain ⟨rule, b, req', filter, hrule, hb, hcred, hfilter, hp, -⟩ := h
  unfold found?
  simp only [hrule, hb, hcred, Option.bind_eq_bind, Option.bind_some, Except.toOption, hfilter]
  exact hp.find?

/-- Notes whose identifiers are their authors'. -/
def selfOwned : String :=
"models:
  Notes:
    owner: _id
    fields:
      _id: [ObjectId, r]
      slug: [String, cru]
routes:
  - path: /notes
    model: Notes
    rules:
      c: \"@req_user._id=@req_user._id\"
      u:
        allow: \"@note.slug=@req_user.slug\"
        where: slug
"

/-- An author with a permission for notes of one name. -/
def author : Caller :=
  .authenticated ⟨"64b00000000000000000000a", [], none, none, [("slug", .str "b")]⟩

/-- A note under a name. -/
def noteOf (slug : String) : Record :=
  [("_id", .str "64b00000000000000000000a"), ("slug", .str slug)]

/-- If the first of two records changes and the second was authorized, the
    write was not the authorized one. -/
theorem not_written_of_first {a b c : Record} (hab : a ≠ b) (hac : a ≠ c) {p : Spot}
    {rows rows' : List Record} (hrows : rows = [a, b]) (hrows' : rows' = [c, b])
    (h : Authorizes route .update req rows p) (hfound : found? route .update req rows = some b) :
    ¬ p.Written .update rows' := by
  intro hwritten
  have hrecord : p.record = b := Option.some.inj (h.found.symm.trans hfound)
  obtain ⟨_, _, _, _, -, -, -, -, hp, -⟩ := h
  have hsplit := hp.split
  rw [hrows, hrecord] at hsplit
  cases hwritten with
  | update values =>
    -- the authorized record is the second one, so the first would have stayed
    match hbefore : p.before with
    | [] =>
      rw [hbefore] at hsplit
      exact hab (List.cons.inj hsplit).1
    | first :: rest =>
      rw [hbefore] at hsplit hrows'
      exact hac ((List.cons.inj hsplit).1.trans (List.cons.inj hrows').1)

/-- The two notes `a` and `b` of an author share their identifier. A
    permission for `b` alone lets `a` be overwritten. -/
theorem write_unauthorized :
    ∃ cfg route, Config.ofText selfOwned = .ok cfg ∧ route ∈ cfg.routes ∧
      let create (slug : String) : Visit :=
        ⟨route, .create, ⟨[], some (.obj [("slug", .str slug)]), author⟩⟩
      let w := session [create "a", create "b"] ⟨Supply.still, Memory.empty⟩
      let req : Request := ⟨[("slug", "b")], some (.obj [("slug", .str "c")]), author⟩
      w.supply.Distinct ∧
      ∃ resp w', (execute route .update req).run Memory.driver w = (.ok resp, w') ∧
        ¬ ∃ p : Spot, Authorizes route .update req (w.store.rows route.model.collection) p ∧
          p.Written .update (w'.store.rows route.model.collection) := by
  have htest : okAnd (Config.ofText selfOwned) (fun cfg => cfg.routes.any fun route =>
      let create (slug : String) : Visit :=
        ⟨route, .create, ⟨[], some (.obj [("slug", .str slug)]), author⟩⟩
      let w := session [create "a", create "b"] ⟨Supply.still, Memory.empty⟩
      let req : Request := ⟨[("slug", "b")], some (.obj [("slug", .str "c")]), author⟩
      let run := (execute route .update req).run Memory.driver w
      decide (w.supply.issued = 0) && okAnd run.1 (fun _ => true) &&
        decide (w.store.rows route.model.collection = [noteOf "a", noteOf "b"]) &&
        decide (run.2.store.rows route.model.collection = [noteOf "c", noteOf "b"]) &&
        decide (found? route .update req (w.store.rows route.model.collection) =
          some (noteOf "b"))) = true := by decide +kernel
  obtain ⟨cfg, hcfg, htest⟩ := okAnd_iff.mp htest
  obtain ⟨route, hroute, htest⟩ := List.any_eq_true.mp htest
  simp only [Bool.and_eq_true, decide_eq_true_eq] at htest
  obtain ⟨⟨⟨⟨hissued, hok⟩, hrows⟩, hrows'⟩, hfound⟩ := htest
  obtain ⟨resp, hresp, -⟩ := okAnd_iff.mp hok
  refine ⟨cfg, route, hcfg, hroute, ?_⟩
  intro create w req
  refine ⟨?_, resp, _, Prod.ext hresp rfl, ?_⟩
  -- the identifiers are the owners, so the supply handed out none
  · intro i hi
    have hnone : w.supply.issued = 0 := hissued
    omega
  · rintro ⟨p, hauthorized, hwritten⟩
    exact not_written_of_first (by decide) (by decide) hrows hrows' hauthorized hfound hwritten

end RecordGate.Engine

import RecordGate.Proofs.Compilation
import RecordGate.Proofs.Handling

/-! # Owner isolation

  On a model with an owner, a caller deals with a collection of his own
  records and with nothing else.

  **Key idea.** A run by one caller is compared with the run in which only his
  records are stored (`alone`). `execute_alone` says that both answer the same
  and do the same to his records, and that the others are left as they are. So
  two storages with the same records of his cannot be told apart
  (`owner_isolation`).

  - The lookup and the list ask for the owner (`locate_owned`,
    `visible_owned`).
  - An update and a delete ask for the identifier alone. That selects the
    loaded record again as long as identifiers are not shared.
  - A create stamps the owner, and an update never touches it.
-/

namespace RecordGate.Engine

open Storage RecordGate.Flow

variable {m : Model} {action : Action} {rule : Rule} {req : Request} {rows : List Record}
  {owner s : String}

/-- Whether a record belongs to somebody. -/
def owned (owner : String) (o : Json) (r : Record) : Bool :=
  decide (r.get? owner = some o)

/-- Whether a record belongs to somebody else or to nobody. -/
def foreign (owner : String) (o : Json) (r : Record) : Bool :=
  !owned owner o r

/-- A world in which a collection has certain records, and nothing else is
    stored. -/
def alone (collection : String) (rows : List Record) (supply : Supply) : World Memory :=
  ⟨supply, ⟨[(collection, rows)]⟩⟩

@[simp] theorem rows_alone (collection : String) (rows : List Record) (supply : Supply) :
    (alone collection rows supply).store.rows collection = rows := by
  simp [alone, Memory.rows, Keyed.get?]

theorem rows_alone_other {collection c : String} (hc : collection ≠ c) (rows : List Record)
    (supply : Supply) : (alone collection rows supply).store.rows c = [] := by
  simp [alone, Memory.rows, Keyed.get?, hc]

/-- What holds of its records and of none holds of every collection there. -/
theorem rows_alone_of {P : List Record → Prop} {rows : List Record} (hrows : P rows)
    (hnil : P []) (collection : String) (supply : Supply) (c : String) :
    P ((alone collection rows supply).store.rows c) := by
  by_cases hc : collection = c
  · subst hc
    rw [rows_alone]
    exact hrows
  · rw [rows_alone_other hc]
    exact hnil

@[simp] theorem supply_alone (collection : String) (rows : List Record) (supply : Supply) :
    (alone collection rows supply).supply = supply := rfl

theorem accepts_owner (owner s : String) :
    accepts (Record.insert [] owner (.str s)) = owned owner (.str s) := by
  funext r
  have h := accepts_text owner s r
  show accepts [(owner, .str s)] r = _
  unfold owned
  by_cases hr : r.get? owner = some (.str s)
  · rw [h.mpr hr, decide_eq_true hr]
  · rw [decide_eq_false hr]
    exact Bool.eq_false_iff.mpr fun hacc => hr (h.mp hacc)

/-! ### Nothing else is seen -/

section sees
variable {c : Context} {claims : Claims}

/-- What a lookup accepts belongs to the caller. -/
theorem lookup_owned (hw : m.owner = some owner) (ho : ownerValue? m c = some (.str s))
    {b : Binding} {params : Keyed String} {filter : Record}
    (hfilter : lookupFilter? m b c params = some filter) {r : Record}
    (hr : accepts filter r = true) : owned owner (.str s) r = true := by
  rw [lookupFilter?_owned hw, ho] at hfilter
  obtain ⟨key, -, hfilter⟩ := Option.bind_eq_some_iff.mp hfilter
  cases hfilter
  rw [accepts_insert] at hr
  exact decide_eq_true ((accepts_text owner s r).mp hr.2)

/-- The caller's records alone decide which record is loaded. -/
theorem locate_owned (hw : m.owner = some owner)
    (ho : ownerValue? m (callerContext req.caller) = some (.str s)) (rule : Rule)
    (rows : List Record) :
    locate m rule req (rows.filter (owned owner (.str s))) = locate m rule req rows := by
  unfold locate
  dsimp only
  cases rule.binding with
  | none => rfl
  | some b =>
    dsimp only
    cases hfilter : lookupFilter? m b (callerContext req.caller) req.params with
    | none => rfl
    | some filter =>
      -- records of others are skipped anyway
      have hfind : (rows.filter (owned owner (.str s))).find? (accepts filter) =
          rows.find? (accepts filter) := by
        rw [List.find?_filter]
        congr
        funext r
        cases hr : accepts filter r with
        | false => simp
        | true => simp [lookup_owned hw ho hfilter hr]
      dsimp only
      rw [hfind]

theorem checkCredential_of_authenticated (hcaller : req.caller = .authenticated claims)
    (rule : Rule) : checkCredential rule req = .ok req := by
  unfold checkCredential
  rw [hcaller]

theorem screen_owned (hw : m.owner = some owner) (hcaller : req.caller = .authenticated claims)
    (ho : ownerValue? m (callerContext (.authenticated claims)) = some (.str s)) (rule : Rule)
    (rows : List Record) :
    screen m rule req (rows.filter (owned owner (.str s))) = screen m rule req rows := by
  unfold screen
  rw [checkCredential_of_authenticated hcaller, ok_bind, ok_bind, locate_owned hw (hcaller ▸ ho)]

/-- A list shows the caller's records. -/
theorem visible_owned (hw : m.owner = some owner) (ho : ownerValue? m c = some (.str s))
    (rows : List Record) : visible m c rows = rows.filter (owned owner (.str s)) := by
  unfold visible
  rw [hw]
  dsimp only
  rw [ho]
  dsimp only
  rw [accepts_owner]

end sees

/-! ### Nothing else is written -/

section writes
variable {c : Context}

/-- A create stores the owner, and there has to be one. -/
theorem newValues_stamped (hw : m.owner = some owner) (req : Request) :
    (newValues m req c).Yields fun values =>
      ∃ o, ownerValue? m c = some o ∧ values.get? owner = some o := by
  refine (yields_true _).bind fun raw _ => (yields_true _).bind fun values _ => ?_
  unfold stampOwner
  rw [hw]
  dsimp only
  cases ho : ownerValue? m c with
  | none => exact fun _ _ h => by cases h
  | some o =>
    refine yields_pure ⟨o, rfl, ?_⟩
    rw [Record.get?_insert, if_pos rfl]

/-- What a create stores belongs to the caller. -/
theorem newValues_owned (hw : m.owner = some owner) {o : Json} (ho : ownerValue? m c = some o)
    (req : Request) : (newValues m req c).Yields fun values => values.get? owner = some o := by
  intro supply values hdrawn
  obtain ⟨o', ho', hstored⟩ := newValues_stamped hw req supply values hdrawn
  rw [ho] at ho'
  cases ho'
  exact hstored

/-- An identifier is given to a record that has none, and nothing else is
    changed. -/
theorem withId_get? {values : Record} {t : String} (h : values.get? owner = some (.str t))
    (supply : Supply) : (withId values supply).1.get? owner = some (.str t) := by
  unfold withId
  split
  · exact h
  next hid =>
    dsimp only
    rw [Record.get?_insert]
    split
    -- an owner under the identifier is a text, and then nothing is given
    next howner =>
      subst howner
      exact absurd h (hid t)
    · exact h

end writes

/-! ### A run among one's own records -/

/-- A run comes to the same as one among the records that a test keeps, and
    leaves all others as they are. -/
structure Confined (keep : Record → Bool) (collection : String) (w : World Memory)
    (run run' : Except Error Response × World Memory) : Prop where
  /-- The results are the same. -/
  result : run.1 = run'.1
  /-- Both draw the same from the supply. -/
  supply : run.2.supply = run'.2.supply
  /-- The kept records end up the same. -/
  kept : (run.2.store.rows collection).filter keep = run'.2.store.rows collection
  /-- The others stay. -/
  others : (run.2.store.rows collection).filter (fun r => !keep r) =
    (w.store.rows collection).filter fun r => !keep r

/-- A run that changes nothing is confined if it has the same result alone. -/
theorem confined_of_unchanged {keep : Record → Bool} {collection : String} {w : World Memory}
    (result : Except Error Response) (supply : Supply) :
    Confined keep collection w (result, ⟨supply, w.store⟩)
      (result, ⟨supply, (alone collection ((w.store.rows collection).filter keep) w.supply).store⟩)
    where
  result := rfl
  supply := rfl
  kept := (rows_alone collection _ w.supply).symm
  others := rfl

/-- So is a run that changes kept records alone. -/
theorem confined_of_setRows {keep : Record → Bool} {collection : String} {w : World Memory}
    (result : Except Error Response) (supply : Supply) {rows rows' : List Record}
    {store' : Memory} (hkept : rows.filter keep = rows')
    (hothers : rows.filter (fun r => !keep r) =
      (w.store.rows collection).filter fun r => !keep r) :
    Confined keep collection w (result, ⟨supply, w.store.setRows collection rows⟩)
      (result, ⟨supply, store'.setRows collection rows'⟩) where
  result := rfl
  supply := rfl
  kept := by rw [Memory.rows_setRows, Memory.rows_setRows, if_pos rfl, if_pos rfl, hkept]
  others := by rw [Memory.rows_setRows, if_pos rfl, hothers]

section alone
variable {bound : Bound} {w : World Memory}

/-- An allowed action is confined to the caller's records if the loaded record
    is one of them. -/
theorem perform_alone (hw : m.owner = some owner)
    (ho : ownerValue? m bound.context = some (.str s))
    (hid : Identified (w.store.rows m.collection))
    (hloaded : action.targetsOne = true → ∃ filter before record after,
      FirstHit filter (w.store.rows m.collection) before record after ∧
      bound.resource = some record ∧ owned owner (.str s) record = true) :
    Confined (owned owner (.str s)) m.collection w
      ((perform m action req bound).run Memory.driver w)
      ((perform m action req bound).run Memory.driver (alone m.collection
        ((w.store.rows m.collection).filter (owned owner (.str s))) w.supply)) := by
  cases action with
  | create =>
    show Confined _ _ _ ((create m req bound).run _ _) ((create m req bound).run _ _)
    rw [run_create, run_create, supply_alone]
    rcases (newValues_owned hw ho req).draw w.supply with
      ⟨values, supply, hdraw, howned, -⟩ | ⟨e, supply, hdraw, -⟩
    · rw [hdraw]
      -- the new record is stamped, so it joins the kept ones at the end
      have hstored : owned owner (.str s) (withId values supply).1 = true :=
        decide_eq_true (withId_get? howned supply)
      refine confined_of_setRows _ _ ?_ ?_
      · rw [List.filter_append, rows_alone, List.filter_cons_of_pos hstored, List.filter_nil]
      · rw [List.filter_append, List.filter_cons_of_neg (by simp [hstored]), List.filter_nil,
          List.append_nil]
    · rw [hdraw]
      exact confined_of_unchanged _ _
  | list =>
    -- the list asks for the owner, so to filter before it changes nothing
    show Confined _ _ _ ((list m bound).run _ _) ((list m bound).run _ _)
    rw [run_list, run_list, rows_alone, visible_owned hw ho, visible_owned hw ho,
      List.filter_filter]
    simp only [Bool.and_self]
    exact confined_of_unchanged _ _
  | read =>
    obtain ⟨_, _, record, _, -, hresource, -⟩ := hloaded rfl
    show Confined _ _ _ ((read m bound).run _ _) ((read m bound).run _ _)
    rw [run_read m hresource, run_read m hresource]
    exact confined_of_unchanged _ _
  | update =>
    obtain ⟨filter, before, record, after, hhit, hresource, howned⟩ := hloaded rfl
    obtain ⟨id, hrecord⟩ := hid.text record hhit.mem
    -- the identifier selects the loaded record again, among all and alone
    have hit := hid.firstHit_id hhit hrecord
    have hit' := hit.restrict howned
    rw [← rows_alone m.collection (List.filter _ _) w.supply] at hit'
    show Confined _ _ _ ((update m req bound).run _ _) ((update m req bound).run _ _)
    rw [run_update m req hresource hrecord hit, run_update m req hresource hrecord hit',
      supply_alone]
    rcases (changedValues_lacks (.inr hw) req).draw w.supply with
      ⟨values, supply, hdraw, hlack, -⟩ | ⟨e, supply, hdraw, -⟩
    · rw [hdraw]
      -- the record stays with its owner, because the values have none
      have hmerged : owned owner (.str s) (record.merge values) = true := by
        unfold owned
        rw [Record.get?_merge_of_none record hlack]
        exact howned
      refine confined_of_setRows _ _ ?_ ?_
      · rw [List.filter_append, List.filter_cons_of_pos hmerged]
      · rw [hit.split, List.filter_append, List.filter_append,
          List.filter_cons_of_neg (by simp [hmerged]), List.filter_cons_of_neg (by simp [howned])]
    · rw [hdraw]
      exact confined_of_unchanged _ _
  | delete =>
    obtain ⟨filter, before, record, after, hhit, hresource, howned⟩ := hloaded rfl
    obtain ⟨id, hrecord⟩ := hid.text record hhit.mem
    have hit := hid.firstHit_id hhit hrecord
    have hit' := hit.restrict howned
    rw [← rows_alone m.collection (List.filter _ _) w.supply] at hit'
    show Confined _ _ _ ((delete m bound).run _ _) ((delete m bound).run _ _)
    rw [run_delete m hresource hrecord hit, run_delete m hresource hrecord hit']
    refine confined_of_setRows _ _ ?_ ?_
    · rw [List.filter_append]
    · rw [hit.split, List.filter_append, List.filter_append,
        List.filter_cons_of_neg (by simp [howned])]

end alone

/-- A record under a root of its own does not change who the caller is. -/
theorem ownerValue?_bind {c : Context} {root : String} (hroot : root ≠ callerRoot) (v : Json)
    (m : Model) : ownerValue? m (c.bind root v) = ownerValue? m c := by
  have hid : (c.bind root v).callerId? = c.callerId? := by
    unfold Context.callerId? Context.get? Context.bind
    rw [Record.get?_insert, if_neg hroot]
  unfold ownerValue?
  rw [hid]

/-- A request by a caller with an identifier is confined to his records. -/
theorem execute_alone (req : Request) {catalog : Catalog} {route : Route} (hroute : route.Compiled catalog)
    (hw : route.model.owner = some owner) {claims : Claims}
    (hcaller : req.caller = .authenticated claims)
    (ho : ownerValue? route.model (callerContext (.authenticated claims)) = some (.str s))
    (action : Action) {w : World Memory} (hid : Identified (w.store.rows route.model.collection)) :
    Confined (owned owner (.str s)) route.model.collection w
      ((execute route action req).run Memory.driver w)
      ((execute route action req).run Memory.driver (alone route.model.collection
        ((w.store.rows route.model.collection).filter (owned owner (.str s))) w.supply)) := by
  unfold execute
  cases hrule : route.rule? action with
  | none => exact confined_of_unchanged _ _
  | some rule =>
    dsimp only
    rw [run_handleRule, run_handleRule, rows_alone, screen_owned hw hcaller ho]
    cases hscreen : screen route.model rule req (w.store.rows route.model.collection) with
    | error e => exact confined_of_unchanged _ _
    | ok bound =>
      obtain ⟨req', hcred, hlocate, -⟩ := screen_eq_ok.mp hscreen
      rw [checkCredential_of_authenticated hcaller] at hcred
      cases hcred
      rw [← hcaller] at ho
      cases hb : rule.binding with
      | none =>
        -- nothing is loaded, so the action is about no single record
        have hloads := (hroute.rules action rule hrule).loads
        rw [hb] at hloads
        unfold locate at hlocate
        rw [hb] at hlocate
        cases hlocate
        exact perform_alone hw ho hid fun htargets => by rw [htargets] at hloads; cases hloads
      | some b =>
        obtain ⟨filter, before, record, after, hfilter, hit, rfl⟩ := locate_eq_ok hb hlocate
        refine perform_alone hw ?_ hid fun _ => ⟨filter, before, record, after, hit, rfl, ?_⟩
        · rw [ownerValue?_bind hroute.label, ho]
        · exact lookup_owned hw ho hfilter hit.hit

/-! ### Two storages -/

/-- Two storages with identified records and the same records of a caller
    cannot be told apart by him: a request to a compiled route gives the same
    result, draws the same from the supply, leaves his records the same and
    all others as they were. -/
theorem owner_isolation {decl : RouteDecl} {catalog : Catalog} {route : Route}
    (hcatalog : catalog.Built) (hroute : Route.compile decl catalog = .ok route)
    {owner : String} (hw : route.model.owner = some owner) {claims : Claims} {o : Json}
    (ho : ownerValue? route.model (callerContext (.authenticated claims)) = some o)
    (action : Action) (params : Keyed String) (body : Option Json) (w₁ w₂ : World Memory)
    (hsupply : w₁.supply = w₂.supply)
    (hid₁ : Identified (w₁.store.rows route.model.collection))
    (hid₂ : Identified (w₂.store.rows route.model.collection))
    (hsame : (w₁.store.rows route.model.collection).filter (owned owner o) =
      (w₂.store.rows route.model.collection).filter (owned owner o)) :
    let flow := execute route action ⟨params, body, .authenticated claims⟩
    let run₁ := flow.run Memory.driver w₁
    let run₂ := flow.run Memory.driver w₂
    run₁.1 = run₂.1 ∧ run₁.2.supply = run₂.2.supply ∧
      (run₁.2.store.rows route.model.collection).filter (owned owner o) =
        (run₂.2.store.rows route.model.collection).filter (owned owner o) ∧
      (run₁.2.store.rows route.model.collection).filter (foreign owner o) =
        (w₁.store.rows route.model.collection).filter (foreign owner o) ∧
      (run₂.2.store.rows route.model.collection).filter (foreign owner o) =
        (w₂.store.rows route.model.collection).filter (foreign owner o) := by
  have hcompiled := Route.compile_compiled hroute
  obtain ⟨s, rfl⟩ := ownerValue?_text (hcatalog.checked _ hcompiled.model) ho
  intro flow run₁ run₂
  have h₁ := execute_alone ⟨params, body, .authenticated claims⟩ hcompiled hw rfl ho
    action hid₁
  have h₂ := execute_alone ⟨params, body, .authenticated claims⟩ hcompiled hw rfl ho
    action hid₂
  -- both runs come to the same run among the records of the caller
  rw [← hsame, ← hsupply] at h₂
  exact ⟨h₁.result.trans h₂.result.symm, h₁.supply.trans h₂.supply.symm,
    h₁.kept.trans h₂.kept.symm, h₁.others, h₂.others⟩

/-- Notes that belong to their authors. -/
def noteModel : ModelDecl where
  label := none
  storage := some "notes"
  owner := some "by"
  fields := [("_id", .short [.str "ObjectId", .str "r"]), ("by", .short [.str "String", .str "r"]),
    ("title", .short [.str "String", .str "cru"])]
  createHooks := ["timestamps"]
  updateHooks := []

/-- An author deletes a note by its title. -/
def noteRoute : RouteDecl where
  path := "/notes"
  model := "Note"
  rules := [("d", .full "@note.by=@req_user._id" (some (.field "title")))]

/-- A note of Ann's. -/
def annsNote : Record := [("_id", .str "00"), ("by", .str "ann"), ("title", .str "Home")]

/-- A note of Bob's. -/
def bobsNote : Record := [("_id", .str "01"), ("by", .str "bob"), ("title", .str "Plan")]

theorem identified_notes : Identified [annsNote, bobsNote] := by
  refine ⟨fun r hr => ?_, by decide⟩
  rcases List.mem_cons.mp hr with rfl | hr
  · exact ⟨"00", rfl⟩
  · rw [List.mem_singleton.mp hr]
    exact ⟨"01", rfl⟩

/-- Ann cannot find out whether Bob has a note by deleting it, and it stays. -/
theorem notes_isolated :
    ∃ catalog route, Catalog.empty.declare "Note" noteModel = .ok catalog ∧
      Route.compile noteRoute catalog = .ok route ∧
      let flow := execute route .delete
        ⟨[("title", "Plan")], none, .authenticated ⟨"ann", [], none, none, []⟩⟩
      (flow.run Memory.driver ⟨Supply.still, ⟨[("notes", [annsNote, bobsNote])]⟩⟩).1 =
          (flow.run Memory.driver ⟨Supply.still, ⟨[("notes", [annsNote])]⟩⟩).1 ∧
        ((flow.run Memory.driver ⟨Supply.still, ⟨[("notes", [annsNote, bobsNote])]⟩⟩).2.store.rows
          route.model.collection).filter (foreign "by" (.str "ann")) = [bobsNote] := by
  have htest : okAnd (Catalog.empty.declare "Note" noteModel) (fun catalog =>
      okAnd (Route.compile noteRoute catalog) fun route =>
        decide (route.model.owner = some "by") && decide (route.model.collection = "notes") &&
        decide (ownerValue? route.model (callerContext (.authenticated ⟨"ann", [], none, none, []⟩)) =
          some (.str "ann"))) = true := by decide +kernel
  obtain ⟨catalog, hcatalog, htest⟩ := okAnd_iff.mp htest
  obtain ⟨route, hroute, htest⟩ := okAnd_iff.mp htest
  simp only [Bool.and_eq_true, decide_eq_true_eq] at htest
  obtain ⟨⟨hw, hcollection⟩, ho⟩ := htest
  have hid₂ : Identified [annsNote] := by
    refine ⟨fun r hr => ?_, by decide⟩
    rw [List.mem_singleton.mp hr]
    exact ⟨"00", rfl⟩
  have hisolated := owner_isolation (Catalog.Built.empty.declare hcatalog) hroute hw ho .delete
    [("title", "Plan")] none ⟨Supply.still, ⟨[("notes", [annsNote, bobsNote])]⟩⟩
    ⟨Supply.still, ⟨[("notes", [annsNote])]⟩⟩ rfl
    (by rw [hcollection]; exact identified_notes) (by rw [hcollection]; exact hid₂)
    (by rw [hcollection]; rfl)
  refine ⟨catalog, route, hcatalog, hroute, hisolated.1, ?_⟩
  have hforeign := hisolated.2.2.2.1
  exact hforeign.trans (by rw [hcollection]; rfl)

end RecordGate.Engine

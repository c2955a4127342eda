import RecordGate.Proofs.Ending
import RecordGate.Proofs.OwnerIsolation

/-! # What a request changes

  A request changes everything that it says, at one place, or nothing.

  **Key idea.** Whatever can refuse a request comes before its only write: the
  credential, the lookup, the permission, the body and the values. So an error
  leaves the storage as it was, and a success leaves the one change that its
  action makes (`Leaves`). All other records stay, in their order.
-/

namespace RecordGate

/-! ### What an answer shows -/

/-- Whether answers show a name. -/
def Model.reveals (m : Model) (name : String) : Bool :=
  m.fields.any fun f => f.name = name && f.isReadable

namespace Shape

variable {k : String}

/-- Taking a readable field into an answer shows its name, if there is a value
    for it. -/
theorem get?_outputFields (stored : Record) (fields : List Field) (out : Record) :
    Record.get? (outputFields stored fields out) k =
      if fields.any (fun f => f.name = k && f.isReadable) then
        (Record.get? stored k).or (Record.get? out k)
      else Record.get? out k := by
  -- fields that come later only add to the answer, so the induction is over any answer
  induction fields generalizing out with
  | nil => rfl
  | cons f fields ih =>
    unfold outputFields
    by_cases hreadable : f.isReadable = true
    · rw [if_pos hreadable]
      by_cases hname : f.name = k
      · subst hname
        rw [List.any_cons, hreadable, decide_eq_true rfl, Bool.and_self, Bool.true_or, if_pos rfl]
        cases hvalue : Record.get? stored f.name with
        | none =>
          dsimp only
          rw [ih, hvalue]
          exact ite_self _
        | some value =>
          dsimp only
          rw [ih, hvalue, Record.get?_insert, if_pos rfl]
          exact ite_self _
      · rw [List.any_cons, decide_eq_false hname, Bool.false_and, Bool.false_or]
        cases Record.get? stored f.name with
        | none => exact ih out
        | some value =>
          dsimp only
          rw [ih, Record.get?_insert, if_neg hname]
    · rw [if_neg hreadable, ih, List.any_cons, Bool.eq_false_iff.mpr hreadable, Bool.and_false,
        Bool.false_or]

/-- An answer shows what is stored under the names of readable fields, and
    nothing else. -/
theorem get?_output (m : Model) (stored : Record) (k : String) :
    (output m stored).get? k = if m.reveals k then stored.get? k else none := by
  unfold output Model.reveals
  rw [get?_outputFields]
  congr
  exact Option.or_none

end Shape

namespace Engine

open Storage RecordGate.Flow

/-- A response whose body is the readable part of a record. -/
def Shows (m : Model) (record : Record) (resp : Response) : Prop :=
  ∃ out : Record, resp.body = some (.obj out) ∧
    ∀ k, out.get? k = if m.reveals k then record.get? k else none

theorem shows_ok (m : Model) (record : Record) : Shows m record (.ok (shown m record)) :=
  ⟨_, rfl, Shape.get?_output m record⟩

theorem shows_created (m : Model) (record : Record) :
    Shows m record (.created (shown m record)) :=
  ⟨_, rfl, Shape.get?_output m record⟩

/-! ### One change -/

/-- A collection has the given records now, and no other collection has
    changed. -/
structure Changes (collection : String) (store store' : Memory) (rows : List Record) : Prop where
  /-- What the collection is now. -/
  rows : store'.rows collection = rows
  /-- All others are as they were. -/
  others : ∀ c, collection ≠ c → store'.rows c = store.rows c

theorem changes_setRows (collection : String) (store : Memory) (rows : List Record) :
    Changes collection store (store.setRows collection rows) rows where
  rows := by rw [Memory.rows_setRows, if_pos rfl]
  others c hc := by rw [Memory.rows_setRows, if_neg hc]

/-- The values that an update prepares from its body. -/
def Prepares (m : Model) (req : Request) (supply : Supply) (values : Record) : Prop :=
  ∃ raw, Shape.ofBody req.body = .ok raw ∧ ((Shape.prepare m .update raw).draw supply).1 = .ok values

/-- What a request that succeeds leaves of a storage, action by action. -/
inductive Leaves (route : Route) (req : Request) (w : World Memory) :
    Action → Response → Memory → Prop where
  /-- A create appends one record, made of its values and an identifier, and
      shows it. -/
  | created {resp : Response} {store : Memory} {record : Record}
      (stored : ∃ bound values supply,
        Admitted route .create req (w.store.rows route.model.collection) bound ∧
        (newValues route.model req bound.context).draw w.supply = (.ok values, supply) ∧
        record = (withId values supply).1)
      (change : Changes route.model.collection w.store store
        (w.store.rows route.model.collection ++ [record]))
      (shows : Shows route.model record resp) : Leaves route req w .create resp store
  /-- A list leaves everything. -/
  | listed {resp : Response} : Leaves route req w .list resp w.store
  /-- So does a read. -/
  | read {resp : Response} : Leaves route req w .read resp w.store
  /-- An update merges the prepared values, apart from the owner, into the
      record that it is about, and shows the outcome. -/
  | updated {resp : Response} {store : Memory} {row values : Record} {before after : List Record}
      (rows : w.store.rows route.model.collection = before ++ row :: after)
      (admitted : ∃ bound, Admitted route .update req (w.store.rows route.model.collection) bound ∧
        bound.resource = some row)
      (prepares : Prepares route.model req w.supply values)
      (change : Changes route.model.collection w.store store
        (before ++ row.merge (dropOwner route.model values) :: after))
      (kept : ∀ k, values.get? k = none ∨ route.model.owner = some k →
        (row.merge (dropOwner route.model values)).get? k = row.get? k)
      (shows : Shows route.model (row.merge (dropOwner route.model values)) resp) :
      Leaves route req w .update resp store
  /-- A delete takes out the record that it is about. -/
  | deleted {resp : Response} {store : Memory} {row : Record} {before after : List Record}
      (rows : w.store.rows route.model.collection = before ++ row :: after)
      (admitted : ∃ bound, Admitted route .delete req (w.store.rows route.model.collection) bound ∧
        bound.resource = some row)
      (change : Changes route.model.collection w.store store (before ++ after)) :
      Leaves route req w .delete resp store

/-- An outcome over a world: an error leaves the storage, and a success leaves
    what its action does. -/
def Framed (route : Route) (action : Action) (req : Request) (w : World Memory) :
    Except Error Response × World Memory → Prop
  | (.error _, w') => w'.store = w.store
  | (.ok resp, w') => Leaves route req w action resp w'.store

variable {route : Route} {catalog : Catalog} {action : Action} {req : Request}
  {w : World Memory} {bound : Bound} {m : Model} {k : String}

/-! ### What an update keeps -/

/-- What the values of an update come from. -/
theorem changedValues_eq_ok {s s' : Supply} {changed : Record}
    (h : (changedValues m req).draw s = (.ok changed, s')) :
    ∃ values, Prepares m req s values ∧ changed = dropOwner m values := by
  unfold changedValues at h
  cases hbody : Shape.ofBody req.body with
  | error e =>
    rw [hbody] at h
    cases h
  | ok raw =>
    rw [hbody, ofExcept_ok_bind, draw_bind] at h
    rcases hprepare : (Shape.prepare m .update raw).draw s with ⟨result, t⟩
    rw [hprepare] at h
    cases result with
    | error e => cases h
    | ok values =>
      cases h
      exact ⟨values, ⟨raw, hbody, by rw [hprepare]⟩, rfl⟩

/-! ### Requests -/

/-- A request to a compiled route over identified records fails and leaves the
    whole storage as it was, or succeeds and leaves the one change of its
    action. -/
theorem execute_framed {decl : RouteDecl} (hroute : Route.compile decl catalog = .ok route)
    (action : Action) (req : Request) (w : World Memory)
    (hid : ∀ c, Identified (w.store.rows c)) :
    Framed route action req w ((execute route action req).run Memory.driver w) := by
  have hends := execute_ends (Route.compile_compiled hroute) action req (hid _).text
  generalize (execute route action req).run Memory.driver w = run at hends ⊢
  cases hends with
  -- a request that fails has drawn on the supply at most
  | failed e _ => exact rfl
  | created admitted drawn =>
    exact .created ⟨_, _, _, admitted, drawn, rfl⟩ (changes_setRows _ _ _) (shows_created _ _)
  | listed _ => exact .listed
  | read _ _ => exact .read
  | @updated record row values before after supply aimed drawn =>
    -- the write goes by the identifier, and that selects the loaded record again
    obtain rfl := aimed.row_eq (hid _)
    obtain ⟨id, -, hit⟩ := aimed.selected
    obtain ⟨prepared, hprepares, rfl⟩ := changedValues_eq_ok drawn
    refine .updated hit.split aimed.admitted hprepares (changes_setRows _ _ _) ?_ (shows_ok _ _)
    intro k hk
    exact Record.get?_merge_of_none row (dropOwner_lacks hk)
  | deleted aimed =>
    obtain rfl := aimed.row_eq (hid _)
    obtain ⟨id, -, hit⟩ := aimed.selected
    exact .deleted hit.split aimed.admitted (changes_setRows _ _ _)

/-- An author changes the title of a note. -/
def titleRoute : RouteDecl where
  path := "/notes"
  model := "Note"
  rules := [("u", .full "@note.by=@req_user._id" (some (.field "title")))]

/-- Ann's new title goes into her note alone, which keeps its identifier and
    its author. -/
theorem title_framed :
    ∃ catalog route, Catalog.empty.declare "Note" noteModel = .ok catalog ∧
      Route.compile titleRoute catalog = .ok route ∧
      let req : Request := ⟨[("title", "Home")],
        some (.obj [("by", .str "bob"), ("title", .str "Work")]),
        .authenticated ⟨"ann", [], none, none, []⟩⟩
      let w := alone "notes" [annsNote, bobsNote] Supply.still
      ∃ resp w', (execute route .update req).run Memory.driver w = (.ok resp, w') ∧
        Leaves route req w .update resp w'.store ∧
        w'.store.rows "notes" = [annsNote.insert "title" (.str "Work"), bobsNote] := by
  have htest : okAnd (Catalog.empty.declare "Note" noteModel) (fun catalog =>
      okAnd (Route.compile titleRoute catalog) fun route =>
        let run := (execute route .update ⟨[("title", "Home")],
          some (.obj [("by", .str "bob"), ("title", .str "Work")]),
          .authenticated ⟨"ann", [], none, none, []⟩⟩).run Memory.driver
            (alone "notes" [annsNote, bobsNote] Supply.still)
        okAnd run.1 (fun _ => true) && decide (run.2.store.rows "notes" =
          [annsNote.insert "title" (.str "Work"), bobsNote])) = true := by decide +kernel
  obtain ⟨catalog, hcatalog, htest⟩ := okAnd_iff.mp htest
  obtain ⟨route, hroute, htest⟩ := okAnd_iff.mp htest
  simp only [Bool.and_eq_true, decide_eq_true_eq] at htest
  obtain ⟨hok, hrows⟩ := htest
  obtain ⟨resp, hresp, -⟩ := okAnd_iff.mp hok
  refine ⟨catalog, route, hcatalog, hroute, ?_⟩
  intro req w
  have hid : ∀ c, Identified (w.store.rows c) :=
    rows_alone_of identified_notes ⟨texts_nil, .nil⟩ "notes" Supply.still
  have hrun : (execute route .update req).run Memory.driver w =
      (.ok resp, ((execute route .update req).run Memory.driver w).2) := Prod.ext hresp rfl
  have hframed := execute_framed hroute .update req w hid
  rw [hrun] at hframed
  exact ⟨resp, _, hrun, hframed, hrows⟩

end Engine

end RecordGate

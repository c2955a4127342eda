import RecordGate.Proofs.Ending

/-! # Sessions

  A session is a run of requests, one after the other, over one storage in
  memory.

  - `Effect`: all that a single request can do to the storage
    (`execute_effect`).
  - `session_texts`: after every session from an empty storage each record has
    a text for its identifier.
  - `session_minted`: in a collection where no create sets the identifier as
    the owner, the identifiers are those that the supply handed out, in their
    order.
-/

namespace RecordGate.Engine

open Storage RecordGate.Flow

/-- A request to an action of a route. -/
structure Visit where
  /-- The route. -/
  route : Route
  /-- The action. -/
  action : Action
  /-- The request. -/
  request : Request

/-- The world that a visit leaves. -/
def serve (w : World Memory) (v : Visit) : World Memory :=
  ((execute v.route v.action v.request).run Memory.driver w).2

/-- The world that visits leave, one after the other. -/
def session (visits : List Visit) (w : World Memory) : World Memory :=
  visits.foldl serve w

/-! ### Identifiers that are stored -/

theorem withId_text (values : Record) (supply : Supply) :
    ∃ s, (withId values supply).1.get? idField = some (.str s) := by
  unfold withId
  split
  next s h => exact ⟨s, h⟩
  · exact ⟨_, by rw [Record.get?_insert, if_pos rfl]⟩

/-- A record without an identifier gets the next one of the supply. -/
theorem withId_of_lacks {values : Record} (h : Shape.Lacks idField values) (supply : Supply) :
    withId values supply = (values.insert idField (.str supply.fresh.1.toHex), supply.fresh.2) := by
  unfold withId
  rw [show values.get? idField = none from h]

theorem withId_later (values : Record) (supply : Supply) :
    supply.Later (withId values supply).2 := by
  unfold withId
  split
  · exact Supply.later_refl _
  · exact Supply.later_fresh _

/-- A call only draws on the supply. -/
theorem later_answer (c : Call) (w : World Memory) :
    w.supply.Later (Memory.answer c w).2.supply := by
  cases c with
  | findOne changed filter => exact Supply.later_refl _
  | findAll changed filter => exact Supply.later_refl _
  | insertOne changed values => exact withId_later values w.supply
  | updateOne changed filter values =>
    rcases hit_or_missed filter (w.store.rows changed) with ⟨before, row, after, hit⟩ | hmissed
    · rw [hit.answer_updateOne]
      exact Supply.later_refl _
    · rw [answer_updateOne_missed hmissed]
      exact Supply.later_refl _
  | deleteOne changed filter =>
    rcases hit_or_missed filter (w.store.rows changed) with ⟨before, row, after, hit⟩ | hmissed
    · rw [hit.answer_deleteOne]
      exact Supply.later_refl _
    · rw [answer_deleteOne_missed hmissed]
      exact Supply.later_refl _

/-! ### What one request does -/

/-- What a request to a route can do: nothing to the storage, or one change of
    the collection of its model. -/
inductive Effect (route : Route) (w : World Memory) : World Memory → Prop where
  /-- Nothing but drawing on the supply. -/
  | nothing {supply : Supply} (later : w.supply.Later supply) : Effect route w ⟨supply, w.store⟩
  /-- A create appends a record. Its identifier is fresh unless it is the
      owner. -/
  | created {supply : Supply} {values : Record} (later : w.supply.Later supply)
      (rule : (route.rule? .create).isSome = true)
      (values_lack : route.model.owner ≠ some idField → Shape.Lacks idField values) :
      Effect route w ⟨(withId values supply).2, w.store.setRows route.model.collection
        (w.store.rows route.model.collection ++ [(withId values supply).1])⟩
  /-- An update overwrites values of a record, but not its identifier. -/
  | updated {supply : Supply} {values row : Record} {before after : List Record}
      (later : w.supply.Later supply)
      (rows : w.store.rows route.model.collection = before ++ row :: after)
      (values_lack : Shape.Lacks idField values) :
      Effect route w ⟨supply, w.store.setRows route.model.collection
        (before ++ row.merge values :: after)⟩
  /-- A delete takes a record out. -/
  | deleted {row : Record} {before after : List Record}
      (rows : w.store.rows route.model.collection = before ++ row :: after) :
      Effect route w ⟨w.supply, w.store.setRows route.model.collection (before ++ after)⟩

/-- A new record has no identifier but its owner. -/
theorem newValues_lacks {m : Model} (hm : m.Sealed) (req : Request) (c : Context) :
    (newValues m req c).Yields fun values =>
      m.owner ≠ some idField → Shape.Lacks idField values := by
  refine (yields_true _).bind fun raw _ => (hm.create raw).bind fun values hvalues => ?_
  unfold stampOwner
  split
  · exact yields_pure fun _ => hvalues
  next owner howner =>
    split
    -- the stamp goes under the owner, which is another name
    · refine yields_pure fun hw => hvalues.insert ?_ _
      rintro rfl
      exact hw howner
    · exact fun s a ha => by cases ha

variable {route : Route} {catalog : Catalog} {w w' : World Memory}

/-- A request to a compiled route has one of these effects. -/
theorem execute_effect (hroute : route.Compiled catalog) (hm : route.model.Sealed)
    (htexts : Texts (w.store.rows route.model.collection)) (action : Action) (req : Request) :
    Effect route w ((execute route action req).run Memory.driver w).2 := by
  have hends := execute_ends hroute action req htexts
  generalize (execute route action req).run Memory.driver w = run at hends ⊢
  cases hends with
  | failed e later => exact .nothing later
  | @created bound values supply admitted drawn =>
    obtain ⟨rule, hrule, -⟩ := admitted
    have hlack := (newValues_lacks hm req bound.context).of_draw drawn
    exact .created (later_of_draw drawn) (by rw [hrule]; rfl) hlack
  | listed _ => exact .nothing (Supply.later_refl _)
  | read _ _ => exact .nothing (Supply.later_refl _)
  | updated aimed drawn =>
    obtain ⟨id, -, hit⟩ := aimed.selected
    have hlack := (changedValues_lacks (.inl hm.update) req).of_draw drawn
    exact .updated (later_of_draw drawn) hit.split hlack
  | deleted aimed =>
    obtain ⟨id, -, hit⟩ := aimed.selected
    exact .deleted hit.split

/-- After a request every record still has a text for its identifier. -/
theorem Effect.texts (h : Effect route w w') {c : String} (hc : Texts (w.store.rows c)) :
    Texts (w'.store.rows c) := by
  cases h with
  | nothing _ => exact hc
  | @created supply values _ _ _ =>
    obtain ⟨id, hid⟩ := withId_text values supply
    refine rows_setRows_of (fun hchanged => ?_) hc
    rw [hchanged]
    exact hc.append hid
  | updated _ hrows hlack =>
    refine rows_setRows_of (fun hchanged => ?_) hc
    rw [← hchanged, hrows] at hc
    exact hc.replace (Record.get?_merge_of_none _ hlack)
  | deleted hrows =>
    refine rows_setRows_of (fun hchanged => ?_) hc
    rw [← hchanged, hrows] at hc
    exact hc.sublist ((List.sublist_cons_self _ _).append_left _)

/-- Where no create sets the identifier as the owner, minted records stay so. -/
theorem Effect.minted (h : Effect route w w') {c : String}
    (hcreate : route.model.collection = c → (route.rule? .create).isSome = true →
      route.model.owner ≠ some idField)
    (hc : Minted w.supply (w.store.rows c)) : Minted w'.supply (w'.store.rows c) := by
  cases h with
  | nothing later => exact hc.later later
  | @created supply values later rule hlack =>
    refine rows_setRows_of (fun hchanged => ?_) (hc.later (later.trans (withId_later _ _)))
    -- the new record brings no identifier, so it gets the next one of the supply
    rw [withId_of_lacks (hlack (hcreate hchanged rule)), hchanged]
    exact (hc.later later).append (by rw [Record.get?_insert, if_pos rfl])
  | updated later hrows hlack =>
    refine rows_setRows_of (fun hchanged => ?_) (hc.later later)
    rw [← hchanged, hrows] at hc
    exact (hc.later later).replace (Record.get?_merge_of_none _ hlack)
  | deleted hrows =>
    refine rows_setRows_of (fun hchanged => ?_) hc
    rw [← hchanged, hrows] at hc
    exact hc.sublist ((List.sublist_cons_self _ _).append_left _)

/-! ### Every run of requests -/

section sessions
variable {text : String} {cfg : Config} {visits : List Visit}

/-- After every session from an empty storage each record has a text for its
    identifier. -/
theorem session_texts (hcfg : Config.ofText text = .ok cfg)
    (hvisits : ∀ v ∈ visits, v.route ∈ cfg.routes) (h : ∀ c, Texts (w.store.rows c)) :
    ∀ c, Texts ((session visits w).store.rows c) := by
  -- the invariant is about all collections, since every visit may go to another
  induction visits generalizing w with
  | nil => exact h
  | cons v rest ih =>
    have hroute := Config.ofText_compiled hcfg v.route (hvisits v List.mem_cons_self)
    have hm := Config.ofText_sealed hcfg _ hroute.model
    refine ih (fun v' hv' => hvisits v' (List.mem_cons_of_mem _ hv')) fun c => ?_
    exact (execute_effect hroute hm (h _) v.action v.request).texts (h c)

/-- A collection in which no create sets the identifier as the owner. -/
def Issued (cfg : Config) (collection : String) : Prop :=
  ∀ r ∈ cfg.routes, r.model.collection = collection → (r.rule? .create).isSome = true →
    r.model.owner ≠ some idField

/-- After every session from an empty storage the identifiers of such a
    collection are those that the supply handed out. -/
theorem session_minted (hcfg : Config.ofText text = .ok cfg)
    (hvisits : ∀ v ∈ visits, v.route ∈ cfg.routes) {c : String} (hissued : Issued cfg c)
    (htexts : ∀ c, Texts (w.store.rows c)) (h : Minted w.supply (w.store.rows c)) :
    Minted (session visits w).supply ((session visits w).store.rows c) := by
  -- a visit needs the texts to reach its effect, so they are carried along
  induction visits generalizing w with
  | nil => exact h
  | cons v rest ih =>
    have hmem := hvisits v List.mem_cons_self
    have hroute := Config.ofText_compiled hcfg v.route hmem
    have heffect := execute_effect hroute (Config.ofText_sealed hcfg _ hroute.model)
      (htexts _) v.action v.request
    exact ih (fun v' hv' => hvisits v' (List.mem_cons_of_mem _ hv'))
      (fun c => heffect.texts (htexts c)) (heffect.minted (hissued v.route hmem) h)

end sessions

/-- Ann makes a card, changes its text, changes its ink, removes it and changes
    its ink again. -/
def anns (route : Route) : List Visit :=
  let ann : Caller := .authenticated ⟨"65a000000000000000000001", [], none, none, []⟩
  let card := [("_id", (Supply.still.ids 0).toHex)]
  [⟨route, .create, ⟨[], some (.obj [("text", .str "hello")]), ann⟩⟩,
    ⟨route, .update, ⟨card, some (.obj [("text", .str "hi")]), ann⟩⟩,
    ⟨route, .update, ⟨card, some (.obj [("ink", .str "blue")]), ann⟩⟩,
    ⟨route, .delete, ⟨card, none, ann⟩⟩,
    ⟨route, .update, ⟨card, some (.obj [("ink", .str "red")]), ann⟩⟩]

theorem route_of_anns {route : Route} : ∀ v ∈ anns route, v.route = route := by
  unfold anns
  simp only [List.forall_mem_cons, true_and]
  exact fun _ hv => absurd hv List.not_mem_nil

end RecordGate.Engine

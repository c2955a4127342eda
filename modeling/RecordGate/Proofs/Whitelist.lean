import RecordGate.Proofs.SortedRecords
import RecordGate.Proofs.StorageCalls

/-! # Only allowed input, only declared names

  What a client sends under a name that does not allow the operation has no
  effect whatever, and nothing but declared fields reaches the storage.
  Both hold for any hooks and any defaults that code adds.

  **Key idea.** Hooks run between two filters.

  - Before them, the input is read under the allowed names alone, so two
    inputs that agree there (`Shape.Agree`) are prepared by the same flow
    (`Shape.prepare_congr`).
  - After them, undeclared names are dropped (`Shape.prepare_declared`). What
    is added later, the owner and the identifier, is declared by registration.
-/

namespace RecordGate

theorem Model.declares_of_mem {m : Model} {f : Field} (hf : f ∈ m.fields) :
    m.declares f.name = true := by
  unfold declares field?
  rw [List.find?_isSome]
  exact ⟨f, hf, by simp⟩

theorem Model.declares_of_field? {m : Model} {f : Field} {name : String}
    (hf : m.field? name = some f) : m.declares name = true := by
  unfold declares
  rw [hf]
  rfl

/-! ### Names of records -/

namespace Record

/-- Every name that was kept passed the test. -/
theorem of_mem_names_keep {r : Record} {test : String → Bool} {k : String}
    (h : k ∈ (r.keep test).names) : test k = true := by
  obtain ⟨entry, hentry, rfl⟩ := List.mem_map.mp h
  exact (List.mem_filter.mp hentry).2

/-- Taking a name out adds no name. -/
theorem mem_names_of_erase {r : Record} {name k : String} (h : k ∈ (r.erase name).names) :
    k ∈ r.names := by
  obtain ⟨entry, hentry, rfl⟩ := List.mem_map.mp h
  exact List.mem_map_of_mem (List.mem_filter.mp hentry).1

end Record

namespace Shape

open RecordGate.Flow

variable {m : Model} {op : Operation} {raw raw' values : Record} {fields : List Field}

/-! ### Input that is not allowed -/

/-- Two inputs are the same for the fields that allow an operation, in what is
    there and in its value. -/
def Agree (m : Model) (op : Operation) (raw raw' : Record) : Prop :=
  ∀ f ∈ m.fields, f.allows op = true → raw.get? f.name = raw'.get? f.name

instance : Decidable (Agree m op raw raw') :=
  inferInstanceAs (Decidable (∀ f ∈ m.fields, _))

theorem inputValue_congr {f : Field}
    (h : f.allows op = true → raw.get? f.name = raw'.get? f.name) :
    inputValue op raw f = inputValue op raw' f := by
  unfold inputValue
  by_cases hallows : f.allows op = true
  · rw [if_pos hallows, if_pos hallows, h hallows]
  · rw [if_neg hallows, if_neg hallows]

theorem inputFields_congr
    (h : ∀ f ∈ fields, f.allows op = true → raw.get? f.name = raw'.get? f.name)
    (values : Record) :
    inputFields op raw fields values = inputFields op raw' fields values := by
  induction fields generalizing values with
  | nil => rfl
  | cons f fields ih =>
    have hrest := ih fun f' hf' => h f' (List.mem_cons_of_mem _ hf')
    unfold inputFields
    rw [inputValue_congr (h f List.mem_cons_self)]
    congr
    funext value
    cases value with
    | some value => exact hrest _
    | none => exact hrest _

/-- Inputs that agree are prepared in the same way, by the same questions to
    the clock and the source of identifiers. -/
theorem prepare_congr (h : Agree m op raw raw') : prepare m op raw = prepare m op raw' := by
  unfold prepare input
  rw [inputFields_congr h]

/-! ### Names that are not declared -/

/-- A record with values for declared fields alone. -/
def Declared (m : Model) (r : Record) : Prop :=
  ∀ k ∈ r.names, m.declares k = true

theorem declared_nil (m : Model) : Declared m [] := by
  intro k hk
  cases hk

theorem Declared.insert (h : Declared m values) {name : String} (hname : m.declares name = true)
    (value : Json) : Declared m (values.insert name value) := by
  intro k hk
  rcases Record.mem_names_insert.mp hk with rfl | hk
  · exact hname
  · exact h k hk

/-- Whatever the hooks return, declared names are left. -/
theorem applyHooks_declared (h : Declared m values) :
    (applyHooks m op values).Yields (Declared m) := by
  unfold applyHooks
  split
  -- without hooks nothing is dropped, because there is nothing to drop
  · exact yields_pure h
  · refine (yields_true _).bind fun out _ => yields_pure ?_
    intro k hk
    exact Record.of_mem_names_keep hk

theorem prepare_declared (m : Model) (op : Operation) (raw : Record) :
    (prepare m op raw).Yields (Declared m) := by
  have htakes : Takes op raw m.fields (Declared m) := by
    constructor
    case empty => exact declared_nil m
    case input =>
      intro f hf s taken _ v _ values hvalues
      exact hvalues.insert (Model.declares_of_mem hf) v
    case fallback =>
      intro _ f hf _ d _ s v _ values hvalues
      exact hvalues.insert (Model.declares_of_mem hf) v
  exact htakes.prepare fun values hvalues => applyHooks_declared hvalues

end Shape

/-- The records that an exchange brings into a storage: the values of a write,
    and with an insert also the record as it was stored. -/
def Storage.Exchange.records : Storage.Exchange → List Record
  | ⟨.insertOne _ values, .ok stored⟩ => [values, stored]
  | ⟨.insertOne _ values, .error _⟩ => [values]
  | ⟨.updateOne _ _ values, _⟩ => [values]
  | ⟨.findOne .., _⟩ | ⟨.findAll .., _⟩ | ⟨.deleteOne .., _⟩ => []

namespace Engine

open Storage RecordGate.Flow

variable {m : Model} {req : Request} {b b' : Record}

/-! ### Requests with other bodies -/

theorem checkCredential_body (rule : Rule) (req : Request) (body : Option Json) :
    checkCredential rule { req with body } =
      (checkCredential rule req).map fun req => { req with body } := by
  unfold checkCredential
  dsimp only
  split
  · split <;> rfl
  · rfl

/-- Nothing but the action itself sees the body. -/
theorem handleRule_body {action : Action} {body body' : Option Json}
    (h : ∀ (req : Request) bound,
      perform m action { req with body } bound = perform m action { req with body := body' } bound)
    (rule : Rule) (req : Request) :
    handleRule m action rule { req with body } =
      handleRule m action rule { req with body := body' } := by
  unfold handleRule
  rw [checkCredential_body rule req body, checkCredential_body rule req body']
  cases checkCredential rule req with
  | error e => rfl
  | ok req' =>
    show (bindContext m rule req' >>= fun bound => ofExcept (authorize rule bound.context) >>=
        fun _ => perform m action { req' with body } bound) =
      bindContext m rule req' >>= fun bound => ofExcept (authorize rule bound.context) >>=
        fun _ => perform m action { req' with body := body' } bound
    congr
    funext bound
    rw [h]

theorem create_congr (h : Shape.Agree m .create b b') (req : Request) (bound : Bound) :
    create m { req with body := some (.obj b) } bound =
      create m { req with body := some (.obj b') } bound := by
  unfold create
  simp only [Shape.ofBody, ofExcept_ok_bind, Shape.prepare_congr h]

theorem update_congr (h : Shape.Agree m .update b b') (req : Request) (bound : Bound) :
    update m { req with body := some (.obj b) } bound =
      update m { req with body := some (.obj b') } bound := by
  unfold update
  simp only [Shape.ofBody, ofExcept_ok_bind, Shape.prepare_congr h]

/-- Requests whose bodies agree on the allowed fields are the same flow. -/
theorem execute_congr {route : Route} (action : Action)
    (h : ∀ (req : Request) bound, perform route.model action { req with body := some (.obj b) } bound =
      perform route.model action { req with body := some (.obj b') } bound) (req : Request) :
    execute route action { req with body := some (.obj b) } =
      execute route action { req with body := some (.obj b') } := by
  unfold execute
  cases route.rule? action with
  | none => rfl
  | some rule => exact handleRule_body h rule req

/-! ### What is written -/

/-- Whether a call writes values for declared fields alone. -/
def WritesDeclared (m : Model) : Call → Prop
  | .insertOne _ values | .updateOne _ _ values => Shape.Declared m values
  | .findOne .. | .findAll .. | .deleteOne .. => True

theorem newValues_declared (hm : m.Checked) (req : Request) (c : Context) :
    (newValues m req c).Yields (Shape.Declared m) := by
  refine (yields_true _).bind fun raw _ =>
    (Shape.prepare_declared m .create raw).bind fun values hvalues => ?_
  unfold stampOwner
  split
  · exact yields_pure hvalues
  next owner howner =>
    split
    -- the owner that is stamped is a declared field
    · obtain ⟨f, hf, -⟩ := hm.owner owner howner
      exact yields_pure (hvalues.insert (Model.declares_of_field? hf) _)
    · intro s a ha
      cases ha

theorem changedValues_declared (m : Model) (req : Request) :
    (changedValues m req).Yields (Shape.Declared m) := by
  refine (yields_true _).bind fun raw _ =>
    (Shape.prepare_declared m .update raw).bind fun values hvalues => yields_pure ?_
  unfold dropOwner
  split
  · exact hvalues
  · intro k hk
    exact hvalues k (Record.mem_names_of_erase hk)

theorem covers_writesDeclared (hm : m.Checked) : Covers m (WritesDeclared m) where
  findOne _ := trivial
  findAll _ := trivial
  insertOne req c := newValues_declared hm req c
  updateOne req _ := changedValues_declared m req
  deleteOne _ := trivial

/-- The identifier that the storage gives is a declared field. -/
theorem withId_declared (hm : m.Checked) {values : Record} (h : Shape.Declared m values)
    (supply : Supply) : Shape.Declared m (withId values supply).1 := by
  obtain ⟨f, hf, -⟩ := hm.identifier
  unfold withId
  split
  · exact h
  · exact h.insert (Model.declares_of_field? hf) _

/-- So an exchange with the storage in memory brings declared names alone into
    it if its call does. -/
theorem records_declared (hm : m.Checked) {e : Exchange} (he : WritesDeclared m e.call)
    {w : World Memory} (hanswer : e.answer = (Memory.driver.answer e.call w).1) :
    ∀ r ∈ e.records, Shape.Declared m r := by
  obtain ⟨call, answer⟩ := e
  intro r hr
  cases call with
  | insertOne collection values =>
    have hvalues : Shape.Declared m values := he
    have hstored : answer = .ok (withId values w.supply).1 := hanswer
    subst hstored
    rcases List.mem_cons.mp hr with rfl | hr
    · exact hvalues
    · rw [List.mem_singleton.mp hr]
      exact withId_declared hm hvalues w.supply
  | updateOne collection filter values =>
    rw [List.mem_singleton.mp hr]
    exact he
  | findOne collection filter => cases hr
  | findAll collection filter => cases hr
  | deleteOne collection filter => cases hr

/-! ### Every model, every hook -/

/-- On a compiled route over models to which code may have added hooks and
    defaults: bodies that agree on the fields that allow the operation give
    the same response and leave the same world, under every storage; and what
    any request brings into a storage in memory has declared names alone. -/
theorem input_whitelisted {decl : RouteDecl} {catalog : Catalog} {route : Route}
    (hcatalog : catalog.Built) (hroute : Route.compile decl catalog = .ok route) (req : Request) :
    (∀ b b', Shape.Agree route.model .create b b' → ∀ (σ : Type) (driver : Driver σ) (w : World σ),
      (execute route .create { req with body := some (.obj b) }).run driver w =
        (execute route .create { req with body := some (.obj b') }).run driver w) ∧
    (∀ b b', Shape.Agree route.model .update b b' → ∀ (σ : Type) (driver : Driver σ) (w : World σ),
      (execute route .update { req with body := some (.obj b) }).run driver w =
        (execute route .update { req with body := some (.obj b') }).run driver w) ∧
    (∀ (action : Action) (w : World Memory), ∀ e ∈ (execute route action req).exchanges Memory.driver w,
      ∀ r ∈ e.records, ∀ k ∈ r.names, route.model.declares k = true) := by
  refine ⟨?_, ?_, ?_⟩
  · intro b b' h σ driver w
    rw [execute_congr .create (create_congr h) req]
  · intro b b' h σ driver w
    rw [execute_congr .update (update_congr h) req]
  · intro action w e he
    have hm : route.model.Checked := hcatalog.checked _ (Route.compile_compiled hroute).model
    have hcall : WritesDeclared route.model e.call :=
      execute_asks (covers_writesDeclared hm) action req Memory Memory.driver w e he
    obtain ⟨w', hanswer⟩ := exchange_answer he
    exact records_declared hm hcall hanswer

/-- Posts that have a title. -/
def postModel : ModelDecl where
  label := none
  storage := some "posts"
  owner := none
  fields := [("_id", .short [.str "ObjectId", .str "r"]),
    ("title", .short [.str "String", .str "cru"])]
  createHooks := ["trim"]
  updateHooks := []

/-- Every caller creates posts. -/
def postRoute : RouteDecl where
  path := "/posts"
  model := "Post"
  rules := [("c", .permission "@req_user=@req_user")]

/-- A hook of code that writes a name that is not declared. -/
def approve : Hook where
  name := "approve"
  run _ values := values.insert "approved" (.bool true)

/-- Neither a client nor a hook gets a post approved, because that is no field
    of a post. -/
theorem posts_whitelisted :
    ∃ plain catalog route, Catalog.empty.declare "Post" postModel = .ok plain ∧
      plain.addHook "Post" .create approve = .ok catalog ∧
      Route.compile postRoute catalog = .ok route ∧
      let sent (body : Record) : Request :=
        ⟨[], some (.obj body), .authenticated ⟨"ann", [], none, none, []⟩⟩
      let post (body : Record) := (execute route .create (sent body)).run Memory.driver
        ⟨Supply.still, Memory.empty⟩
      post [("approved", .bool true), ("title", .str "Home")] = post [("title", .str "Home")] ∧
      ((post [("title", .str "Home")]).2.store.rows "posts").map Record.names =
        [["_id", "title"]] ∧
      ∀ e ∈ (execute route .create (sent [("title", .str "Home")])).exchanges Memory.driver
          ⟨Supply.still, Memory.empty⟩,
        ∀ r ∈ e.records, ∀ k ∈ r.names, route.model.declares k = true := by
  have htest : okAnd (Catalog.empty.declare "Post" postModel) (fun plain =>
      okAnd (plain.addHook "Post" .create approve) fun catalog =>
        okAnd (Route.compile postRoute catalog) fun route =>
          let post := (execute route .create ⟨[], some (.obj [("title", .str "Home")]),
            .authenticated ⟨"ann", [], none, none, []⟩⟩).run Memory.driver
              ⟨Supply.still, Memory.empty⟩
          decide (Shape.Agree route.model .create [("approved", .bool true), ("title", .str "Home")]
            [("title", .str "Home")]) &&
          decide ((post.2.store.rows "posts").map Record.names = [["_id", "title"]])) = true := by
    decide +kernel
  obtain ⟨plain, hplain, htest⟩ := okAnd_iff.mp htest
  obtain ⟨catalog, hcatalog, htest⟩ := okAnd_iff.mp htest
  obtain ⟨route, hroute, htest⟩ := okAnd_iff.mp htest
  simp only [Bool.and_eq_true, decide_eq_true_eq] at htest
  obtain ⟨hagree, hnames⟩ := htest
  have hbuilt : catalog.Built := (Catalog.Built.empty.declare hplain).addHook hcatalog
  have hlisted := input_whitelisted hbuilt hroute
    ⟨[], some (.obj [("title", .str "Home")]), .authenticated ⟨"ann", [], none, none, []⟩⟩
  refine ⟨plain, catalog, route, hplain, hcatalog, hroute, ?_, hnames, ?_⟩
  · exact hlisted.1 _ _ hagree Memory Memory.driver ⟨Supply.still, Memory.empty⟩
  · exact hlisted.2.2 .create ⟨Supply.still, Memory.empty⟩

end Engine

end RecordGate

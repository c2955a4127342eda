import RecordGate.Proofs.Compilation
import RecordGate.Proofs.Handling

/-! # What a request comes to

  For a model without an owner, `outcome` says what a request comes to: it is
  a table that is read from the top, and each line is about the request and
  the stored records alone.

  - `outcome_execute`: a run comes to what the table says. So no other outcome
    is possible, and the lines take precedence in their order.
  - `screen_unowned` is about the lines before the action, `perform_outcome`
    about those after it was allowed.
-/

namespace RecordGate.Engine

open Storage RecordGate.Flow

/-- What a request comes to. -/
inductive Outcome where
  /-- A credential was rejected where one is needed. -/
  | unauthorized
  /-- There is no such record. -/
  | notFound
  /-- The permission does not hold. -/
  | forbidden
  /-- The body is no object. -/
  | badBody
  /-- The value of a field does not fit. -/
  | badField (name : String)
  /-- It succeeds with a status. -/
  | success (status : Nat)
  /-- Anything else. -/
  | fault
  deriving DecidableEq, Repr

/-- What a result is an instance of. -/
def Outcome.ofResult : Except Error Response → Outcome
  | .ok resp => .success resp.status
  | .error (.unauthorized _) => .unauthorized
  | .error (.notFound _) => .notFound
  | .error (.forbidden _) => .forbidden
  | .error (.invalidBody _) => .badBody
  | .error (.validation name _) => .badField name
  | .error _ => .fault

/-! ### The table -/

/-- Whether a credential was rejected. -/
def isRejected : Caller → Bool
  | .rejected _ => true
  | _ => false

/-- Whether a path of a permission starts at the caller. -/
def readsCaller (permission : Expr) : Bool :=
  permission.paths.any fun p => decide (p.root = "req_user")

/-- The first record that has the value of the path parameter in the bound
    field; none if the parameter is missing or does not fit the field. -/
def target? (m : Model) (rule : Rule) (params : Keyed String) (rows : List Record) :
    Option Record := do
  let b ← rule.binding
  let raw ← params.get? b.param
  let f ← m.field? b.field
  let key ← (Shape.coerce f.name f.type (.str raw)).toOption
  rows.find? fun r =>
    match r.get? b.field with
    | some v => v.same key
    | none => false

/-- The claims and the record that a permission is evaluated on. -/
def contextOf (m : Model) (claims : Option Claims) (record : Option Record) : Context :=
  let context :=
    match claims with
    | some claims => Context.empty.bind callerRoot claims.toJson
    | none => Context.empty
  match record with
  | some record => context.bind m.bindingName (.obj record)
  | none => context

/-- The values in a body; none if it is neither absent nor `null` nor an
    object. -/
def inputOf? : Option Json → Option Record
  | none | some .null => some []
  | some (.obj r) => some r
  | some _ => none

/-- Whether the input for a field that allows the operation does not fit. -/
def misfits (op : Operation) (raw : Record) (f : Field) : Bool :=
  f.allows op &&
    match raw.get? f.name with
    | some value => !(Shape.coerce f.name f.type value).isOk
    | none => false

/-- What is wrong with the input of an action, if anything. -/
def badInput? (m : Model) (action : Action) (body : Option Json) : Option Outcome :=
  if action.takesBody then
    match inputOf? body with
    | none => some .badBody
    | some raw =>
      (m.fields.find? (misfits action.operation raw)).map fun f => .badField f.name
  else none

/-- The status of an action that succeeds. -/
def successStatus : Action → Nat
  | .create => 201
  | .list | .read | .update => 200
  | .delete => 204

/-- What a request comes to on a model without an owner. -/
def outcome (m : Model) (action : Action) (rule : Rule) (req : Request) (rows : List Record) :
    Outcome :=
  let record := target? m rule req.params rows
  if isRejected req.caller && readsCaller rule.permission then .unauthorized
  else if action.targetsOne && record.isNone then .notFound
  else if !rule.permission.holds (contextOf m req.caller.claims? record) then .forbidden
  else (badInput? m action req.body).getD (.success (successStatus action))

/-! ### Until the action is allowed -/

variable {m : Model} {action : Action} {rule : Rule} {req : Request} {rows : List Record}

theorem contextOf_caller (m : Model) (caller : Caller) :
    contextOf m caller.claims? none = callerContext caller := by
  cases caller <;> rfl

/-- The table looks for what a filter for the bound field accepts. -/
theorem target?_of_binding {b : Binding} (hb : rule.binding = some b) (params : Keyed String) :
    target? m rule params rows =
      (keyValue? m b params).bind fun key => rows.find? (accepts [(b.field, key)]) := by
  -- the test of the table is a filter with one condition
  have hfind : ∀ key, (fun r : Record =>
      match r.get? b.field with
      | some v => v.same key
      | none => false) = accepts [(b.field, key)] := by
    intro key
    funext r
    cases hv : r.get? b.field with
    | none => simp [accepts, hv]
    | some v => simp [accepts, hv]
  unfold target? keyValue?
  simp only [hb, hfind, Option.bind_eq_bind, Option.bind_some, Option.bind_assoc]

theorem locate_unowned (hm : m.owner = none) (rule : Rule) (req : Request) (rows : List Record) :
    locate m rule req rows =
      match rule.binding with
      | none => .ok ⟨contextOf m req.caller.claims? none, none⟩
      | some _ =>
        match target? m rule req.params rows with
        | none => .error (missing m)
        | some record => .ok ⟨contextOf m req.caller.claims? (some record), some record⟩ := by
  have hrecord : ∀ record, contextOf m req.caller.claims? (some record) =
      (callerContext req.caller).bind m.bindingName (.obj record) := by
    intro record
    rw [← contextOf_caller m]
    rfl
  unfold locate
  cases hb : rule.binding with
  | none => simp only [contextOf_caller]
  | some b =>
    simp only [target?_of_binding hb, hrecord, lookupFilter?_unowned hm]
    cases keyValue? m b req.params with
    | none => rfl
    | some key =>
      cases hrow : rows.find? (accepts [(b.field, key)]) with
      | none => simp [hrow]
      | some record => simp [hrow]

/-- A rule needs a caller if a path of its permission starts at one. -/
theorem needsCaller_eq (rule : Rule) : rule.needsCaller = readsCaller rule.permission := by
  unfold Rule.needsCaller Expr.references readsCaller Expr.paths callerRoot
  rw [List.any_cons, List.any_cons, List.any_nil, Bool.or_false]

/-- A rejected credential is refused, or counts as none. -/
theorem checkCredential_eq (rule : Rule) (req : Request) :
    (isRejected req.caller && readsCaller rule.permission) = true ∧
        (∃ reason, checkCredential rule req = .error (.unauthorized reason)) ∨
      (isRejected req.caller && readsCaller rule.permission) = false ∧
        ∃ req', checkCredential rule req = .ok req' ∧ req'.caller.claims? = req.caller.claims? ∧
          req'.params = req.params := by
  unfold checkCredential
  rw [← needsCaller_eq]
  cases hcaller : req.caller with
  | authenticated claims => exact .inr ⟨rfl, req, rfl, by rw [hcaller], rfl⟩
  | anonymous => exact .inr ⟨rfl, req, rfl, by rw [hcaller], rfl⟩
  | rejected reason =>
    cases hneeds : rule.needsCaller with
    | true => exact .inl ⟨rfl, reason, rfl⟩
    | false => exact .inr ⟨rfl, _, rfl, rfl, rfl⟩

/-- A permission lets through or forbids. -/
theorem authorize_eq (rule : Rule) (c : Context) :
    rule.permission.holds c = true ∧ authorize rule c = .ok () ∨
      rule.permission.holds c = false ∧ ∃ reason, authorize rule c = .error (.forbidden reason) := by
  cases hholds : rule.permission.holds c with
  | true => exact .inl ⟨rfl, authorize_eq_ok.mpr hholds⟩
  | false =>
    refine .inr ⟨rfl, ?_⟩
    -- every denial is forbidden, whatever its reason
    unfold authorize
    split
    next hevaluate => simp [Expr.holds, hevaluate, Except.isOk, Except.toBool] at hholds
    next denial _ => exact ⟨denial.message, rfl⟩

/-- The lines of the table before the action was allowed. -/
theorem screen_unowned (hm : m.owner = none) (hfits : rule.Fits action m) (req : Request)
    (rows : List Record) :
    (∃ e, screen m rule req rows = .error e ∧
      outcome m action rule req rows = Outcome.ofResult (.error e)) ∨
    (∃ bound, screen m rule req rows = .ok bound ∧
      (action.targetsOne = true → ∃ record ∈ rows, bound.resource = some record) ∧
      outcome m action rule req rows =
        (badInput? m action req.body).getD (.success (successStatus action))) := by
  unfold screen outcome
  rcases checkCredential_eq rule req with ⟨hrejected, reason, hcred⟩ |
    ⟨hpassed, req', hcred, hclaims, hparams⟩
  · refine .inl ⟨.unauthorized reason, by rw [hcred]; rfl, ?_⟩
    simp only [hrejected, if_true]
    rfl
  -- from here on the request counts as one without the rejected credential
  rw [hcred, ok_bind, locate_unowned hm, hclaims, hparams]
  simp only [hpassed, Bool.false_eq_true, if_false, ← hfits.loads]
  cases hb : rule.binding with
  | none =>
    have htarget : target? m rule req.params rows = none := by
      unfold target?
      rw [hb]
      rfl
    simp only [htarget, ok_bind, Option.isSome_none, Bool.false_and, Bool.false_eq_true, if_false]
    rcases authorize_eq rule (contextOf m req.caller.claims? none) with
      ⟨hholds, hauthorize⟩ | ⟨hholds, reason, hauthorize⟩
    · rw [hauthorize, hholds]
      exact .inr ⟨_, rfl, False.elim, rfl⟩
    · rw [hauthorize, hholds]
      exact .inl ⟨_, rfl, rfl⟩
  | some b =>
    cases htarget : target? m rule req.params rows with
    | none => exact .inl ⟨missing m, rfl, rfl⟩
    | some record =>
      -- the update and the delete need that the found record is stored
      have hmem : record ∈ rows := by
        rw [target?_of_binding hb] at htarget
        obtain ⟨key, -, hfind⟩ := Option.bind_eq_some_iff.mp htarget
        exact List.mem_of_find?_eq_some hfind
      simp only [ok_bind, Option.isNone_some, Bool.and_false, Bool.false_eq_true, if_false]
      rcases authorize_eq rule (contextOf m req.caller.claims? (some record)) with
        ⟨hholds, hauthorize⟩ | ⟨hholds, reason, hauthorize⟩
      · rw [hauthorize, hholds]
        exact .inr ⟨_, rfl, fun _ => ⟨record, hmem, rfl⟩, rfl⟩
      · rw [hauthorize, hholds]
        exact .inl ⟨_, rfl, rfl⟩

/-! ### Once the action is allowed -/

/-- A value that does not fit is refused in the name of its field. -/
theorem inputFault?_eq (op : Operation) (raw : Record) (f : Field) :
    misfits op raw f = true ∧
        (∃ message, Shape.inputFault? op raw f = some (.validation f.name message)) ∨
      misfits op raw f = false ∧ Shape.inputFault? op raw f = none := by
  unfold misfits Shape.inputFault?
  cases f.allows op with
  | false => exact .inr ⟨rfl, rfl⟩
  | true =>
    cases raw.get? f.name with
    | none => exact .inr ⟨rfl, rfl⟩
    | some value =>
      cases hcoerce : Shape.coerce f.name f.type value with
      | ok _ => exact .inr ⟨by simp [hcoerce, Except.isOk, Except.toBool], by simp [hcoerce]⟩
      | error e =>
        obtain ⟨message, rfl⟩ := Shape.coerce_error hcoerce
        exact .inl ⟨by simp [hcoerce, Except.isOk, Except.toBool], message, by simp [hcoerce]⟩

/-- The first value that does not fit is the one of the table. -/
theorem find?_misfits (op : Operation) (raw : Record) (fields : List Field) :
    (∃ f message, fields.find? (misfits op raw) = some f ∧
      fields.findSome? (Shape.inputFault? op raw) = some (.validation f.name message)) ∨
    (fields.find? (misfits op raw) = none ∧
      fields.findSome? (Shape.inputFault? op raw) = none) := by
  -- both searches stop at the same field
  induction fields with
  | nil => exact .inr ⟨rfl, rfl⟩
  | cons f rest ih =>
    rw [List.find?_cons, List.findSome?_cons]
    rcases inputFault?_eq op raw f with ⟨hmisfits, message, hfault⟩ | ⟨hfits, hnone⟩
    · rw [hmisfits, hfault]
      exact .inl ⟨f, message, rfl, rfl⟩
    · rw [hfits, hnone]
      exact ih

theorem ofBody_eq (body : Option Json) :
    (∃ raw, inputOf? body = some raw ∧ Shape.ofBody body = .ok raw) ∨
      inputOf? body = none ∧ ∃ message, Shape.ofBody body = .error (.invalidBody message) := by
  unfold inputOf? Shape.ofBody
  match body with
  | none => exact .inl ⟨_, rfl, rfl⟩
  | some .null => exact .inl ⟨_, rfl, rfl⟩
  | some (.obj r) => exact .inl ⟨_, rfl, rfl⟩
  | some (.bool _) | some (.num _) | some (.str _) | some (.arr _) => exact .inr ⟨rfl, _, rfl⟩

/-- The values of a write are refused as the table says, or there are some. -/
theorem draw_input (action : Action) {values : Flow Record} {body : Option Json}
    {k : Record → Flow Record}
    (hvalues : values = Flow.ofExcept (Shape.ofBody body) >>= fun raw =>
      Shape.prepare m action.operation raw >>= k)
    (hk : ∀ r, (k r).Succeeds) (haction : action.takesBody = true) (s : Supply) :
    (∃ e t, values.draw s = (.error e, t) ∧
      badInput? m action body = some (Outcome.ofResult (.error e))) ∨
    (∃ r t, values.draw s = (.ok r, t) ∧ badInput? m action body = none) := by
  unfold badInput?
  rw [if_pos haction, hvalues]
  rcases ofBody_eq body with ⟨raw, hinput, hbody⟩ | ⟨hinput, message, hbody⟩
  · rw [hinput, hbody, ofExcept_ok_bind]
    dsimp only
    rcases find?_misfits action.operation raw m.fields with
      ⟨f, message, hfind, hfault⟩ | ⟨hfind, hfits⟩
    · rw [hfind]
      -- what follows the preparation is not reached
      have hfails := (Shape.prepare_fails hfault).bind k s
      exact .inl ⟨_, _, Prod.ext hfails rfl, rfl⟩
    · rw [hfind]
      obtain ⟨r, hr⟩ := (Shape.prepare_succeeds hfits).bind hk s
      exact .inr ⟨r, _, Prod.ext hr rfl, rfl⟩
  · rw [hinput, hbody, ofExcept_error_bind]
    exact .inl ⟨_, _, rfl, rfl⟩

/-- The lines of the table after the action was allowed. -/
theorem perform_outcome (hm : m.owner = none) {w : World Memory}
    (hids : Texts (w.store.rows m.collection)) {bound : Bound}
    (hloaded : action.targetsOne = true →
      ∃ record ∈ w.store.rows m.collection, bound.resource = some record) :
    Outcome.ofResult ((perform m action req bound).run Memory.driver w).1 =
      (badInput? m action req.body).getD (.success (successStatus action)) := by
  cases action with
  | create =>
    -- without an owner there is nothing to stamp, so the stamp cannot fail
    have hstamp : ∀ values, (Flow.ofExcept (stampOwner m bound.context values)).Succeeds := by
      intro values
      unfold stampOwner
      rw [hm]
      exact succeeds_pure values
    show Outcome.ofResult ((create m req bound).run _ _).1 = _
    rw [run_create]
    rcases draw_input .create (rfl : newValues m req bound.context = _) hstamp rfl w.supply with
      ⟨e, t, hdraw, hbad⟩ | ⟨r, t, hdraw, hnone⟩
    · rw [hdraw, hbad]
      rfl
    · rw [hdraw, hnone]
      rfl
  | list =>
    show Outcome.ofResult ((list m bound).run _ _).1 = _
    rw [run_list]
    rfl
  | read =>
    obtain ⟨record, -, hresource⟩ := hloaded rfl
    show Outcome.ofResult ((read m bound).run _ _).1 = _
    rw [run_read m hresource]
    rfl
  | update =>
    obtain ⟨record, hmem, hresource⟩ := hloaded rfl
    -- the record is stored, so its identifier selects one and the update has a target
    obtain ⟨id, before, row, after, hid, hit⟩ := hids.exists_hit hmem
    show Outcome.ofResult ((update m req bound).run _ _).1 = _
    rw [run_update m req hresource hid hit]
    rcases draw_input .update (rfl : changedValues m req = _)
      (fun values => succeeds_pure (dropOwner m values)) rfl w.supply with
      ⟨e, t, hdraw, hbad⟩ | ⟨r, t, hdraw, hnone⟩
    · rw [hdraw, hbad]
      rfl
    · rw [hdraw, hnone]
      rfl
  | delete =>
    obtain ⟨record, hmem, hresource⟩ := hloaded rfl
    obtain ⟨id, before, row, after, hid, hit⟩ := hids.exists_hit hmem
    show Outcome.ofResult ((delete m bound).run _ _).1 = _
    rw [run_delete m hresource hid hit]
    rfl

/-! ### The decision table -/

/-- On a compiled route whose model has no owner, a request to an action that
    has a rule comes to what the table says. -/
theorem outcome_execute {decl : RouteDecl} {catalog : Catalog} {route : Route}
    (hroute : Route.compile decl catalog = .ok route) (hm : route.model.owner = none)
    {action : Action} {rule : Rule} (hrule : route.rule? action = some rule) (req : Request)
    {w : World Memory} (hids : Texts (w.store.rows route.model.collection)) :
    Outcome.ofResult ((execute route action req).run Memory.driver w).1 =
      outcome route.model action rule req (w.store.rows route.model.collection) := by
  have hfits := (Route.compile_compiled hroute).rules action rule hrule
  unfold execute
  rw [hrule]
  dsimp only
  rw [run_handleRule]
  rcases screen_unowned hm hfits req (w.store.rows route.model.collection) with
    ⟨e, hscreen, houtcome⟩ | ⟨bound, hscreen, hloaded, houtcome⟩
  · rw [hscreen, houtcome]
  · rw [hscreen, houtcome]
    exact perform_outcome hm hids hloaded

/-- Pages that belong to nobody. -/
def pageModel : ModelDecl where
  label := none
  storage := some "pages"
  owner := none
  fields := [("_id", .short [.str "ObjectId", .str "r"]), ("title", .short [.str "String", .str "cru"])]
  createHooks := []
  updateHooks := []

/-- Everybody reads a page by its title. -/
def pageRoute : RouteDecl where
  path := "/pages"
  model := "Page"
  rules := [("r", .full "@page=@page" (some (.field "title")))]

/-- A storage with one page. -/
def onePage : Memory := ⟨[("pages", [[("_id", .str "00"), ("title", .str "Home")]])]⟩

/-- A page that is there is shown to everybody. -/
theorem outcome_pages :
    ∃ catalog route rule, Catalog.empty.declare "Page" pageModel = .ok catalog ∧
      Route.compile pageRoute catalog = .ok route ∧ route.rule? .read = some rule ∧
      Outcome.ofResult ((execute route .read ⟨[("title", "Home")], none, .anonymous⟩).run
        Memory.driver ⟨Supply.still, onePage⟩).1 =
          outcome route.model .read rule ⟨[("title", "Home")], none, .anonymous⟩
            (onePage.rows route.model.collection) ∧
      outcome route.model .read rule ⟨[("title", "Home")], none, .anonymous⟩
        (onePage.rows route.model.collection) = .success 200 := by
  have htest : okAnd (Catalog.empty.declare "Page" pageModel) (fun catalog =>
      okAnd (Route.compile pageRoute catalog) fun route =>
        (route.rule? .read).any fun rule =>
          decide (route.model.owner = none) && decide (route.model.collection = "pages") &&
          decide (outcome route.model .read rule ⟨[("title", "Home")], none, .anonymous⟩
            (onePage.rows route.model.collection) = .success 200)) = true := by decide +kernel
  obtain ⟨catalog, hcatalog, htest⟩ := okAnd_iff.mp htest
  obtain ⟨route, hroute, htest⟩ := okAnd_iff.mp htest
  obtain ⟨rule, hrule, htest⟩ := (Option.any_eq_true _ _).mp htest
  simp only [Bool.and_eq_true, decide_eq_true_eq] at htest
  obtain ⟨⟨howner, hcollection⟩, hshown⟩ := htest
  have hids : Texts (onePage.rows route.model.collection) := by
    rw [hcollection]
    intro r hr
    rw [List.mem_singleton.mp hr]
    exact ⟨"00", rfl⟩
  exact ⟨catalog, route, rule, hcatalog, hroute, hrule,
    outcome_execute hroute howner hrule _ hids, hshown⟩

end RecordGate.Engine

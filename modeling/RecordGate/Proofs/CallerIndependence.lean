import RecordGate.Proofs.Handling
import RecordGate.Proofs.Resolution

/-! # Rules that do not mention the caller

  On a model without an owner, a rule that does not mention the caller treats
  all callers alike.

  **Key idea.** The caller is used in three places: the credential is checked,
  the claims are bound, and records are looked up for an owner. The first does
  not refuse where the rule does not mention the caller, the last does not
  happen without an owner, and what is bound differs under the caller's root
  alone, at which such a permission does not look.

  - `SameButCaller`: the contexts of two callers.
  - `handleRule_same`: two requests that differ in the caller are the same flow,
    hence `execute_whoever`.
-/

namespace RecordGate.Engine

open Storage RecordGate.Flow

/-- Two contexts with the same values under all roots but the caller's. -/
def SameButCaller (c c' : Context) : Prop :=
  ∀ root, root ≠ callerRoot → c.get? root = c'.get? root

variable {m : Model} {action : Action} {rule : Rule} {c c' : Context} {params : Keyed String}
  {body : Option Json} {caller caller' : Caller}

/-- Nothing but the caller is bound at first. -/
theorem callerContext_get? {root : String} (hroot : root ≠ callerRoot) (caller : Caller) :
    (callerContext caller).get? root = none := by
  cases caller with
  | authenticated claims =>
    show (Context.empty.bind callerRoot claims.toJson).get? root = none
    rw [Context.get?_bind, if_neg (Ne.symm hroot)]
    rfl
  | anonymous => rfl
  | rejected reason => rfl

theorem callerContext_same (caller caller' : Caller) :
    SameButCaller (callerContext caller) (callerContext caller') := by
  intro root hroot
  rw [callerContext_get? hroot, callerContext_get? hroot]

theorem SameButCaller.bind (h : SameButCaller c c') (label : String) (v : Json) :
    SameButCaller (c.bind label v) (c'.bind label v) := by
  intro root hroot
  rw [Context.get?_bind, Context.get?_bind, h root hroot]

/-- A permission that does not mention the caller says the same. -/
theorem SameButCaller.authorize (h : SameButCaller c c') (hrule : rule.needsCaller = false) :
    authorize rule c = authorize rule c' := by
  have hroots : ∀ root ∈ rule.permission.roots, c.get? root = c'.get? root := by
    refine Expr.forall_mem_roots.mpr fun p hp => h _ fun hroot => ?_
    unfold Rule.needsCaller Expr.references at hrule
    simp only [Bool.or_eq_false_iff, decide_eq_false_iff_not] at hrule
    obtain rfl | rfl : p = rule.permission.left ∨ p = rule.permission.right := by
      simpa [Expr.paths] using hp
    · exact hrule.1 hroot
    · exact hrule.2 hroot
  unfold Engine.authorize
  rw [Expr.evaluate_congr_roots hroots]

/-- Without an owner, an action uses the loaded record and the body. -/
theorem perform_same (hm : m.owner = none) (resource : Option Record) :
    perform m action ⟨params, body, caller⟩ ⟨c, resource⟩ =
      perform m action ⟨params, body, caller'⟩ ⟨c', resource⟩ := by
  cases action with
  | create =>
    have hstamp : ∀ c, stampOwner m c = Except.ok := by
      intro c
      funext values
      unfold stampOwner
      rw [hm]
    show create m ⟨params, body, caller⟩ ⟨c, resource⟩ =
      create m ⟨params, body, caller'⟩ ⟨c', resource⟩
    unfold create
    rw [hstamp, hstamp]
  | list =>
    show list m ⟨c, resource⟩ = list m ⟨c', resource⟩
    unfold list
    rw [hm]
  | read => rfl
  | update => rfl
  | delete => rfl

/-- What follows the binding of the context. -/
theorem judged_same (hm : m.owner = none) (hrule : rule.needsCaller = false)
    (h : SameButCaller c c') (resource : Option Record) :
    (ofExcept (authorize rule c) >>= fun _ =>
        perform m action ⟨params, body, caller⟩ ⟨c, resource⟩) =
      ofExcept (authorize rule c') >>= fun _ =>
        perform m action ⟨params, body, caller'⟩ ⟨c', resource⟩ := by
  rw [h.authorize hrule, perform_same hm resource]

/-- A rule that does not mention the caller refuses no credential. -/
theorem checkCredential_same (hrule : rule.needsCaller = false) (params : Keyed String)
    (body : Option Json) (caller : Caller) :
    ∃ caller', checkCredential rule ⟨params, body, caller⟩ = .ok ⟨params, body, caller'⟩ := by
  cases caller with
  | rejected reason =>
    refine ⟨.anonymous, ?_⟩
    unfold checkCredential
    rw [hrule]
    rfl
  | anonymous => exact ⟨.anonymous, rfl⟩
  | authenticated claims => exact ⟨.authenticated claims, rfl⟩

/-- Without an owner, a rule that does not mention the caller makes the same flow
    for two callers. -/
theorem handleRule_same (hm : m.owner = none) (hrule : rule.needsCaller = false)
    (caller caller' : Caller) :
    handleRule m action rule ⟨params, body, caller⟩ =
      handleRule m action rule ⟨params, body, caller'⟩ := by
  obtain ⟨first, hfirst⟩ := checkCredential_same hrule params body caller
  obtain ⟨second, hsecond⟩ := checkCredential_same hrule params body caller'
  have hcontexts := callerContext_same first second
  unfold handleRule
  rw [hfirst, hsecond, ofExcept_ok_bind, ofExcept_ok_bind]
  unfold bindContext
  dsimp only
  cases rule.binding with
  | none => exact judged_same hm hrule hcontexts none
  | some b =>
    dsimp only
    rw [lookupFilter?_unowned hm, lookupFilter?_unowned hm]
    cases (keyValue? m b params).map fun key => [(b.field, key)] with
    | none => rfl
    | some filter =>
      dsimp only
      rw [bind_assoc, bind_assoc]
      congr
      funext found
      -- one lookup for both, and the record that it found is bound for both
      cases found with
      | none => rfl
      | some record => exact judged_same hm hrule (hcontexts.bind _ _) (some record)

/-- On a model without an owner, a rule that does not mention the caller answers
    all callers alike: with the same result, through the same storage calls and
    with the same storage at the end. -/
theorem execute_whoever {route : Route} {action : Action} {rule : Rule}
    (hrule : route.rule? action = some rule) (hm : route.model.owner = none)
    (hcaller : rule.permission.references callerRoot = false) (params : Keyed String)
    (body : Option Json) (caller caller' : Caller) {σ : Type} (driver : Storage.Driver σ)
    (w : World σ) :
    (execute route action ⟨params, body, caller⟩).run driver w =
        (execute route action ⟨params, body, caller'⟩).run driver w ∧
      (execute route action ⟨params, body, caller⟩).exchanges driver w =
        (execute route action ⟨params, body, caller'⟩).exchanges driver w := by
  have hsame : execute route action ⟨params, body, caller⟩ =
      execute route action ⟨params, body, caller'⟩ := by
    unfold execute
    rw [hrule]
    exact handleRule_same hm hcaller caller caller'
  rw [hsame]
  exact ⟨rfl, rfl⟩

/-- Topics that belong to nobody. -/
def topicModel : ModelDecl where
  label := none
  storage := some "topics"
  owner := none
  fields := [("_id", .short [.str "ObjectId", .str "r"]), ("name", .short [.str "String", .str "ru"])]
  createHooks := []
  updateHooks := []

/-- Everybody renames a topic that has a name. -/
def topicRoute : RouteDecl where
  path := "/topics"
  model := "Topic"
  rules := [("u", .full "@topic.name=@topic.name" (some (.field "name")))]

/-- A storage with one topic. -/
def oneTopic : World Memory :=
  ⟨Supply.still, ⟨[("topics", [[("_id", .str "00"), ("name", .str "Cats")]])]⟩⟩

/-- Somebody whose token is rejected renames a topic as somebody does whose claims
    hold a topic of their own. -/
theorem execute_whoever_topics :
    ∃ catalog route, Catalog.empty.declare "Topic" topicModel = .ok catalog ∧
      Route.compile topicRoute catalog = .ok route ∧
      let params : Keyed String := [("name", "Cats")]
      let body : Option Json := some (.obj [("name", .str "Dogs")])
      let run := (execute route .update ⟨params, body, .rejected "expired"⟩).run Memory.driver
        oneTopic
      run = (execute route .update ⟨params, body, .authenticated
        ⟨"ann", [], none, none, [("topic", .obj [("name", .null)])]⟩⟩).run Memory.driver oneTopic ∧
      run.2.store.rows "topics" = [[("_id", .str "00"), ("name", .str "Dogs")]] := by
  have htest : okAnd (Catalog.empty.declare "Topic" topicModel) (fun catalog =>
      okAnd (Route.compile topicRoute catalog) fun route =>
        (route.rule? .update).any fun rule =>
          decide (route.model.owner = none) && !rule.permission.references callerRoot &&
          decide (((execute route .update ⟨[("name", "Cats")],
            some (.obj [("name", .str "Dogs")]), .rejected "expired"⟩).run Memory.driver
              oneTopic).2.store.rows "topics" =
                [[("_id", .str "00"), ("name", .str "Dogs")]])) = true := by
    decide +kernel
  obtain ⟨catalog, hcatalog, htest⟩ := okAnd_iff.mp htest
  obtain ⟨route, hroute, htest⟩ := okAnd_iff.mp htest
  obtain ⟨rule, hrule, htest⟩ := (Option.any_eq_true _ _).mp htest
  simp only [Bool.and_eq_true, decide_eq_true_eq, Bool.not_eq_true'] at htest
  obtain ⟨⟨howner, hcaller⟩, hrows⟩ := htest
  exact ⟨catalog, route, hcatalog, hroute,
    (execute_whoever hrule howner hcaller _ _ _ _ _ _).1, hrows⟩

end RecordGate.Engine

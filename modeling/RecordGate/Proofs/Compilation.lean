import RecordGate.Engine.Endpoint
import RecordGate.Proofs.Registration
import RecordGate.Proofs.RouteChecks

/-! # What compiled routes keep

  A compiled route mounts a model of the catalog, and its rules fit that
  model. This is all that answering a request needs to know about the rules.

  - `Rule.Fits`: a record is loaded exactly for the actions on one record, by
    a declared field, and the permission mentions nothing but the caller and
    the loaded record.
  - `Route.compile_compiled` and `Config.ofText_compiled`: where such routes
    come from.
-/

namespace RecordGate

/-- A rule that can be evaluated for an action on a model. -/
structure Rule.Fits (rule : Rule) (action : Action) (m : Model) : Prop where
  /-- A record is loaded for the actions on one record. -/
  loads : rule.binding.isSome = action.targetsOne
  /-- It is found by a declared field. -/
  declared : ∀ b, rule.binding = some b → m.declares b.field = true
  /-- The permission is about the caller and the loaded record. -/
  roots : ∀ p ∈ rule.permission.paths,
    p.root = callerRoot ∨ rule.binding.isSome = true ∧ p.root = m.bindingName

/-- A route whose rules fit its model, which is one of a catalog. -/
structure Route.Compiled (catalog : Catalog) (r : Route) : Prop where
  /-- The model is in the catalog. -/
  model : r.model ∈ catalog.models
  /-- The loaded record does not hide the caller. -/
  label : r.model.bindingName ≠ callerRoot
  /-- The rules fit the model. -/
  rules : ∀ action rule, r.rule? action = some rule → rule.Fits action r.model

/-! ### Rules -/

theorem Rules.get?_put (rules : Rules) (action other : Action) (rule : Rule) :
    (rules.put action rule).get? other = if action = other then some rule else rules.get? other := by
  induction rules with
  | nil => rfl
  | cons entry rest ih =>
    obtain ⟨a, r⟩ := entry
    simp only [put]
    split
    next h =>
      subst h
      simp only [get?]
      split <;> rfl
    next h =>
      -- the rule goes in front of this entry or somewhere behind it
      split
      · rfl
      · simp only [get?, ih]
        by_cases ha : a = other
        · have hother : action ≠ other := fun h' => h (ha.trans h'.symm)
          simp [ha, hother]
        · simp [ha]

/-- An action with an entry has a rule, which may come from an earlier entry. -/
theorem Rules.exists_of_mem {rules : Rules} {action : Action} {rule : Rule}
    (h : (action, rule) ∈ rules) : ∃ rule', rules.get? action = some rule' := by
  induction rules with
  | nil => cases h
  | cons entry rest ih =>
    obtain ⟨a, r⟩ := entry
    simp only [get?]
    split
    · exact ⟨r, rfl⟩
    next ha =>
      rcases List.mem_cons.mp h with h | h
      · cases h
        exact absurd rfl ha
      · exact ih h

/-- The rule of an action is one of the rules. -/
theorem Rules.mem_of_get? {rules : Rules} {action : Action} {rule : Rule}
    (h : rules.get? action = some rule) : (action, rule) ∈ rules := by
  induction rules with
  | nil => cases h
  | cons entry rest ih =>
    obtain ⟨a, r⟩ := entry
    simp only [get?] at h
    split at h
    next ha =>
      cases h
      rw [ha]
      exact List.mem_cons_self
    · exact List.mem_cons_of_mem _ (ih h)

namespace Route

variable {path : String} {action : Action} {m : Model}

theorem compileRule_fits {decl : RuleDecl} {rule : Rule}
    (h : compileRule path action decl m = .ok rule) : rule.Fits action m := by
  obtain ⟨hdecl, hmeans⟩ := compileRule_eq_ok.mp h
  obtain ⟨e, hparse, hroots⟩ := hdecl.permission
  obtain rfl : e = rule.permission := Except.ok.inj (hparse.symm.trans hmeans.permission)
  constructor
  case loads => exact hmeans.isSome_binding
  case declared =>
    intro b hb
    obtain ⟨hone, rfl⟩ := hmeans.binding_eq_some.mp hb
    exact hdecl.field hone
  case roots =>
    rw [hmeans.isSome_binding]
    exact hroots

theorem compileRules_fit {decls : Keyed RuleDecl} {acc rules : Rules}
    (hacc : ∀ action rule, acc.get? action = some rule → rule.Fits action m)
    (h : compileRules path m decls acc = .ok rules) :
    ∀ action rule, rules.get? action = some rule → rule.Fits action m := by
  induction decls generalizing acc with
  | nil =>
    cases h
    exact hacc
  | cons entry rest ih =>
    obtain ⟨code, decl⟩ := entry
    simp only [compileRules] at h
    split at h
    next action _ =>
      obtain ⟨rule, hrule, h⟩ := bind_eq_ok_iff.mp h
      -- the rules read so far fit, and the new one replaces one of them at most
      refine ih (fun other rule' hget => ?_) h
      rw [Rules.get?_put] at hget
      split at hget
      next heq =>
        cases hget
        exact heq ▸ compileRule_fits hrule
      · exact hacc other rule' hget
    · cases h

/-- A compiled route mounts a model of the catalog, with rules that fit it. -/
theorem compile_compiled {decl : RouteDecl} {catalog : Catalog} {route : Route}
    (h : compile decl catalog = .ok route) : route.Compiled catalog := by
  obtain ⟨-, hmodel, hlabel, hrules, -, -⟩ := compile_eq_ok.mp h
  exact ⟨Catalog.get?_mem hmodel, hlabel, compileRules_fit (fun _ _ hnone => by cases hnone) hrules⟩

/-- Every route of a list is compiled from one of the declarations. -/
theorem compileAll_mem {catalog : Catalog} {seen : List String} {decls : List RouteDecl}
    {routes : List Route} (h : compileAll catalog seen decls = .ok routes) :
    ∀ route ∈ routes, ∃ decl ∈ decls, compile decl catalog = .ok route := by
  obtain ⟨-, -, hall⟩ := compileAll_eq_ok.mp h
  clear h
  induction hall with
  | nil => exact fun route hroute => nomatch hroute
  | cons hfirst _ ih =>
    intro route hroute
    rcases List.mem_cons.mp hroute with rfl | hroute
    · exact ⟨_, List.mem_cons_self, hfirst⟩
    · obtain ⟨decl, hdecl, hcompile⟩ := ih route hroute
      exact ⟨decl, List.mem_cons_of_mem _ hdecl, hcompile⟩

end Route

/-- The routes of a configuration text are compiled against its models. -/
theorem Config.ofText_compiled {text : String} {cfg : Config} (h : Config.ofText text = .ok cfg) :
    ∀ route ∈ cfg.routes, route.Compiled cfg.catalog := by
  obtain ⟨api, -, -, hroutes⟩ := Config.ofText_catalog h
  intro route hroute
  obtain ⟨decl, -, hcompile⟩ := Route.compileAll_mem hroutes route hroute
  exact Route.compile_compiled hcompile

/-- A model of a configuration that shares its collection with no other. -/
structure SoleModel (cfg : Config) (m : Model) : Prop where
  /-- It is one of the models. -/
  mem : m ∈ cfg.catalog.models
  /-- No other has the same collection. -/
  only : ∀ m' ∈ cfg.catalog.models, m'.collection = m.collection → m' = m

/-- The only model of a configuration is one. -/
theorem soleModel_of_single {cfg : Config} {m : Model} (h : cfg.catalog.models = [m]) :
    SoleModel cfg m where
  mem := by
    rw [h]
    exact List.mem_singleton.mpr rfl
  only m' hm' _ := by
    rw [h] at hm'
    exact List.mem_singleton.mp hm'

/-! ### Endpoints -/

/-- A planned endpoint is an action of one of the routes, with a rule there. -/
theorem Endpoint.mem_plan {routes : List Route} {e : Endpoint} (h : e ∈ Endpoint.plan routes) :
    e.route ∈ routes ∧ e.method = Method.ofAction e.action ∧
      path? e.route e.action = some e.path ∧ ∃ rule, e.route.rule? e.action = some rule := by
  obtain ⟨route, hroute, h⟩ := List.mem_flatMap.mp h
  obtain ⟨⟨action, rule⟩, hrule, h⟩ := List.mem_filterMap.mp h
  obtain ⟨path, hpath, rfl⟩ := Option.map_eq_some_iff.mp h
  exact ⟨hroute, rfl, hpath, Rules.exists_of_mem hrule⟩

/-! ### A configuration -/

namespace Config

/-- Whether a configuration has one model and one route, which pass a test. -/
def onlyAnd (cfg : Config) (test : Model → Route → Bool) : Bool :=
  match cfg.catalog.models, cfg.routes with
  | [m], [route] => test m route
  | _, _ => false

theorem onlyAnd_iff {cfg : Config} {test : Model → Route → Bool} :
    cfg.onlyAnd test = true ↔
      ∃ m route, cfg.catalog.models = [m] ∧ cfg.routes = [route] ∧ test m route = true := by
  unfold onlyAnd
  constructor
  · intro h
    split at h
    · next m route hmodels hroutes => exact ⟨m, route, hmodels, hroutes, h⟩
    · cases h
  · rintro ⟨m, route, hmodels, hroutes, h⟩
    rw [hmodels, hroutes]
    exact h

/-- Notes that belong to their authors. Everybody creates, and the author
    updates. -/
def notes : String :=
"models:
  Note:
    owner: by
    fields:
      _id: [ObjectId, r]
      by: [String, r]
      at: [String, cu]
routes:
  - path: /n
    model: Note
    rules:
      c: \"@req_user=@req_user\"
      u: \"@note.by=@req_user._id\"
"

/-- What the text declares. -/
def notesDecl : ApiDecl where
  models := [("Note", {
    label := none
    storage := none
    owner := some "by"
    fields := [("_id", .short [.str "ObjectId", .str "r"]),
      ("by", .short [.str "String", .str "r"]), ("at", .short [.str "String", .str "cu"])]
    createHooks := []
    updateHooks := [] })]
  routes := [{
    path := "/n"
    model := "Note"
    rules := [("c", .permission "@req_user=@req_user"), ("u", .permission "@note.by=@req_user._id")] }]

/-- A text makes the configuration of what is read from it. -/
theorem ofText_of_read {text : String} {api : ApiDecl}
    (h : okAnd (ApiDecl.ofText text) (fun read => decide (read = api)) = true) :
    ofText text = ofDecl api := by
  obtain ⟨read, hread, hsame⟩ := okAnd_iff.mp h
  unfold ofText
  rw [hread, ok_bind, of_decide_eq_true hsame]

/-- The text and the declaration make the same configuration. -/
theorem ofText_notes : ofText notes = ofDecl notesDecl :=
  ofText_of_read (by decide +kernel)

/-- It has two endpoints, both of a model with an owner. -/
theorem notes_accepted :
    ∃ cfg, ofText notes = .ok cfg ∧
      (Endpoint.plan cfg.routes).map (fun e => (e.action, e.route.model.owner)) =
        [(.create, some "by"), (.update, some "by")] := by
  have htest : okAnd (ofDecl notesDecl) (fun cfg =>
      decide ((Endpoint.plan cfg.routes).map (fun e => (e.action, e.route.model.owner)) =
        [(.create, some "by"), (.update, some "by")])) = true := by decide +kernel
  obtain ⟨cfg, hcfg, hplan⟩ := okAnd_iff.mp htest
  exact ⟨cfg, ofText_notes.trans hcfg, of_decide_eq_true hplan⟩

/-- Cards that belong to those who made them. Everybody makes cards and sees
    their own, and changes and removes these. -/
def cards : String :=
"models:
  Card:
    owner: by
    fields:
      _id: [ObjectId, r]
      by: [ObjectId, r]
      text: [String, cru]
      ink: [String, cru]
routes:
  - path: /c
    model: Card
    rules:
      c: \"@req_user=@req_user\"
      rA: \"@req_user=@req_user\"
      u: \"@card.by=@req_user._id\"
      d: \"@card.by=@req_user._id\"
"

/-- What the text declares. -/
def cardsDecl : ApiDecl where
  models := [("Card", {
    label := none
    storage := none
    owner := some "by"
    fields := [("_id", .short [.str "ObjectId", .str "r"]),
      ("by", .short [.str "ObjectId", .str "r"]), ("text", .short [.str "String", .str "cru"]),
      ("ink", .short [.str "String", .str "cru"])]
    createHooks := []
    updateHooks := [] })]
  routes := [{
    path := "/c"
    model := "Card"
    rules := [("c", .permission "@req_user=@req_user"), ("rA", .permission "@req_user=@req_user"),
      ("u", .permission "@card.by=@req_user._id"), ("d", .permission "@card.by=@req_user._id")] }]

/-- The text and the declaration make the same configuration. -/
theorem ofText_cards : ofText cards = ofDecl cardsDecl :=
  ofText_of_read (by decide +kernel)

end Config

end RecordGate

import RecordGate.Proofs.Layout

/-! # Which route lists are accepted

  A route list is accepted iff no two routes have the same path and each route
  on its own fits the catalog; and then the routes are the declared ones.

  - `RouteDecl.WellFormed`: a declared route that fits a model.
  - `RouteDecl.BoundBy`: the route that comes of it has the configured actions
    and no others, each with the permission and the loading that its rule
    means.
  - `Config.bindRoutes_exact`: the checks accept the well-formed lists, and
    bind them so.

  The checks look at the rules in the order in which they are written and put
  them into the order of the actions, so what a compiled route holds is said
  through its lookup, by induction on the rules that are still to come.
-/

namespace RecordGate

/-- A declared route that fits a model. -/
structure RouteDecl.WellFormed (decl : RouteDecl) (m : Model) : Prop where
  /-- The path is one or more segments, each after a slash. -/
  path : Route.PathSpelled decl.path
  /-- It is not the one that the service answers itself. -/
  reserved : decl.path ≠ "/health"
  /-- The loaded record does not hide the caller. -/
  label : m.label.singular ≠ "req_user"
  /-- Every rule is written under the code of an action that it can stand
      for. -/
  rules : ∀ entry ∈ decl.rules, ∃ action : Action,
    entry.1 = action.code ∧ entry.2.WellFormed action m
  /-- All actions on one record have the same path parameter. -/
  param : ∀ (a b : Action) (r r' : RuleDecl), (a.code, r) ∈ decl.rules →
    (b.code, r') ∈ decl.rules → a.targetsOne = true → b.targetsOne = true →
    r.loading.param = r'.loading.param

/-- The route that is bound for a declaration. -/
structure RouteDecl.BoundBy (decl : RouteDecl) (catalog : Catalog) (route : Route) : Prop where
  /-- It has the declared path. -/
  path : route.path = decl.path
  /-- It mounts the model of the declared name. -/
  model : catalog.get? decl.model = some route.model
  /-- It has the configured actions, in their order. -/
  actions : route.rules.map Prod.fst =
    Action.all.filter fun action => action.code ∈ decl.rules.map Prod.fst
  /-- The rule of an action is what its declaration means. -/
  rules : ∀ action rule, route.rule? action = some rule ↔
    ∃ r, (action.code, r) ∈ decl.rules ∧ r.Means action rule

/-- A well-formed rule means something. -/
theorem RuleDecl.WellFormed.exists_means {r : RuleDecl} {action : Action} {m : Model}
    (h : r.WellFormed action m) : ∃ rule, r.Means action rule := by
  obtain ⟨e, hparse, -⟩ := h.permission
  exact ⟨⟨e, if action.targetsOne then some r.loading else none⟩, hparse, rfl⟩

namespace Route

variable {path : String} {action : Action} {m : Model} {decls : Keyed RuleDecl}
  {acc rules : Rules} {rule : Rule} {decl : RouteDecl} {catalog : Catalog} {route : Route}

/-! ### The rules of a route -/

/-- The first rule compiles under its code, and the others after it. -/
theorem compileRules_cons {code : String} {r : RuleDecl} :
    compileRules path m ((code, r) :: decls) acc = .ok rules ↔
      ∃ action rule, code = action.code ∧ r.WellFormed action m ∧ r.Means action rule ∧
        compileRules path m decls (acc.put action rule) = .ok rules := by
  simp only [compileRules]
  constructor
  · intro h
    split at h
    next action hcode =>
      obtain ⟨rule, hrule, h⟩ := bind_eq_ok_iff.mp h
      obtain ⟨hwell, hmeans⟩ := compileRule_eq_ok.mp hrule
      exact ⟨action, rule, Action.ofCode?_eq_some.mp hcode, hwell, hmeans, h⟩
    · cases h
  · rintro ⟨action, rule, hcode, hwell, hmeans, h⟩
    rw [Action.ofCode?_eq_some.mpr hcode]
    show compileRule path action r m >>= _ = _
    rw [compileRule_eq_ok.mpr ⟨hwell, hmeans⟩, ok_bind, h]

/-- Rules compile iff each can stand for the action of its code. -/
theorem exists_compileRules :
    (∃ rules, compileRules path m decls acc = .ok rules) ↔
      ∀ entry ∈ decls, ∃ action : Action,
        entry.1 = action.code ∧ entry.2.WellFormed action m := by
  induction decls generalizing acc with
  | nil => exact ⟨fun _ => List.forall_mem_nil _, fun _ => ⟨acc, rfl⟩⟩
  | cons entry decls ih =>
    obtain ⟨code, r⟩ := entry
    rw [List.forall_mem_cons]
    constructor
    · rintro ⟨rules, h⟩
      obtain ⟨action, rule, hcode, hwell, -, h⟩ := compileRules_cons.mp h
      exact ⟨⟨action, hcode, hwell⟩, ih.mp ⟨rules, h⟩⟩
    · rintro ⟨⟨action, hcode, hwell⟩, hrest⟩
      obtain ⟨rule, hmeans⟩ := hwell.exists_means
      obtain ⟨rules, h⟩ := ih.mpr hrest
      exact ⟨rules, compileRules_cons.mpr ⟨action, rule, hcode, hwell, hmeans, h⟩⟩

/-- Compiled rules hold what the declarations mean, and under the other actions
    what was there before. -/
theorem compileRules_get? (hnodup : (decls.map Prod.fst).Nodup)
    (h : compileRules path m decls acc = .ok rules) (action : Action) (rule : Rule) :
    rules.get? action = some rule ↔
      (∃ r, (action.code, r) ∈ decls ∧ r.Means action rule) ∨
        (∀ r, (action.code, r) ∉ decls) ∧ acc.get? action = some rule := by
  induction decls generalizing acc with
  | nil =>
    cases h
    simp
  | cons entry decls ih =>
    obtain ⟨code, r⟩ := entry
    obtain ⟨hnew, hrest⟩ := List.nodup_cons.mp hnodup
    obtain ⟨first, firstRule, rfl, -, hmeans, h⟩ := compileRules_cons.mp h
    rw [ih hrest h, Rules.get?_put]
    by_cases hfirst : first = action
    · -- no later entry has this code, so the rule is the first one's
      subst hfirst
      have hgone : ∀ r', (first.code, r') ∉ decls :=
        fun r' hmem => hnew (List.mem_map.mpr ⟨_, hmem, rfl⟩)
      rw [if_pos rfl]
      constructor
      · rintro (⟨r', hmem, -⟩ | ⟨-, hrule⟩)
        · exact absurd hmem (hgone r')
        · cases hrule
          exact .inl ⟨r, List.mem_cons_self, hmeans⟩
      · rintro (⟨r', hmem, hmeans'⟩ | ⟨hnone, -⟩)
        · rcases List.mem_cons.mp hmem with hsame | hmem
          · cases hsame
            exact .inr ⟨hgone, congrArg some (hmeans.unique hmeans')⟩
          · exact absurd hmem (hgone r')
        · exact absurd List.mem_cons_self (hnone r)
    · -- the first entry is about another action
      have hmem : ∀ r', (action.code, r') ∈ (first.code, r) :: decls ↔ (action.code, r') ∈ decls := by
        intro r'
        refine List.mem_cons.trans (or_iff_right fun hsame => hfirst ?_)
        exact Action.code_inj (congrArg Prod.fst hsame).symm
      simp only [if_neg hfirst, hmem]

/-- The compiled rules of a route are what its declarations mean. -/
theorem mem_compileRules (hnodup : (decls.map Prod.fst).Nodup)
    (h : compileRules path m decls [] = .ok rules) {action : Action} {rule : Rule} :
    (action, rule) ∈ rules ↔ ∃ r, (action.code, r) ∈ decls ∧ r.Means action rule := by
  have hordered : rules.Ordered :=
    (compileRules_laid List.Pairwise.nil (fun entry hentry => nomatch hentry) h).1
  have hmem : (action, rule) ∈ rules ↔ rules.get? action = some rule :=
    ⟨hordered.get?_of_mem, Rules.mem_of_get?⟩
  refine (hmem.trans (compileRules_get? hnodup h action rule)).trans (or_iff_left fun hnone => ?_)
  cases hnone.2

/-- The parameter check passes iff all rules that load a record do so by one
    parameter. -/
theorem checkParams_iff :
    (∀ expected, route.itemParam? = some expected →
      checkParams path expected route.rules = .ok ()) ↔
      ∀ entry ∈ route.rules, ∀ entry' ∈ route.rules, ∀ b b',
        entry.2.binding = some b → entry'.2.binding = some b' → b.param = b'.param := by
  constructor
  · intro h entry hentry entry' hentry' b b' hb hb'
    obtain ⟨expected, hexpected⟩ := itemParam?_isSome hentry (by rw [hb]; rfl)
    have hall := checkParams_eq_ok.mp (h expected hexpected)
    rw [hall entry hentry b hb, hall entry' hentry' b' hb']
  · intro h expected hexpected
    obtain ⟨b, hfirst, rfl⟩ := Option.map_eq_some_iff.mp hexpected
    obtain ⟨entry, hentry, hb⟩ := List.exists_of_findSome?_eq_some hfirst
    exact checkParams_eq_ok.mpr fun entry' hentry' b' hb' => h entry' hentry' entry hentry b' b hb' hb

/-! ### One route -/

/-- What is compiled from a declaration is bound for it. -/
theorem compile_boundBy (hnodup : (decl.rules.map Prod.fst).Nodup)
    (h : compile decl catalog = .ok route) : decl.BoundBy catalog route := by
  obtain ⟨-, hmodel, -, hrules, hpath, -⟩ := compile_eq_ok.mp h
  have hordered := (compile_laid h).ordered
  have hrule : ∀ action rule, route.rule? action = some rule ↔
      ∃ r, (action.code, r) ∈ decl.rules ∧ r.Means action rule := fun action rule =>
    Iff.trans ⟨Rules.mem_of_get?, hordered.get?_of_mem⟩ (mem_compileRules hnodup hrules)
  refine ⟨hpath, hmodel, ?_, hrule⟩
  rw [hordered.actions]
  refine List.filter_congr fun action _ => ?_
  rw [Bool.eq_iff_iff, decide_eq_true_iff, Option.isSome_iff_exists, List.mem_map]
  constructor
  · rintro ⟨rule, hget⟩
    obtain ⟨r, hmem, -⟩ := (hrule action rule).mp hget
    exact ⟨_, hmem, rfl⟩
  · rintro ⟨⟨code, r⟩, hmem, rfl⟩
    obtain ⟨action', hcode, hwell⟩ := exists_compileRules.mp ⟨_, hrules⟩ _ hmem
    obtain rfl := Action.code_inj hcode
    obtain ⟨rule, hmeans⟩ := hwell.exists_means
    exact ⟨rule, (hrule action rule).mpr ⟨r, hmem, hmeans⟩⟩

/-- A declaration compiles iff it is well-formed for the model that it
    names. -/
theorem exists_compile (hnodup : (decl.rules.map Prod.fst).Nodup) :
    (∃ route, compile decl catalog = .ok route) ↔
      ∃ m, catalog.get? decl.model = some m ∧ decl.WellFormed m := by
  constructor
  · rintro ⟨route, h⟩
    obtain ⟨hcheck, hmodel, hlabel, hrules, -, hparams⟩ := compile_eq_ok.mp h
    obtain ⟨hpath, hreserved⟩ := checkPath_eq_ok.mp hcheck
    have hwell := exists_compileRules.mp ⟨_, hrules⟩
    -- a declared rule on one record is compiled, with its loading
    have hloaded : ∀ (a : Action) (r : RuleDecl), (a.code, r) ∈ decl.rules →
        a.targetsOne = true → ∃ entry ∈ route.rules, entry.2.binding = some r.loading := by
      intro a r hmem hone
      obtain ⟨action, hcode, haction⟩ := hwell _ hmem
      obtain rfl := Action.code_inj hcode
      obtain ⟨rule, hmeans⟩ := haction.exists_means
      exact ⟨(a, rule), (mem_compileRules hnodup hrules).mpr ⟨r, hmem, hmeans⟩,
        hmeans.binding_eq_some.mpr ⟨hone, rfl⟩⟩
    refine ⟨route.model, hmodel, hpath, hreserved, hlabel, hwell, ?_⟩
    intro a b r r' ha hb hone hone'
    obtain ⟨entry, hentry, hr⟩ := hloaded a r ha hone
    obtain ⟨entry', hentry', hr'⟩ := hloaded b r' hb hone'
    exact checkParams_iff.mp hparams entry hentry entry' hentry' _ _ hr hr'
  · rintro ⟨m, hmodel, hpath, hreserved, hlabel, hwell, hparam⟩
    obtain ⟨rules, hrules⟩ := exists_compileRules.mpr hwell
    refine ⟨⟨decl.path, m, rules⟩, compile_eq_ok.mpr ⟨checkPath_eq_ok.mpr ⟨hpath, hreserved⟩,
      hmodel, hlabel, hrules, rfl, checkParams_iff.mpr ?_⟩⟩
    rintro ⟨a, rule⟩ hentry ⟨b, rule'⟩ hentry' _ _ hb hb'
    obtain ⟨r, hr, hmeans⟩ := (mem_compileRules hnodup hrules).mp hentry
    obtain ⟨r', hr', hmeans'⟩ := (mem_compileRules hnodup hrules).mp hentry'
    obtain ⟨hone, rfl⟩ := hmeans.binding_eq_some.mp hb
    obtain ⟨hone', rfl⟩ := hmeans'.binding_eq_some.mp hb'
    exact hparam a b r r' hr hr' hone hone'

end Route

/-! ### All routes -/

theorem exists_forall₂ {α β : Type} {R : α → β → Prop} {as : List α} :
    (∃ bs, List.Forall₂ R as bs) ↔ ∀ a ∈ as, ∃ b, R a b := by
  induction as with
  | nil => exact ⟨fun _ => List.forall_mem_nil _, fun _ => ⟨[], .nil⟩⟩
  | cons a as ih =>
    rw [List.forall_mem_cons, ← ih]
    constructor
    · rintro ⟨_, _ | ⟨hfirst, hrest⟩⟩
      exact ⟨⟨_, hfirst⟩, ⟨_, hrest⟩⟩
    · rintro ⟨⟨b, hfirst⟩, ⟨bs, hrest⟩⟩
      exact ⟨b :: bs, .cons hfirst hrest⟩

namespace Config

theorem bindRoutes_eq_ok {api : ApiDecl} {catalog : Catalog} {cfg : Config} :
    bindRoutes api catalog = .ok cfg ↔
      cfg.catalog = catalog ∧ Route.compileAll catalog [] api.routes = .ok cfg.routes := by
  unfold bindRoutes
  rw [bind_eq_ok_iff]
  constructor
  · rintro ⟨routes, hroutes, h⟩
    cases h
    exact ⟨rfl, hroutes⟩
  · rintro ⟨rfl, hroutes⟩
    exact ⟨_, hroutes, rfl⟩

/-- The checks of a route list accept the well-formed ones and no others, and
    bind what is declared. A route has no two rules under one code, since they
    are read from a map:

    - the list is bound iff no two routes have the same path and each is
      well-formed for the model of the catalog that it names;
    - and then every route, one for one, has the path, the model and the
      actions that its declaration configures, with a loading for the actions
      on one record and none for the others. -/
theorem bindRoutes_exact (api : ApiDecl) (catalog : Catalog)
    (hrules : ∀ decl ∈ api.routes, (decl.rules.map Prod.fst).Nodup) :
    ((∃ cfg, bindRoutes api catalog = .ok cfg) ↔
      (api.routes.map RouteDecl.path).Nodup ∧
        ∀ decl ∈ api.routes, ∃ m, catalog.get? decl.model = some m ∧ decl.WellFormed m) ∧
      ∀ cfg, bindRoutes api catalog = .ok cfg → cfg.catalog = catalog ∧
        List.Forall₂ (fun decl route => decl.BoundBy catalog route) api.routes cfg.routes := by
  have hcompiled : (∃ routes, List.Forall₂ (fun decl route => Route.compile decl catalog = .ok route)
      api.routes routes) ↔
      ∀ decl ∈ api.routes, ∃ m, catalog.get? decl.model = some m ∧ decl.WellFormed m := by
    rw [exists_forall₂]
    exact forall₂_congr fun decl hdecl => Route.exists_compile (hrules decl hdecl)
  constructor
  · rw [← hcompiled]
    constructor
    · rintro ⟨cfg, h⟩
      obtain ⟨-, hroutes⟩ := bindRoutes_eq_ok.mp h
      obtain ⟨hnodup, -, hall⟩ := Route.compileAll_eq_ok.mp hroutes
      exact ⟨hnodup, _, hall⟩
    · rintro ⟨hnodup, routes, hall⟩
      have hroutes := Route.compileAll_eq_ok.mpr ⟨hnodup, fun _ _ => List.not_mem_nil, hall⟩
      exact ⟨⟨catalog, routes⟩, bindRoutes_eq_ok.mpr ⟨rfl, hroutes⟩⟩
  · intro cfg h
    obtain ⟨hcatalog, hroutes⟩ := bindRoutes_eq_ok.mp h
    obtain ⟨-, -, hall⟩ := Route.compileAll_eq_ok.mp hroutes
    refine ⟨hcatalog, ?_⟩
    rw [List.forall₂_iff_get] at hall ⊢
    exact ⟨hall.1, fun i hi hi' => Route.compile_boundBy (hrules _ (List.get_mem _ _)) (hall.2 i hi hi')⟩

/-- The cards are bound: the one route is well-formed, and has the four
    configured actions. -/
theorem cards_bound :
    ∃ catalog cfg route, catalogOf cardsDecl = .ok catalog ∧
      (∀ decl ∈ cardsDecl.routes, (decl.rules.map Prod.fst).Nodup) ∧
      bindRoutes cardsDecl catalog = .ok cfg ∧
      (∀ decl ∈ cardsDecl.routes, ∃ m, catalog.get? decl.model = some m ∧ decl.WellFormed m) ∧
      cfg.routes = [route] ∧ route.rules.map Prod.fst = [.create, .list, .update, .delete] := by
  have htest : okAnd (catalogOf cardsDecl) (fun catalog =>
      okAnd (bindRoutes cardsDecl catalog) fun _ => true) = true := by decide +kernel
  obtain ⟨catalog, hcatalog, htest⟩ := okAnd_iff.mp htest
  obtain ⟨cfg, hcfg, -⟩ := okAnd_iff.mp htest
  have hrules : ∀ decl ∈ cardsDecl.routes, (decl.rules.map Prod.fst).Nodup := by decide
  have hexact := bindRoutes_exact cardsDecl catalog hrules
  obtain ⟨-, hbound⟩ := hexact.2 cfg hcfg
  generalize hroutes : cfg.routes = routes at hbound
  cases hbound with
  | cons hroute hrest =>
    cases hrest
    refine ⟨catalog, cfg, _, hcatalog, hrules, hcfg, (hexact.1.mp ⟨cfg, hcfg⟩).2, hroutes, ?_⟩
    rw [hroute.actions]
    decide

end Config

end RecordGate

import Mathlib.Data.List.Sort
import RecordGate.Proofs.Compilation

/-! # How compiled routes lie

  What the checks of a route say about its path and its parameters, and what
  compiling a list of routes says about all of them.

  - `Route.Laid`: the path has no character but those of segments and slashes,
    the rules stand in the order of the actions, and all that load a record do
    so by one parameter.
  - `Route.compileAll_nodup`: no two routes have the same path.
  - `Rules.Ordered.actions`: so the rules stand for the actions that have one,
    in their order.
-/

namespace RecordGate

/-! ### The order of rules -/

theorem Action.position_inj : ∀ a b : Action, a.position = b.position → a = b := by
  intro a b
  cases a <;> cases b <;> decide

/-- Rules in the order of their actions, one for each action at most. -/
def Rules.Ordered (rules : Rules) : Prop :=
  rules.Pairwise fun a b => a.1.position < b.1.position

namespace Rules

variable {rules : Rules} {action : Action} {rule : Rule}

/-- Setting a rule adds no other entry. -/
theorem mem_put {entry : Action × Rule} (h : entry ∈ rules.put action rule) :
    entry = (action, rule) ∨ entry ∈ rules := by
  induction rules with
  | nil => exact .inl (List.mem_singleton.mp h)
  | cons first rest ih =>
    obtain ⟨a, r⟩ := first
    simp only [put] at h
    split at h
    · exact (List.mem_cons.mp h).imp_right (List.mem_cons_of_mem _)
    · split at h
      · exact List.mem_cons.mp h
      · rcases List.mem_cons.mp h with h | h
        · exact .inr (h ▸ List.mem_cons_self)
        · exact (ih h).imp_right (List.mem_cons_of_mem _)

theorem Ordered.put (h : rules.Ordered) (action : Action) (rule : Rule) :
    (rules.put action rule).Ordered := by
  induction rules with
  | nil => exact List.pairwise_singleton _ _
  | cons first rest ih =>
    obtain ⟨a, r⟩ := first
    obtain ⟨hfirst, hrest⟩ := List.pairwise_cons.mp h
    simp only [Rules.put]
    by_cases hsame : a = action
    · -- the rule takes the place of the one before it
      subst hsame
      rw [if_pos rfl]
      exact List.pairwise_cons.mpr ⟨hfirst, hrest⟩
    · rw [if_neg hsame]
      by_cases hlt : action.position < a.position
      · rw [if_pos hlt]
        refine List.pairwise_cons.mpr ⟨fun entry hentry => ?_, h⟩
        rcases List.mem_cons.mp hentry with rfl | hentry
        · exact hlt
        · exact Nat.lt_trans hlt (hfirst entry hentry)
      · rw [if_neg hlt]
        have hne : a.position ≠ action.position := fun heq => hsame (Action.position_inj a action heq)
        refine List.pairwise_cons.mpr ⟨fun entry hentry => ?_, ih hrest⟩
        rcases mem_put hentry with rfl | hentry
        · show a.position < action.position
          omega
        · exact hfirst entry hentry

/-- Among ordered rules an entry is the rule of its action. -/
theorem Ordered.get?_of_mem (h : rules.Ordered) (hmem : (action, rule) ∈ rules) :
    rules.get? action = some rule := by
  induction rules with
  | nil => cases hmem
  | cons first rest ih =>
    obtain ⟨a, r⟩ := first
    obtain ⟨hfirst, hrest⟩ := List.pairwise_cons.mp h
    simp only [get?]
    rcases List.mem_cons.mp hmem with hmem | hmem
    · cases hmem
      rw [if_pos rfl]
    · have hlt : a.position < action.position := hfirst _ hmem
      rw [if_neg]
      · exact ih hrest hmem
      · rintro rfl
        omega

/-- The actions of ordered rules are those that have a rule, in order. -/
theorem Ordered.actions (h : rules.Ordered) :
    rules.map Prod.fst = Action.all.filter fun action => (rules.get? action).isSome := by
  have hleft : (rules.map Prod.fst).Pairwise fun a b => a.position < b.position :=
    List.pairwise_map.mpr h
  have hall : Action.all.Pairwise fun a b => a.position < b.position := by decide
  have hright := hall.filter fun action => (rules.get? action).isSome
  have : Std.Irrefl fun a b : Action => a.position < b.position := ⟨fun a => Nat.lt_irrefl _⟩
  have : Std.Antisymm fun a b : Action => a.position < b.position :=
    ⟨fun a b hab hba => absurd hab (Nat.lt_asymm hba)⟩
  apply hleft.eq_of_mem_iff hright
  intro action
  have hmem : action ∈ Action.all := by cases action <;> decide
  rw [List.mem_filter, List.mem_map]
  constructor
  · rintro ⟨⟨a, rule⟩, hentry, rfl⟩
    refine ⟨hmem, ?_⟩
    rw [h.get?_of_mem hentry]
    rfl
  · rintro ⟨-, hsome⟩
    obtain ⟨rule, hrule⟩ := Option.isSome_iff_exists.mp hsome
    exact ⟨(action, rule), mem_of_get? hrule, rfl⟩

end Rules

/-! ### The checks of a route -/

namespace Route

/-- What the checks of a route say about its path and its rules. -/
structure Laid (r : Route) : Prop where
  /-- The path is made of segments. -/
  path : ∀ c ∈ r.path.toList, c = '/' ∨ isSegmentChar c = true
  /-- It is not the one that the service answers itself. -/
  reserved : r.path ≠ healthPath
  /-- The rules stand in order. -/
  ordered : Rules.Ordered r.rules
  /-- Every rule that loads a record does so by the parameter of the route. -/
  param : ∀ action rule, r.rule? action = some rule → ∀ b, rule.binding = some b →
    r.itemParam? = some b.param
  /-- Parameters are named by identifiers. -/
  ident : ∀ action rule, r.rule? action = some rule → ∀ b, rule.binding = some b →
    Text.isIdent b.param = true

variable {path : String} {m : Model} {catalog : Catalog} {decl : RouteDecl} {route : Route}

theorem PathSpelled.chars (h : PathSpelled path) :
    ∀ c ∈ path.toList, c = '/' ∨ isSegmentChar c = true := by
  obtain ⟨segments, -, hsegments, htext⟩ := h
  rw [htext]
  intro c hc
  obtain ⟨segment, hsegment, hc⟩ := List.mem_flatMap.mp hc
  rcases List.mem_cons.mp hc with rfl | hc
  · exact .inl rfl
  · exact .inr (isSegmentChar_iff.mpr ((hsegments segment hsegment).chars c hc))

theorem compileRule_ident {action : Action} {ruleDecl : RuleDecl} {rule : Rule}
    (h : compileRule path action ruleDecl m = .ok rule) :
    ∀ b, rule.binding = some b → Text.isIdent b.param = true := by
  obtain ⟨hdecl, hmeans⟩ := compileRule_eq_ok.mp h
  intro b hb
  obtain ⟨hone, rfl⟩ := hmeans.binding_eq_some.mp hb
  exact Text.isIdent_iff.mpr (hdecl.param hone)

theorem compileRules_laid {decls : Keyed RuleDecl} {acc rules : Rules} (hordered : acc.Ordered)
    (hident : ∀ entry ∈ acc, ∀ b, entry.2.binding = some b → Text.isIdent b.param = true)
    (h : compileRules path m decls acc = .ok rules) :
    rules.Ordered ∧
      ∀ entry ∈ rules, ∀ b, entry.2.binding = some b → Text.isIdent b.param = true := by
  induction decls generalizing acc with
  | nil =>
    cases h
    exact ⟨hordered, hident⟩
  | cons entry rest ih =>
    obtain ⟨code, ruleDecl⟩ := entry
    simp only [compileRules] at h
    split at h
    next action _ =>
      obtain ⟨rule, hrule, h⟩ := bind_eq_ok_iff.mp h
      refine ih (hordered.put action rule) ?_ h
      intro entry hentry
      rcases Rules.mem_put hentry with rfl | hentry
      · exact compileRule_ident hrule
      · exact hident entry hentry
    · cases h

/-- The first rule that loads a record gives the route its parameter. -/
theorem itemParam?_isSome {entry : Action × Rule} (hentry : entry ∈ route.rules)
    (hb : entry.2.binding.isSome = true) : ∃ expected, route.itemParam? = some expected := by
  cases hparam : route.itemParam? with
  | some expected => exact ⟨expected, rfl⟩
  | none =>
    have hfirst := Option.map_eq_none_iff.mp hparam
    have hnone : entry.2.binding = none := List.findSome?_eq_none_iff.mp hfirst entry hentry
    rw [hnone] at hb
    cases hb

theorem compile_laid (h : compile decl catalog = .ok route) : route.Laid := by
  obtain ⟨hcheck, -, -, hrules, hroute, hparams⟩ := compile_eq_ok.mp h
  obtain ⟨hpath, hreserved⟩ := checkPath_eq_ok.mp hcheck
  obtain ⟨hordered, hident⟩ := compileRules_laid List.Pairwise.nil
    (fun entry hentry => nomatch hentry) hrules
  constructor
  case path =>
    rw [hroute]
    exact hpath.chars
  case reserved =>
    rw [hroute]
    exact hreserved
  case ordered => exact hordered
  case param =>
    intro action rule hrule b hb
    have hentry : (action, rule) ∈ route.rules := Rules.mem_of_get? hrule
    obtain ⟨expected, hexpected⟩ := itemParam?_isSome hentry (by rw [hb]; rfl)
    rw [hexpected, checkParams_eq_ok.mp (hparams expected hexpected) _ hentry b hb]
  case ident =>
    intro action rule hrule b hb
    exact hident (action, rule) (Rules.mem_of_get? hrule) b hb

/-! ### All routes -/

/-- No two routes have the same path. -/
theorem compileAll_nodup {seen : List String} {decls : List RouteDecl} {routes : List Route}
    (h : compileAll catalog seen decls = .ok routes) : (routes.map Route.path).Nodup := by
  obtain ⟨hnodup, -, hall⟩ := compileAll_eq_ok.mp h
  have hpaths : routes.map Route.path = decls.map RouteDecl.path := by
    clear h hnodup
    induction hall with
    | nil => rfl
    | cons hfirst _ ih =>
      rw [List.map_cons, List.map_cons, ih, (compile_eq_ok.mp hfirst).2.2.2.2.1]
  rw [hpaths]
  exact hnodup

end Route

end RecordGate

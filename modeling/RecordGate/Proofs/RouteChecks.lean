import Mathlib.Data.List.Forall2
import RecordGate.Config
import RecordGate.Proofs.Offline

/-! # What the checks of a route accept

  Every check that a declared route goes through, as the condition under which
  it passes. What the checks leave behind when they pass is said beside it, so
  nothing that is proved about routes has to open a check again.

  - `Route.PathSpelled`: the grammar of paths (`Route.checkPath_eq_ok`).
  - `RuleDecl.WellFormed` and `RuleDecl.Means`: when a declared rule compiles,
    and to which rule (`Route.compileRule_eq_ok`).
  - `Route.compile_eq_ok` and `Route.compileAll_eq_ok`: one route, and all.
-/

namespace RecordGate

open Text

/-! ### Paths -/

namespace Route

/-- The text of a path segment: `[A-Za-z0-9_-]+`. -/
structure IsSegment (cs : List Char) : Prop where
  /-- There is a character in it. -/
  nonempty : cs ≠ []
  /-- All of them are letters, digits, underscores and hyphens. -/
  chars : ∀ c ∈ cs, IsLetter c ∨ IsDigit c ∨ c = '-'

/-- The text of a path: a slash before each of one or more segments. -/
def PathSpelled (path : String) : Prop :=
  ∃ segments : List (List Char), segments ≠ [] ∧ (∀ cs ∈ segments, IsSegment cs) ∧
    path.toList = segments.flatMap ('/' :: ·)

variable {path source : String} {action : Action} {m : Model} {b : Option Binding}
  {decl : RouteDecl} {catalog : Catalog} {route : Route}

theorem isSegmentChar_iff {c : Char} :
    isSegmentChar c = true ↔ IsLetter c ∨ IsDigit c ∨ c = '-' := by
  rw [← or_assoc, ← isIdentRest_iff]
  simp [isSegmentChar, isIdentRest]

theorem IsSegment.not_mem_slash {cs : List Char} (h : IsSegment cs) : '/' ∉ cs :=
  fun hc => absurd (h.chars '/' hc) (by decide)

theorem checkSegments_eq_ok {segments : List (List Char)} :
    checkSegments path segments = .ok () ↔ ∀ cs ∈ segments, IsSegment cs := by
  induction segments with
  | nil => simp [checkSegments]
  | cons first rest ih =>
    unfold checkSegments
    rw [List.forall_mem_cons, ← ih]
    split
    next hempty =>
      refine ⟨nofun, fun h => absurd ?_ h.1.nonempty⟩
      exact List.isEmpty_iff.mp hempty
    next hnonempty =>
      split
      next hbad =>
        have hnot : ¬first.all isSegmentChar = true := by simpa using hbad
        refine ⟨nofun, fun h => absurd (List.all_eq_true.mpr fun c hc => ?_) hnot⟩
        exact isSegmentChar_iff.mpr (h.1.chars c hc)
      next hgood =>
        have hall : first.all isSegmentChar = true := by simpa using hgood
        refine ⟨fun hrest => ⟨⟨?_, fun c hc => ?_⟩, hrest⟩, fun h => h.2⟩
        · exact fun hnil => hnonempty (List.isEmpty_iff.mpr hnil)
        · exact isSegmentChar_iff.mp (List.all_eq_true.mp hall c hc)

/-- The path check accepts the paths but the one that the service answers
    itself. -/
theorem checkPath_eq_ok : checkPath path = .ok () ↔ PathSpelled path ∧ path ≠ healthPath := by
  unfold checkPath
  split
  next hreserved => exact ⟨nofun, fun h => absurd hreserved h.2⟩
  next hreserved =>
    rw [and_iff_left hreserved]
    split
    next hroot =>
      -- the only segment would be empty
      refine ⟨nofun, ?_⟩
      rintro ⟨segments, hne, hsegments, htext⟩
      obtain ⟨first, rest, rfl⟩ := List.exists_cons_of_ne_nil hne
      rw [hroot, List.flatMap_cons] at htext
      have hempty : first ++ rest.flatMap ('/' :: ·) = [] := (List.cons.inj htext).2.symm
      exact absurd (List.append_eq_nil_iff.mp hempty).1 (hsegments first List.mem_cons_self).nonempty
    next cs _ htext =>
      rw [checkSegments_eq_ok]
      constructor
      · intro hsegments
        obtain ⟨first, rest, hsplit⟩ := List.exists_cons_of_ne_nil (splitOn_ne_nil '/' cs)
        refine ⟨_, splitOn_ne_nil '/' cs, hsegments, ?_⟩
        rw [htext, hsplit, List.flatMap_cons, (splitOn_eq_cons.mp hsplit).1]
        rfl
      · rintro ⟨segments, hne, hsegments, hspelled⟩
        obtain ⟨first, rest, rfl⟩ := List.exists_cons_of_ne_nil hne
        rw [htext, List.flatMap_cons] at hspelled
        have hcs : cs = first ++ rest.flatMap ('/' :: ·) := (List.cons.inj hspelled).2
        rw [splitOn_eq_cons.mpr ⟨hcs, fun piece hpiece => (hsegments piece hpiece).not_mem_slash⟩]
        exact hsegments
    next hslash =>
      refine ⟨nofun, ?_⟩
      rintro ⟨segments, hne, -, htext⟩
      obtain ⟨first, rest, rfl⟩ := List.exists_cons_of_ne_nil hne
      exact absurd htext (hslash _)

end Route

/-! ### Rules -/

/-- The binding that a declared loading writes. -/
def WhereDecl.binding : WhereDecl → Binding
  | .field name => ⟨name, name⟩
  | .both param name => ⟨param, name⟩

namespace RuleDecl

/-- The text of the permission. -/
def source (decl : RuleDecl) : String :=
  (Route.ruleEntries decl).1

/-- How the rule says that its record is loaded, if it does. -/
def loadingDecl (decl : RuleDecl) : Option WhereDecl :=
  (Route.ruleEntries decl).2

/-- How the record is loaded: as the rule says, else by the identifier. -/
def loading (decl : RuleDecl) : Binding :=
  (decl.loadingDecl.map WhereDecl.binding).getD .identifier

/-- A declared rule that can stand for an action on a model. -/
structure WellFormed (decl : RuleDecl) (action : Action) (m : Model) : Prop where
  /-- The permission can be read, and mentions nothing but the caller and,
      where a record is loaded, the record. -/
  permission : ∃ e, Expr.parse decl.source = .ok e ∧ ∀ p ∈ e.paths,
    p.root = callerRoot ∨ action.targetsOne = true ∧ p.root = m.bindingName
  /-- Only the actions on one record say how it is loaded. -/
  place : decl.loadingDecl.isSome = true → action.targetsOne = true
  /-- The path parameter is an identifier. -/
  param : action.targetsOne = true → Identifier decl.loading.param.toList
  /-- The field is declared. -/
  field : action.targetsOne = true → m.declares decl.loading.field = true

/-- The rule that a declaration means for an action: its permission, and its
    loading for the actions on one record and for no others. -/
structure Means (decl : RuleDecl) (action : Action) (rule : Rule) : Prop where
  /-- The permission is what its text is read as. -/
  permission : Expr.parse decl.source = .ok rule.permission
  /-- The loading is there for an action on one record. -/
  binding : rule.binding = if action.targetsOne then some decl.loading else none

variable {decl : RuleDecl} {action : Action} {rule rule' : Rule}

theorem Means.isSome_binding (h : decl.Means action rule) :
    rule.binding.isSome = action.targetsOne := by
  rw [h.binding]
  cases action.targetsOne <;> rfl

theorem Means.binding_eq_some (h : decl.Means action rule) {b : Binding} :
    rule.binding = some b ↔ action.targetsOne = true ∧ decl.loading = b := by
  rw [h.binding]
  cases action.targetsOne <;> simp

/-- A declaration means one rule. -/
theorem Means.unique (h : decl.Means action rule) (h' : decl.Means action rule') :
    rule = rule' := by
  obtain ⟨permission, binding⟩ := rule
  obtain ⟨permission', binding'⟩ := rule'
  obtain rfl : permission = permission' :=
    Except.ok.inj (h.permission.symm.trans h'.permission)
  obtain rfl : binding = binding' := h.binding.trans h'.binding.symm
  rfl

end RuleDecl

namespace Route

variable {path source : String} {action : Action} {m : Model} {b : Option Binding}
  {decl : RouteDecl} {catalog : Catalog} {route : Route}

theorem binding_eq_ok {w : Option WhereDecl} :
    binding path action w = .ok b ↔
      (w.isSome = true → action.targetsOne = true) ∧
        b = if action.targetsOne then some ((w.map WhereDecl.binding).getD .identifier) else none := by
  unfold binding
  cases action.targetsOne
  · cases w <;> simp [eq_comm]
  · rcases w with _ | ⟨name⟩ | ⟨param, field⟩ <;> simp [WhereDecl.binding, eq_comm]

theorem checkBinding_eq_ok :
    checkBinding path m b = .ok () ↔
      ∀ b', b = some b' → Identifier b'.param.toList ∧ m.declares b'.field = true := by
  cases b with
  | none => simp [checkBinding]
  | some b' =>
    simp only [checkBinding, Option.some.injEq, forall_eq', ← isIdent_iff]
    cases isIdent b'.param <;> cases m.declares b'.field <;> simp

theorem checkRoots_eq_ok {roots : List String} :
    checkRoots path source action m b roots = .ok () ↔
      ∀ root ∈ roots, root = callerRoot ∨ b.isSome = true ∧ root = m.bindingName := by
  induction roots with
  | nil => simp [checkRoots]
  | cons first rest ih =>
    unfold checkRoots
    rw [List.forall_mem_cons, ← ih]
    split
    next hfirst => exact (and_iff_right (by simpa using hfirst)).symm
    next hfirst => exact ⟨nofun, fun h => absurd (by simpa using h.1) hfirst⟩

/-- The steps of a rule, one after the other. -/
theorem compileRule_steps {ruleDecl : RuleDecl} {rule : Rule} :
    compileRule path action ruleDecl m = .ok rule ↔
      Expr.parse ruleDecl.source = .ok rule.permission ∧
        binding path action ruleDecl.loadingDecl = .ok rule.binding ∧
        checkBinding path m rule.binding = .ok () ∧
        checkRoots path ruleDecl.source action m rule.binding rule.permission.roots = .ok () := by
  have hsteps : compileRule path action ruleDecl m = (do
      let permission ← Expr.parse ruleDecl.source
      let b ← binding path action ruleDecl.loadingDecl
      checkBinding path m b
      checkRoots path ruleDecl.source action m b permission.roots
      pure ⟨permission, b⟩) := rfl
  rw [hsteps]
  constructor
  · intro h
    obtain ⟨permission, hparse, h⟩ := bind_eq_ok_iff.mp h
    obtain ⟨b, hb, h⟩ := bind_eq_ok_iff.mp h
    obtain ⟨⟨⟩, hbinding, h⟩ := bind_eq_ok_iff.mp h
    obtain ⟨⟨⟩, hroots, h⟩ := bind_eq_ok_iff.mp h
    cases h
    exact ⟨hparse, hb, hbinding, hroots⟩
  · rintro ⟨hparse, hb, hbinding, hroots⟩
    rw [hparse, ok_bind, hb, ok_bind, hbinding, ok_bind, hroots]
    rfl

/-- A declared rule compiles iff it is well-formed, and then to what it
    means. -/
theorem compileRule_eq_ok {ruleDecl : RuleDecl} {rule : Rule} :
    compileRule path action ruleDecl m = .ok rule ↔
      ruleDecl.WellFormed action m ∧ ruleDecl.Means action rule := by
  rw [compileRule_steps, binding_eq_ok, checkBinding_eq_ok, checkRoots_eq_ok,
    Expr.forall_mem_roots]
  constructor
  · rintro ⟨hparse, ⟨hplace, hb⟩, hbinding, hroots⟩
    have hmeans : ruleDecl.Means action rule := ⟨hparse, hb⟩
    rw [hmeans.isSome_binding] at hroots
    refine ⟨⟨⟨_, hparse, hroots⟩, hplace, fun hone => ?_, fun hone => ?_⟩, hmeans⟩
    · exact (hbinding _ (hmeans.binding_eq_some.mpr ⟨hone, rfl⟩)).1
    · exact (hbinding _ (hmeans.binding_eq_some.mpr ⟨hone, rfl⟩)).2
  · rintro ⟨⟨⟨permission, hparse, hroots⟩, hplace, hparam, hfield⟩, hmeans⟩
    obtain rfl : permission = rule.permission :=
      Except.ok.inj (hparse.symm.trans hmeans.permission)
    refine ⟨hparse, ⟨hplace, hmeans.binding⟩, ?_, ?_⟩
    · intro b hb
      obtain ⟨hone, rfl⟩ := hmeans.binding_eq_some.mp hb
      exact ⟨hparam hone, hfield hone⟩
    · rw [hmeans.isSome_binding]
      exact hroots

theorem checkParams_eq_ok {expected : String} {rules : Rules} :
    checkParams path expected rules = .ok () ↔
      ∀ entry ∈ rules, ∀ b, entry.2.binding = some b → b.param = expected := by
  induction rules with
  | nil => simp [checkParams]
  | cons first rest ih =>
    obtain ⟨action, rule⟩ := first
    unfold checkParams
    rw [List.forall_mem_cons, ← ih]
    split
    next b hb =>
      split
      next hparam =>
        refine (and_iff_right fun b' hb' => ?_).symm
        obtain rfl : b = b' := Option.some.inj (hb.symm.trans hb')
        exact hparam
      next hparam => exact ⟨nofun, fun h => absurd (h.1 b hb) hparam⟩
    next hnone =>
      refine (and_iff_right fun b' hb' => ?_).symm
      rw [hnone] at hb'
      cases hb'

/-! ### Routes -/

/-- The checks of a route in their order, and the route that passes them. -/
theorem compile_eq_ok :
    compile decl catalog = .ok route ↔
      checkPath decl.path = .ok () ∧ catalog.get? decl.model = some route.model ∧
        route.model.bindingName ≠ callerRoot ∧
        compileRules decl.path route.model decl.rules [] = .ok route.rules ∧
        route.path = decl.path ∧
        ∀ expected, route.itemParam? = some expected →
          checkParams decl.path expected route.rules = .ok () := by
  constructor
  · intro h
    obtain ⟨⟨⟩, hpath, h⟩ := bind_eq_ok_iff.mp h
    split at h
    next m hmodel =>
      split at h
      · cases h
      next hlabel =>
        obtain ⟨rules, hrules, h⟩ := bind_eq_ok_iff.mp h
        dsimp only at h
        split at h
        next hnone =>
          cases h
          exact ⟨hpath, hmodel, hlabel, hrules, rfl, fun expected hsome => by
            rw [hnone] at hsome
            cases hsome⟩
        next expected hsome =>
          obtain ⟨⟨⟩, hparams, h⟩ := bind_eq_ok_iff.mp h
          cases h
          exact ⟨hpath, hmodel, hlabel, hrules, rfl, fun expected' hsome' => by
            rw [hsome] at hsome'
            cases hsome'
            exact hparams⟩
    · cases h
  · rintro ⟨hpath, hmodel, hlabel, hrules, hroute, hparams⟩
    obtain ⟨path, m, rules⟩ := route
    dsimp only at hmodel hlabel hrules hroute hparams
    subst hroute
    unfold compile
    rw [hpath, ok_bind]
    simp only [hmodel, if_neg hlabel, hrules]
    rw [ok_bind]
    split
    · rfl
    next expected hsome =>
      rw [hparams expected hsome]
      rfl

/-- Routes compile iff each does, no two have the same path, and none has one
    that was seen before. -/
theorem compileAll_eq_ok {seen : List String} {decls : List RouteDecl} {routes : List Route} :
    compileAll catalog seen decls = .ok routes ↔
      (decls.map RouteDecl.path).Nodup ∧ (∀ decl ∈ decls, decl.path ∉ seen) ∧
        List.Forall₂ (fun decl route => compile decl catalog = .ok route) decls routes := by
  induction decls generalizing seen routes with
  | nil => simp [compileAll, eq_comm]
  | cons decl rest ih =>
    simp only [compileAll]
    split
    next hseen =>
      constructor
      · intro h
        cases h
      · intro h
        exact absurd (by simpa using hseen) (h.2.1 decl List.mem_cons_self)
    next hseen =>
      have hfresh : decl.path ∉ seen := by simpa using hseen
      rw [List.map_cons, List.nodup_cons, List.forall_mem_cons]
      constructor
      · intro h
        obtain ⟨route, hroute, h⟩ := bind_eq_ok_iff.mp h
        obtain ⟨others, hothers, h⟩ := bind_eq_ok_iff.mp h
        cases h
        obtain ⟨hnodup, hnew, hrest⟩ := ih.mp hothers
        refine ⟨⟨?_, hnodup⟩, ⟨hfresh, ?_⟩, .cons hroute hrest⟩
        · intro hmem
          obtain ⟨other, hother, hsame⟩ := List.mem_map.mp hmem
          exact hnew other hother (hsame ▸ List.mem_cons_self)
        · exact fun other hother hmem => hnew other hother (List.mem_cons_of_mem _ hmem)
      · rintro ⟨⟨hnew, hnodup⟩, ⟨-, hothers⟩, hall⟩
        cases hall with
        | cons hroute hrest =>
          have hfree : ∀ other ∈ rest, other.path ∉ decl.path :: seen := by
            intro other hother hmem
            rcases List.mem_cons.mp hmem with hsame | hmem
            · exact hnew (List.mem_map.mpr ⟨other, hother, hsame⟩)
            · exact hothers other hother hmem
          rw [hroute, ok_bind, ih.mpr ⟨hnodup, hfree, hrest⟩]
          rfl

end Route

end RecordGate

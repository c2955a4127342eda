import RecordGate.CommandLine.Run
import RecordGate.Proofs.Layout
import RecordGate.Proofs.Listing
import RecordGate.Proofs.Mounting

/-! # The table of endpoints

  The endpoints that a configuration plans are the actions with a rule, no two
  of them answer the same requests, and the service answers them all.

  **Key idea.** What an endpoint looks like in the router (`shape_planned`)
  says which route it belongs to and whether it is about one record; with its
  method that is the whole endpoint. So the checks of single routes, and that
  no path occurs twice, are enough to mount all of them.

  - `plan_pairs`: the planned pairs of a route and an action, in order.
  - `compatible_planned`: two endpoints of the plan can be served together.
-/

namespace RecordGate

/-! ### Compiled routes together -/

/-- Routes that are compiled against a catalog, under different paths. -/
structure Route.Arranged (catalog : Catalog) (routes : List Route) : Prop where
  /-- The rules fit the models. -/
  compiled : ∀ route ∈ routes, route.Compiled catalog
  /-- The paths and the parameters are checked. -/
  laid : ∀ route ∈ routes, route.Laid
  /-- No path occurs twice. -/
  distinct : (routes.map Route.path).Nodup

theorem Route.compileAll_arranged {catalog : Catalog} {decls : List RouteDecl}
    {routes : List Route} (h : Route.compileAll catalog [] decls = .ok routes) :
    Route.Arranged catalog routes where
  compiled route hroute := by
    obtain ⟨decl, -, hcompile⟩ := Route.compileAll_mem h route hroute
    exact Route.compile_compiled hcompile
  laid route hroute := by
    obtain ⟨decl, -, hcompile⟩ := Route.compileAll_mem h route hroute
    exact Route.compile_laid hcompile
  distinct := Route.compileAll_nodup h

/-- The actions of a route that have a rule, in order. -/
def Route.actions (route : Route) : List Action :=
  Action.all.filter fun action => (route.rule? action).isSome

/-! ### Characters of paths -/

theorem Route.isSegmentChar_plain {c : Char} (h : Route.isSegmentChar c = true) :
    c ≠ ':' ∧ c ≠ '\x7b' := by
  constructor
  · rintro rfl
    revert h
    decide
  · rintro rfl
    revert h
    decide

variable {catalog : Catalog} {routes : List Route} {route : Route} {action : Action}

/-- The path of a route has no mark of a parameter in it. -/
theorem Route.Laid.plain (h : route.Laid) :
    ':' ∉ route.path.toList ∧ '\x7b' ∉ route.path.toList := by
  constructor
  · intro hmem
    rcases h.path _ hmem with hslash | hsegment
    · cases hslash
    · exact (Route.isSegmentChar_plain hsegment).1 rfl
  · intro hmem
    rcases h.path _ hmem with hslash | hsegment
    · cases hslash
    · exact (Route.isSegmentChar_plain hsegment).2 rfl

theorem Text.slash_not_mem_ident {s : String} (h : Text.isIdent s = true) : '/' ∉ s.toList :=
  (Text.isIdent_iff.mp h).not_mem (by decide)

/-! ### Planned endpoints -/

namespace Endpoint

variable {e e' : Endpoint}

/-- An action on one record is planned at the path of the route, with the
    parameter behind it by which its own rule loads the record; any other at
    the path of the route. -/
theorem path?_eq (hcompiled : route.Compiled catalog) (hlaid : route.Laid) {rule : Rule}
    (hrule : route.rule? action = some rule) :
    (action.targetsOne = true ∧ ∃ b, rule.binding = some b ∧
      path? route action = some (route.path ++ "/:" ++ b.param)) ∨
    (action.targetsOne = false ∧ path? route action = some route.path) := by
  have hfits := hcompiled.rules action rule hrule
  cases htargets : action.targetsOne with
  | true =>
    obtain ⟨b, hb⟩ := Option.isSome_iff_exists.mp (hfits.loads.trans htargets)
    refine .inl ⟨rfl, b, hb, ?_⟩
    unfold path? Route.itemPath?
    rw [if_pos htargets, hlaid.param action rule hrule b hb]
    simp [toString]
  | false =>
    refine .inr ⟨rfl, ?_⟩
    unfold path?
    rw [if_neg (by rw [htargets]; exact Bool.false_ne_true)]

/-- The endpoints of a route are its actions with a rule, in order: none is
    left out for want of a path. -/
theorem ofRoute_pairs (hcompiled : route.Compiled catalog) (hlaid : route.Laid) :
    (ofRoute route).map (fun e => (e.route, e.action)) =
      route.actions.map fun action => (route, action) := by
  have hpath : ∀ entry ∈ route.rules, ∃ path, path? route entry.1 = some path := by
    rintro ⟨action, rule⟩ hentry
    have hrule : route.rule? action = some rule := hlaid.ordered.get?_of_mem hentry
    rcases path?_eq hcompiled hlaid hrule with ⟨-, b, -, hpath⟩ | ⟨-, hpath⟩
    · exact ⟨_, hpath⟩
    · exact ⟨_, hpath⟩
  have hactions : route.actions = route.rules.map Prod.fst := hlaid.ordered.actions.symm
  unfold ofRoute
  rw [List.map_filterMap, hactions, List.map_map, ← List.filterMap_eq_map]
  apply List.filterMap_congr
  rintro ⟨action, rule⟩ hentry
  obtain ⟨path, hpath⟩ := hpath _ hentry
  dsimp only at hpath ⊢
  rw [hpath]
  rfl

/-- The plan is the actions with a rule, route by route. -/
theorem plan_pairs (h : Route.Arranged catalog routes) :
    (plan routes).map (fun e => (e.route, e.action)) =
      routes.flatMap fun route => route.actions.map fun action => (route, action) := by
  unfold plan
  rw [List.map_flatMap]
  apply List.flatMap_congr
  intro route hroute
  exact ofRoute_pairs (h.compiled route hroute) (h.laid route hroute)

/-- How a planned endpoint looks in the router. -/
theorem shape_planned (h : Route.Arranged catalog routes) (he : e ∈ plan routes) :
    Service.shape (Service.mountPath e.path) =
      (Text.splitOn '/' e.route.path.toList).map some ++
        if e.action.targetsOne then [none] else [] := by
  obtain ⟨hroute, -, hpath, rule, hrule⟩ := mem_plan he
  have hlaid := h.laid _ hroute
  obtain ⟨hcolon, hbrace⟩ := hlaid.plain
  rcases path?_eq (h.compiled _ hroute) hlaid hrule with ⟨htargets, b, hb, hitem⟩ | ⟨htargets, hall⟩
  · rw [hpath, Option.some.injEq] at hitem
    have hslash := Text.slash_not_mem_ident (hlaid.ident _ rule hrule b hb)
    rw [hitem, htargets, if_pos rfl]
    exact Service.shape_mountPath_item hcolon hbrace hslash
  · rw [hpath, Option.some.injEq] at hall
    rw [hall, htargets, if_neg Bool.false_ne_true, List.append_nil]
    exact Service.shape_mountPath hcolon hbrace

/-- A parameter stands for no segment of a route. -/
theorem map_some_ne_append {α : Type} (xs ys : List α) :
    xs.map some ≠ ys.map some ++ [none] := by
  intro hsame
  have hmem : none ∈ xs.map some := hsame ▸ List.mem_append_right _ (List.mem_singleton.mpr rfl)
  obtain ⟨x, -, hx⟩ := List.mem_map.mp hmem
  cases hx

/-- Planned endpoints that look alike belong to one route, and both are about
    one record or neither. -/
theorem eq_of_shape (h : Route.Arranged catalog routes) (he : e ∈ plan routes)
    (he' : e' ∈ plan routes)
    (hshape : Service.shape (Service.mountPath e.path) = Service.shape (Service.mountPath e'.path)) :
    e.route = e'.route ∧ e.action.targetsOne = e'.action.targetsOne := by
  rw [shape_planned h he, shape_planned h he'] at hshape
  have hroute : ∀ ps qs : List (Option (List Char)), ps = qs →
      (Text.splitOn '/' e.route.path.toList).map some ++ ps =
        (Text.splitOn '/' e'.route.path.toList).map some ++ qs → e.route = e'.route := by
    rintro ps _ rfl hsame
    have hsegments := List.append_cancel_right hsame
    have hpieces := List.map_injective_iff.mpr (Option.some_injective _) hsegments
    have hpath : e.route.path = e'.route.path := String.toList_inj.mp (Text.splitOn_inj hpieces)
    exact List.inj_on_of_nodup_map h.distinct (mem_plan he).1 (mem_plan he').1 hpath
  cases htargets : e.action.targetsOne with
  | true =>
    cases htargets' : e'.action.targetsOne with
    | true =>
      rw [htargets, htargets'] at hshape
      exact ⟨hroute _ _ rfl hshape, rfl⟩
    | false =>
      rw [htargets, htargets', if_pos rfl, if_neg Bool.false_ne_true, List.append_nil] at hshape
      exact absurd hshape.symm (map_some_ne_append _ _)
  | false =>
    cases htargets' : e'.action.targetsOne with
    | true =>
      rw [htargets, htargets', if_pos rfl, if_neg Bool.false_ne_true, List.append_nil] at hshape
      exact absurd hshape (map_some_ne_append _ _)
    | false =>
      rw [htargets, htargets'] at hshape
      exact ⟨hroute _ _ rfl hshape, rfl⟩

theorem action_ext : ∀ a b : Action, Method.ofAction a = Method.ofAction b →
    a.targetsOne = b.targetsOne → a = b := by
  intro a b
  cases a <;> cases b <;> decide

/-- The path and the method of a planned endpoint are those of its action on
    its route. -/
theorem ext_planned (he : e ∈ plan routes) (he' : e' ∈ plan routes) (hroute : e.route = e'.route)
    (haction : e.action = e'.action) : e = e' := by
  obtain ⟨-, hmethod, hpath, -⟩ := mem_plan he
  obtain ⟨-, hmethod', hpath', -⟩ := mem_plan he'
  obtain ⟨method, path, action, route⟩ := e
  obtain ⟨method', path', action', route'⟩ := e'
  dsimp only at *
  subst hroute haction hmethod hmethod'
  rw [hpath, Option.some.injEq] at hpath'
  rw [hpath']

/-- Planned endpoints that look alike and have the same method are the same. -/
theorem eq_of_shape_method (h : Route.Arranged catalog routes) (he : e ∈ plan routes)
    (he' : e' ∈ plan routes)
    (hshape : Service.shape (Service.mountPath e.path) = Service.shape (Service.mountPath e'.path))
    (hmethod : e.method = e'.method) : e = e' := by
  obtain ⟨hroute, htargets⟩ := eq_of_shape h he he' hshape
  rw [(mem_plan he).2.1, (mem_plan he').2.1] at hmethod
  exact ext_planned he he' hroute (action_ext _ _ hmethod htargets)

/-- No endpoint is planned twice. -/
theorem plan_nodup (h : Route.Arranged catalog routes) : (plan routes).Nodup := by
  have hpairs : ((plan routes).map fun e => (e.route, e.action)).Nodup := by
    rw [plan_pairs h, List.nodup_flatMap]
    constructor
    · intro route _
      have hactions : route.actions.Nodup := List.Nodup.filter _ (by decide)
      exact hactions.map fun a b hab => (Prod.mk.inj hab).2
    · have hpaths := List.pairwise_map.mp h.distinct
      refine hpaths.imp fun {r r'} hne => ?_
      intro pair hpair hpair'
      obtain ⟨a, -, rfl⟩ := List.mem_map.mp hpair
      obtain ⟨a', -, hsame⟩ := List.mem_map.mp hpair'
      cases hsame
      exact hne rfl
  exact hpairs.of_map

theorem path_eq (he : e ∈ plan routes) (he' : e' ∈ plan routes) (hroute : e.route = e'.route)
    (htargets : e.action.targetsOne = e'.action.targetsOne) : e.path = e'.path := by
  obtain ⟨-, -, hpath, -⟩ := mem_plan he
  obtain ⟨-, -, hpath', -⟩ := mem_plan he'
  unfold path? at hpath hpath'
  rw [hroute, htargets, hpath', Option.some.injEq] at hpath
  exact hpath.symm

/-- Two endpoints of the plan can be served together. -/
theorem compatible_planned (h : Route.Arranged catalog routes) :
    (plan routes).Pairwise Service.Compatible := by
  refine List.Pairwise.imp_of_mem (fun {e e'} he he' hne hshape => ?_) (plan_nodup h)
  obtain ⟨hroute, htargets⟩ := eq_of_shape h he he' hshape
  refine ⟨path_eq he he' hroute htargets, fun hmethod => ?_⟩
  exact hne (eq_of_shape_method h he he' hshape hmethod)

/-- No endpoint of the plan looks like the path that the service answers
    itself. -/
theorem shape_ne_health (h : Route.Arranged catalog routes) (he : e ∈ plan routes) :
    Service.shape Route.healthPath ≠ Service.shape (Service.mountPath e.path) := by
  have hhealth : Service.shape Route.healthPath =
      (Text.splitOn '/' Route.healthPath.toList).map some :=
    Service.shape_plain (by decide)
  rw [hhealth, shape_planned h he]
  cases e.action.targetsOne with
  | true => exact map_some_ne_append _ _
  | false =>
    rw [if_neg Bool.false_ne_true, List.append_nil]
    intro hsame
    have hpieces := List.map_injective_iff.mpr (Option.some_injective _) hsame
    have hpath := String.toList_inj.mp (Text.splitOn_inj hpieces)
    exact (h.laid _ (mem_plan he).1).reserved hpath.symm

/-- Every planned endpoint has a rule. -/
theorem rule?_planned (he : e ∈ plan routes) : (e.rule?).isSome = true := by
  obtain ⟨-, -, -, rule, hrule⟩ := mem_plan he
  unfold rule?
  rw [hrule]
  rfl

/-- So none is lost when they are generated. -/
theorem generate_eq_plan (routes : List Route) : generate routes = plan routes := by
  unfold generate
  rw [List.filter_eq_self]
  intro e he
  exact rule?_planned he

end Endpoint

/-! ### What is printed and what is served -/

namespace Service

variable {host : Host} {settings : Settings} {started : Started} {text : String} {cfg : Config}

theorem loadConfig_ok {fileText : String → Except String String} {path : String}
    (hfile : fileText path = .ok text) (hcfg : Config.ofText text = .ok cfg)
    (readFailed : String) : loadConfig readFailed fileText path = .ok cfg := by
  unfold loadConfig
  rw [hfile]
  show behind _ ((Config.ofText text).mapError Error.message) = _
  rw [hcfg]
  rfl

/-- A started service serves the configuration in its file. -/
theorem prepare_config (hfile : host.fileText settings.modelsPath = .ok text)
    (hcfg : Config.ofText text = .ok cfg) (h : prepare host settings = .ok started) :
    started.config = cfg := by
  unfold prepare at h
  rw [loadConfig_ok hfile hcfg] at h
  dsimp only at h
  split at h
  · cases h
  · cases h
    rfl

/-- What a command shows for the configuration in its file. -/
theorem run_config {command : CommandLine.Command} (hcommand : command.file? = some settings.modelsPath)
    (hfile : host.fileText settings.modelsPath = .ok text) (hcfg : Config.ofText text = .ok cfg) :
    CommandLine.run host.fileText command = ⟨0, CommandLine.shownFor command cfg, ""⟩ := by
  unfold CommandLine.run
  rw [hcommand]
  simp only [loadConfig_ok hfile hcfg]

end Service

/-- The table of endpoints of a configuration.

    - The plan is the actions with a rule, route by route and in order, and all
      of it is generated.
    - No two endpoints have the same method and path, and none has the path of
      the service.
    - Endpoints whose paths in the router differ in the names of parameters
      alone belong to the same route; so mounting them meets no fault, and each
      is at its path.
    - The path of an action on one record ends with the parameter by which its
      own rule loads the record.
    - What the command prints for a file are the endpoints that a service serves
      that is started with it: the table has a row for each of them and no other,
      and the JSON is read as the array of them, both in their order. -/
theorem endpoint_table {text : String} {cfg : Config} (h : Config.ofText text = .ok cfg) :
    (Endpoint.plan cfg.routes).map (fun e => (e.route, e.action)) =
      cfg.routes.flatMap (fun route =>
        (Action.all.filter fun action => (route.rule? action).isSome).map fun action =>
          (route, action)) ∧
    Endpoint.generate cfg.routes = Endpoint.plan cfg.routes ∧
    ((Endpoint.plan cfg.routes).map fun e => (e.method, e.path)).Nodup ∧
    (∀ e ∈ Endpoint.plan cfg.routes, e.path ≠ Route.healthPath) ∧
    (∀ e ∈ Endpoint.plan cfg.routes, ∀ e' ∈ Endpoint.plan cfg.routes,
      Service.shape (Service.mountPath e.path) = Service.shape (Service.mountPath e'.path) →
      e.route = e'.route) ∧
    (∃ table, Service.mount (Endpoint.generate cfg.routes) = .ok table ∧
      ∀ path e, (∃ m ∈ table, m.path = path ∧ e ∈ m.endpoints) ↔
        Service.mountPath e.path = path ∧ e ∈ Endpoint.plan cfg.routes) ∧
    (∀ e ∈ Endpoint.plan cfg.routes, e.action.targetsOne = true →
      ∃ rule b, e.rule? = some rule ∧ rule.binding = some b ∧
        e.path = e.route.path ++ "/:" ++ b.param) ∧
    (∀ (host : Service.Host) settings started, host.fileText settings.modelsPath = .ok text →
      Service.prepare host settings = .ok started →
      started.endpoints = Endpoint.plan cfg.routes ∧
      started.router = Service.mount (Endpoint.plan cfg.routes) ∧
      CommandLine.run host.fileText (.routes settings.modelsPath .table) =
        ⟨0, CommandLine.table started.endpoints, ""⟩ ∧
      CommandLine.TableOf started.endpoints (CommandLine.table started.endpoints) ∧
      CommandLine.run host.fileText (.routes settings.modelsPath .json) =
        ⟨0, CommandLine.jsonListing started.endpoints, ""⟩ ∧
      Json.ofText? (CommandLine.jsonListing started.endpoints) =
        some (Endpoint.listed started.endpoints)) := by
  obtain ⟨api, -, -, hroutes⟩ := Config.ofText_catalog h
  have harranged := Route.compileAll_arranged hroutes
  refine ⟨Endpoint.plan_pairs harranged, Endpoint.generate_eq_plan _, ?_, ?_, ?_, ?_, ?_, ?_⟩
  · apply List.Nodup.map_on _ (Endpoint.plan_nodup harranged)
    intro e he e' he' hsame
    obtain ⟨hmethod, hpath⟩ := Prod.mk.inj hsame
    have hshape : Service.shape (Service.mountPath e.path) =
        Service.shape (Service.mountPath e'.path) := by
      rw [hpath]
    exact Endpoint.eq_of_shape_method harranged he he' hshape hmethod
  · intro e he hpath
    apply Endpoint.shape_ne_health harranged he
    rw [hpath, Service.mountPath_plain (by decide)]
  · intro e he e' he' hshape
    exact (Endpoint.eq_of_shape harranged he he' hshape).1
  · rw [Endpoint.generate_eq_plan]
    exact Service.mount_ok (Endpoint.compatible_planned harranged)
      fun e he => Endpoint.shape_ne_health harranged he
  · intro e he htargets
    obtain ⟨hroute, -, hpath, rule, hrule⟩ := Endpoint.mem_plan he
    rcases Endpoint.path?_eq (harranged.compiled _ hroute) (harranged.laid _ hroute) hrule with
      ⟨-, b, hb, hitem⟩ | ⟨hnot, -⟩
    · rw [hpath, Option.some.injEq] at hitem
      exact ⟨rule, b, hrule, hb, hitem⟩
    · rw [htargets] at hnot
      cases hnot
  · intro host settings started hfile hstarted
    have hendpoints : started.endpoints = Endpoint.plan cfg.routes := by
      unfold Service.Started.endpoints
      rw [Service.prepare_config hfile h hstarted, Endpoint.generate_eq_plan]
    have hrouter : started.router = Service.mount (Endpoint.plan cfg.routes) := by
      unfold Service.Started.router
      rw [hendpoints]
    have hrules : ∀ e ∈ Endpoint.plan cfg.routes, (e.rule?).isSome = true :=
      fun e he => Endpoint.rule?_planned he
    rw [hendpoints]
    exact ⟨rfl, hrouter, Service.run_config rfl hfile h, CommandLine.tableOf_table hrules,
      Service.run_config rfl hfile h, CommandLine.ofText?_jsonListing hrules⟩

/-- The table of the notes has a path for all notes and one for each of them,
    and both are mounted. -/
theorem notes_table :
    ∃ cfg, Config.ofText Config.notes = .ok cfg ∧
      (Endpoint.plan cfg.routes).map (fun e => (e.method, e.path)) =
        [(.post, "/n"), (.put, "/n/:_id")] ∧
      [(Method.post, "/n"), (.put, "/n/:_id")].Nodup ∧
      ∃ table, Service.mount (Endpoint.generate cfg.routes) = .ok table ∧
        ∀ path e, (∃ m ∈ table, m.path = path ∧ e ∈ m.endpoints) ↔
          Service.mountPath e.path = path ∧ e ∈ Endpoint.plan cfg.routes := by
  have htest : okAnd (Config.ofDecl Config.notesDecl) (fun cfg =>
      decide ((Endpoint.plan cfg.routes).map (fun e => (e.method, e.path)) =
        [(.post, "/n"), (.put, "/n/:_id")])) = true := by decide +kernel
  obtain ⟨cfg, hdecl, hplan⟩ := okAnd_iff.mp htest
  have hcfg : Config.ofText Config.notes = .ok cfg := Config.ofText_notes.trans hdecl
  have htable := endpoint_table hcfg
  have hkeys := of_decide_eq_true hplan
  refine ⟨cfg, hcfg, hkeys, ?_, htable.2.2.2.2.2.1⟩
  rw [← hkeys]
  exact htable.2.2.1

end RecordGate

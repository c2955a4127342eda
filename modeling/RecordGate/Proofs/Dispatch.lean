import RecordGate.Proofs.EndpointTable
import RecordGate.Proofs.Routing
import RecordGate.Service.Http

/-! # Which action answers a request

  A request for a method at a path is answered by one action of one route, or
  by none.

  **Key idea.** What fits a path is known route by route (`fits_planned`): the
  endpoints of a whole collection fit its own path, those of one record fit it
  with one segment behind, which their parameter takes. A path has one last
  segment, so at most two routes are concerned, and the collection is preferred
  (`reached_planned`).

  - `answer_of_reached`, `answer_of_unreached`: what is answered, by what is
    reached.
  - `dispatch_settled` says which action answers, with which parameters, and
    that a request for which there is no rule runs nothing.
-/

namespace RecordGate.Service

variable {es : List Endpoint} {e : Endpoint} {path last : List Char}
  {params : Keyed (List Char)} {table : List Mounted}

/-! ### The endpoints of a plan -/

/-- A route has a rule for an action on the whole collection, or for one on one
    record. -/
def Offers (route : Route) (one : Bool) : Prop :=
  ∃ action, action.targetsOne = one ∧ (route.rule? action).isSome = true

/-- The last segment of a path, which is not empty, and what is before it. -/
structure EndsIn (path parent last : List Char) : Prop where
  /-- The last slash is between them. -/
  split : path = parent ++ '/' :: last
  /-- There is none behind it. -/
  slash : '/' ∉ last
  /-- There is something behind it. -/
  filled : last ≠ []

section plan
variable {catalog : Catalog} {routes : List Route} {parent : List Char}

/-- An endpoint about one record has the parameter of its route behind the path
    of the route; any other has that path. -/
theorem path_planned (h : Route.Arranged catalog routes) (he : e ∈ Endpoint.plan routes) :
    (e.action.targetsOne = false ∧ e.path = e.route.path) ∨
    (e.action.targetsOne = true ∧ ∃ param, e.route.itemParam? = some param ∧
      '/' ∉ param.toList ∧ e.path = e.route.path ++ "/:" ++ param) := by
  obtain ⟨hroute, -, hpath, rule, hrule⟩ := Endpoint.mem_plan he
  have hlaid := h.laid _ hroute
  rcases Endpoint.path?_eq (h.compiled _ hroute) hlaid hrule with
    ⟨htargets, b, hb, hitem⟩ | ⟨htargets, hall⟩
  · rw [hpath, Option.some.injEq] at hitem
    have hslash := Text.slash_not_mem_ident (hlaid.ident _ rule hrule b hb)
    exact .inr ⟨htargets, b.param, hlaid.param _ rule hrule b hb, hslash, hitem⟩
  · rw [hpath, Option.some.injEq] at hall
    exact .inl ⟨htargets, hall⟩

/-- A planned endpoint about a collection fits the path of its route. One about
    a record fits that path with one more segment, which its parameter takes. -/
theorem fits_planned (h : Route.Arranged catalog routes) (he : e ∈ Endpoint.plan routes)
    (hends : EndsIn path parent last) :
    Fits e path params ↔
      (e.action.targetsOne = false ∧ e.route.path.toList = path ∧ params = []) ∨
      (e.action.targetsOne = true ∧ e.route.path.toList = parent ∧
        ∃ param, e.route.itemParam? = some param ∧ params = [(param, last)]) := by
  obtain ⟨rfl, hslash, hlast⟩ := hends
  obtain ⟨hcolon, -⟩ := (h.laid _ (Endpoint.mem_plan he).1).plain
  unfold Fits
  rcases path_planned h he with ⟨htargets, hpath⟩ | ⟨htargets, param, hparam, hname, hpath⟩
  · have hsame : Text.splitOn '/' e.route.path.toList = Text.splitOn '/' (parent ++ '/' :: last) ↔
        e.route.path.toList = parent ++ '/' :: last := ⟨Text.splitOn_inj, congrArg _⟩
    rw [hpath, segments_plain hcolon, matchPath_fixed, hsame]
    simp [htargets]
  · have hsame : Text.splitOn '/' e.route.path.toList = Text.splitOn '/' parent ↔
        e.route.path.toList = parent := ⟨Text.splitOn_inj, congrArg _⟩
    rw [hpath, segments_item hcolon hname, Text.splitOn_append, Text.splitOn_of_not_mem hslash,
      matchPath_item hlast, hsame]
    simp [htargets, hparam]

/-- A request for a path with a last segment gets to one route at most, and
    there either to the collection or to one record. -/
theorem determined_planned (h : Route.Arranged catalog routes) (hends : EndsIn path parent last) :
    Determined (Endpoint.plan routes) path := by
  intro e params e' params' hreached hreached'
  have hfits := (fits_planned h hreached.mem hends).mp hreached.fits
  have hfits' := (fits_planned h hreached'.mem hends).mp hreached'.fits
  obtain ⟨hroute, hmethod, -, -⟩ := Endpoint.mem_plan hreached.mem
  obtain ⟨hroute', hmethod', -, -⟩ := Endpoint.mem_plan hreached'.mem
  -- a collection is preferred to a record
  have hkind : e.action.targetsOne = e'.action.targetsOne := by
    rcases hfits with ⟨hone, hat, hparams⟩ | ⟨hone, hat, _, -, hparams⟩ <;>
      rcases hfits' with ⟨hone', hat', hparams'⟩ | ⟨hone', hat', _, -, hparams'⟩
    · rw [hone, hone']
    · rcases hreached'.prefers with hempty | hno
      · rw [hparams'] at hempty
        cases hempty
      · exact absurd (hparams ▸ hreached.fits) (hno e hreached.mem)
    · rcases hreached.prefers with hempty | hno
      · rw [hparams] at hempty
        cases hempty
      · exact absurd (hparams' ▸ hreached'.fits) (hno e' hreached'.mem)
    · rw [hone, hone']
  have hat : e.route.path.toList = e'.route.path.toList := by
    rcases hfits with ⟨hone, hat, -⟩ | ⟨hone, hat, -⟩ <;>
      rcases hfits' with ⟨hone', hat', -⟩ | ⟨hone', hat', -⟩
    · rw [hat, hat']
    · simp [hone, hone'] at hkind
    · simp [hone, hone'] at hkind
    · rw [hat, hat']
  have hsame : e.route = e'.route :=
    List.inj_on_of_nodup_map h.distinct hroute hroute' (String.toList_inj.mp hat)
  refine ⟨Endpoint.path_eq hreached.mem hreached'.mem hsame hkind, fun heq => ?_⟩
  rw [hmethod, hmethod'] at heq
  exact Endpoint.ext_planned hreached.mem hreached'.mem hsame (Endpoint.action_ext _ _ heq hkind)

/-- The router that is mounted for a plan is one for its endpoints. -/
theorem routerFor_planned (h : Route.Arranged catalog routes)
    (hmount : mount (Endpoint.plan routes) = .ok table) :
    RouterFor table (Endpoint.plan routes) := by
  obtain ⟨table', hmount', hserves⟩ := mount_ok (Endpoint.compatible_planned h)
    fun e he => Endpoint.shape_ne_health h he
  have hsame : table = table' := Except.ok.inj (hmount.symm.trans hmount')
  constructor
  case tidy => exact mount_tidy hmount
  case serves =>
    rw [hsame]
    exact hserves
  case cut =>
    intro e he
    obtain ⟨hcolon, hbrace⟩ := (h.laid _ (Endpoint.mem_plan he).1).plain
    rcases path_planned h he with ⟨-, hpath⟩ | ⟨-, param, -, hname, hpath⟩
    · rw [hpath, mountPath_plain hcolon, mountedSegments_plain hbrace, segments_plain hcolon]
    · rw [hpath, mountedSegments_item hcolon hbrace hname, segments_item hcolon hname]

/-- An action of a route with a rule has its endpoint in the plan. -/
theorem exists_planned (h : Route.Arranged catalog routes) {route : Route} {action : Action}
    (hroute : route ∈ routes) (hrule : (route.rule? action).isSome = true) :
    ∃ e ∈ Endpoint.plan routes, e.route = route ∧ e.action = action := by
  have haction : action ∈ route.actions := by
    refine List.mem_filter.mpr ⟨?_, hrule⟩
    cases action <;> decide
  have hpair : (route, action) ∈ (Endpoint.plan routes).map fun e => (e.route, e.action) := by
    rw [Endpoint.plan_pairs h]
    exact List.mem_flatMap.mpr ⟨route, hroute, List.mem_map_of_mem haction⟩
  obtain ⟨e, he, hsame⟩ := List.mem_map.mp hpair
  obtain ⟨rfl, rfl⟩ := Prod.mk.inj hsame
  exact ⟨e, he, rfl, rfl⟩

/-- A route offers what the plan has for it. -/
theorem offers_planned (he : e ∈ Endpoint.plan routes) : Offers e.route e.action.targetsOne := by
  obtain ⟨-, -, -, rule, hrule⟩ := Endpoint.mem_plan he
  exact ⟨e.action, rfl, by rw [hrule]; rfl⟩

/-- A path is that of one route only. -/
theorem route_eq_of_path (h : Route.Arranged catalog routes) (he : e ∈ Endpoint.plan routes)
    {route : Route} (hroute : route ∈ routes)
    (hat : e.route.path.toList = route.path.toList) : e.route = route :=
  List.inj_on_of_nodup_map h.distinct (Endpoint.mem_plan he).1 hroute (String.toList_inj.mp hat)

/-- A route with a rule about one record has a parameter for it. -/
theorem itemParam?_of_offers (h : Route.Arranged catalog routes) {route : Route}
    (hroute : route ∈ routes) (hoffers : Offers route true) :
    ∃ param, route.itemParam? = some param := by
  obtain ⟨action, htargets, hrule⟩ := hoffers
  obtain ⟨e, he, rfl, rfl⟩ := exists_planned h hroute hrule
  rcases path_planned h he with ⟨hnot, -⟩ | ⟨-, param, hparam, -⟩
  · simp [htargets] at hnot
  · exact ⟨param, hparam⟩

/-- What a request gets to: what is about the collection at its path, and if
    there is no such thing, what is about one record behind the path without
    its last segment. -/
theorem reached_planned (h : Route.Arranged catalog routes) (hends : EndsIn path parent last) :
    Reached (Endpoint.plan routes) path e params ↔
      e ∈ Endpoint.plan routes ∧
      ((e.action.targetsOne = false ∧ e.route.path.toList = path ∧ params = []) ∨
        ((e.action.targetsOne = true ∧ e.route.path.toList = parent ∧
          ∃ param, e.route.itemParam? = some param ∧ params = [(param, last)]) ∧
        ∀ route ∈ routes, route.path.toList = path → ¬ Offers route false)) := by
  constructor
  · intro hreached
    refine ⟨hreached.mem, ?_⟩
    rcases (fits_planned h hreached.mem hends).mp hreached.fits with hall | hitem
    · exact .inl hall
    · refine .inr ⟨hitem, ?_⟩
      rintro route hroute hat ⟨action, htargets, hrule⟩
      obtain ⟨other, hother, rfl, rfl⟩ := exists_planned h hroute hrule
      obtain ⟨-, -, param, -, hparams⟩ := hitem
      rcases hreached.prefers with hempty | hno
      · simp [hparams] at hempty
      · exact hno other hother ((fits_planned h hother hends).mpr (.inl ⟨htargets, hat, rfl⟩))
  · rintro ⟨he, hall | ⟨hitem, hno⟩⟩
    · exact ⟨he, (fits_planned h he hends).mpr (.inl hall), .inl hall.2.2⟩
    · refine ⟨he, (fits_planned h he hends).mpr (.inr hitem), .inr ?_⟩
      intro other hother hfits
      rcases (fits_planned h hother hends).mp hfits with ⟨htargets, hat, -⟩ | ⟨-, -, _, -, hempty⟩
      · exact hno _ (Endpoint.mem_plan hother).1 hat (htargets ▸ offers_planned hother)
      · cases hempty

end plan

/-! ### What is answered -/

/-- The action that a method asks for, about a whole collection or about one
    record. -/
def actionFor? : (one : Bool) → Method → Option Action
  | false, .post => some .create
  | false, .get => some .list
  | true, .get => some .read
  | true, .put => some .update
  | true, .delete => some .delete
  | false, .put | false, .delete | true, .post => none

theorem actionFor?_eq_some {one : Bool} {m : Method} {action : Action} :
    actionFor? one m = some action ↔ action.targetsOne = one ∧ Method.ofAction action = m := by
  cases one <;> cases m <;> cases action <;> decide

section answers
variable {σ : Type} (driver : Storage.Driver σ) (gate : Gate)

/-- What an action of a route answers to a request. -/
def handled (route : Route) (action : Action) (params : Keyed String) (req : HttpRequest)
    (w : World σ) : HttpResponse × World σ :=
  let flow : Flow Response := do
    let now ← Flow.readClock
    let body ← Flow.ofExcept (bodyOf action req)
    Engine.execute route action ⟨params, body, callerOf gate now req⟩
  let (result, w) := flow.run driver w
  (.ofResult req.requestId result, w)

/-- What is answered once a route is found: the action that the method asks for
    answers if it has a rule, and otherwise there is no such route. -/
def settled (route : Route) (one : Bool) (m : Method) (params : Keyed String)
    (req : HttpRequest) (w : World σ) : HttpResponse × World σ :=
  match actionFor? one m with
  | some action =>
    if (route.rule? action).isSome then handled driver gate route action params req w
    else (.noRoute req.requestId, w)
  | none => (.noRoute req.requestId, w)

variable {driver gate} {req : HttpRequest} {m : Method} {w : World σ}

theorem answer_eq_answerAt (hmethod : req.method = m.name) :
    answer driver gate es req w = answerAt driver gate es m.name req w := by
  have hoptions : ∀ m : Method, m.name ≠ "OPTIONS" := by
    intro m
    cases m <;> decide
  have hhead : ∀ m : Method, m.name ≠ "HEAD" := by
    intro m
    cases m <;> decide
  unfold answer
  rw [hmethod, if_neg (hoptions m), if_neg (hhead m)]

/-- The endpoint that is reached answers. -/
theorem answer_of_reached (hone : Determined es (pathOf req.uri)) (hmethod : req.method = m.name)
    (hhealth : pathOf req.uri ≠ Route.healthPath.toList)
    (hreached : Reached es (pathOf req.uri) e params) (hm : e.method = m) {values : Keyed String}
    (hvalues : (if e.action.targetsOne then paramValues params else .ok []) = .ok values) :
    answer driver gate es req w = handled driver gate e.route e.action values req w := by
  have hfound := (find_endpointsAt m.name hone).mpr ⟨hreached, congrArg Method.name hm⟩
  rw [answer_eq_answerAt hmethod]
  unfold answerAt
  rw [if_neg hhealth, hfound]
  dsimp only
  rw [hvalues]
  rfl

/-- Where no endpoint of the method is reached, nothing is run. -/
theorem answer_of_unreached (hone : Determined es (pathOf req.uri)) (hmethod : req.method = m.name)
    (hhealth : pathOf req.uri ≠ Route.healthPath.toList)
    (hno : ∀ e params, Reached es (pathOf req.uri) e params → e.method ≠ m) :
    answer driver gate es req w = (.noRoute req.requestId, w) := by
  rw [answer_eq_answerAt hmethod]
  unfold answerAt
  rw [if_neg hhealth, find_endpointsAt_eq_none hone hno]

/-- If a request gets to the actions of one kind of a route and to nothing else,
    the answer is settled there. -/
theorem answer_eq_settled {catalog : Catalog} {routes : List Route}
    (h : Route.Arranged catalog routes) (hone : Determined (Endpoint.plan routes) (pathOf req.uri))
    (hmethod : req.method = m.name) (hhealth : pathOf req.uri ≠ Route.healthPath.toList)
    {route : Route} {one : Bool} (params : Keyed (List Char)) {values : Keyed String}
    (hroute : route ∈ routes)
    (hreached : ∀ e ∈ Endpoint.plan routes, e.route = route → e.action.targetsOne = one →
      Reached (Endpoint.plan routes) (pathOf req.uri) e params)
    (honly : ∀ e params, Reached (Endpoint.plan routes) (pathOf req.uri) e params →
      e.route = route ∧ e.action.targetsOne = one)
    (hvalues : (if one then paramValues params else .ok []) = .ok values) :
    answer driver gate (Endpoint.plan routes) req w =
      settled driver gate route one m values req w := by
  -- an endpoint of the method that is reached is for the action asked for
  have hasked : ∀ e params, Reached (Endpoint.plan routes) (pathOf req.uri) e params →
      e.method = m → actionFor? one m = some e.action ∧ (route.rule? e.action).isSome = true := by
    intro e params hreached hm
    obtain ⟨hsame, htargets⟩ := honly e params hreached
    obtain ⟨-, hof, -, rule, hrule⟩ := Endpoint.mem_plan hreached.mem
    refine ⟨actionFor?_eq_some.mpr ⟨htargets, hof.symm.trans hm⟩, ?_⟩
    rw [← hsame, hrule]
    rfl
  unfold settled
  cases haction : actionFor? one m with
  | none =>
    refine answer_of_unreached hone hmethod hhealth fun e params hreached hm => ?_
    have hsome := (hasked e params hreached hm).1
    rw [haction] at hsome
    cases hsome
  | some action =>
    dsimp only
    by_cases hrule : (route.rule? action).isSome = true
    · obtain ⟨htargets, hof⟩ := actionFor?_eq_some.mp haction
      obtain ⟨e, he, rfl, rfl⟩ := exists_planned h hroute hrule
      have hm : e.method = m := (Endpoint.mem_plan he).2.1.trans hof
      rw [if_pos hrule]
      exact answer_of_reached hone hmethod hhealth (hreached e he rfl htargets) hm
        (by rw [htargets]; exact hvalues)
    · rw [if_neg hrule]
      refine answer_of_unreached hone hmethod hhealth fun e params hreached hm => ?_
      obtain ⟨hsome, hhas⟩ := hasked e params hreached hm
      rw [haction] at hsome
      cases hsome
      exact hrule hhas

end answers

/-- A request for a method at a path other than that of the service, with a last
    segment that is not empty and has no escape in it.

    - If the path is that of a route with a rule about its collection, the action
      that the method asks for there answers, if it has a rule.
    - Else, if the path without its last segment is that of a route with a rule
      about one record, the action on it answers in the same way. The parameter
      of the route has the last segment for its value, and is the only one.
    - Where there is no such rule the answer is 404 with the code `NOT_FOUND`, and
      nothing was run.
    - The mounted router finds the same endpoint with the same parameters. -/
theorem dispatch_settled {text : String} {cfg : Config} (h : Config.ofText text = .ok cfg)
    {σ : Type} (driver : Storage.Driver σ) (gate : Gate) {req : HttpRequest} {m : Method}
    (hmethod : req.method = m.name) {parent last : List Char}
    (hends : EndsIn (pathOf req.uri) parent last) (hpercent : '%' ∉ last)
    (hhealth : pathOf req.uri ≠ Route.healthPath.toList) (w : World σ) :
    let run := answer driver gate (Endpoint.generate cfg.routes) req w
    (∀ route ∈ cfg.routes, route.path.toList = pathOf req.uri → Offers route false →
      run = settled driver gate route false m [] req w) ∧
    ((∀ route ∈ cfg.routes, route.path.toList = pathOf req.uri → ¬ Offers route false) →
      (∀ route ∈ cfg.routes, route.path.toList = parent → Offers route true →
        ∃ param, route.itemParam? = some param ∧
          run = settled driver gate route true m [(param, String.ofList last)] req w) ∧
      ((∀ route ∈ cfg.routes, route.path.toList = parent → ¬ Offers route true) →
        run = (.noRoute req.requestId, w))) ∧
    (HttpResponse.noRoute req.requestId).IsError 404 "NOT_FOUND" ∧
    ∃ table, mount (Endpoint.generate cfg.routes) = .ok table ∧
      routed table req.method (pathOf req.uri) =
        (endpointsAt (Endpoint.generate cfg.routes) (pathOf req.uri)).find?
          fun (e, _) => e.method.name = req.method := by
  obtain ⟨api, -, -, hroutes⟩ := Config.ofText_catalog h
  have harranged := Route.compileAll_arranged hroutes
  rw [Endpoint.generate_eq_plan]
  intro run
  have hone := determined_planned harranged hends
  refine ⟨?_, ?_, HttpResponse.noRoute_isError req.requestId, ?_⟩
  · intro route hroute hat hhas
    refine answer_eq_settled harranged hone hmethod hhealth [] hroute ?_ ?_ rfl
    · intro e he hsame hkind
      exact (reached_planned harranged hends).mpr ⟨he, .inl ⟨hkind, by rw [hsame, hat], rfl⟩⟩
    · intro e params hreached
      obtain ⟨he, ⟨hkind, hpath, -⟩ | ⟨-, hno⟩⟩ := (reached_planned harranged hends).mp hreached
      · exact ⟨route_eq_of_path harranged he hroute (hpath.trans hat.symm), hkind⟩
      · exact absurd hhas (hno route hroute hat)
  · intro hno
    -- nothing is about a collection
    have hitem : ∀ e params, Reached (Endpoint.plan cfg.routes) (pathOf req.uri) e params →
        e ∈ Endpoint.plan cfg.routes ∧ e.action.targetsOne = true ∧
          e.route.path.toList = parent := by
      intro e params hreached
      obtain ⟨he, ⟨hkind, hpath, -⟩ | ⟨⟨hkind, hpath, -⟩, -⟩⟩ :=
        (reached_planned harranged hends).mp hreached
      · exact absurd (hkind ▸ offers_planned he) (hno _ (Endpoint.mem_plan he).1 hpath)
      · exact ⟨he, hkind, hpath⟩
    constructor
    · intro route hroute hat hhas
      obtain ⟨param, hparam⟩ := itemParam?_of_offers harranged hroute hhas
      have hvalues : paramValues [(param, last)] = .ok [(param, String.ofList last)] := by
        simp [paramValues, paramValue?_plain hpercent]
      refine ⟨param, hparam, ?_⟩
      refine answer_eq_settled harranged hone hmethod hhealth [(param, last)] hroute ?_ ?_ hvalues
      · intro e he hsame hkind
        have hpath : e.route.path.toList = parent := by rw [hsame, hat]
        have hnamed : e.route.itemParam? = some param := by rw [hsame, hparam]
        exact (reached_planned harranged hends).mpr
          ⟨he, .inr ⟨⟨hkind, hpath, param, hnamed, rfl⟩, hno⟩⟩
      · intro e params hreached
        obtain ⟨he, hkind, hpath⟩ := hitem e params hreached
        exact ⟨route_eq_of_path harranged he hroute (hpath.trans hat.symm), hkind⟩
    · intro hnone
      refine answer_of_unreached hone hmethod hhealth fun e params hreached => ?_
      obtain ⟨he, hkind, hpath⟩ := hitem e params hreached
      exact absurd (hkind ▸ offers_planned he) (hnone _ (Endpoint.mem_plan he).1 hpath)
  · obtain ⟨table, hmount, -⟩ := mount_ok (Endpoint.compatible_planned harranged)
      fun e he => Endpoint.shape_ne_health harranged he
    refine ⟨table, hmount, ?_⟩
    apply Option.ext
    rintro ⟨e, params⟩
    rw [routed_eq_some (routerFor_planned harranged hmount) hone, find_endpointsAt _ hone]

/-- A request for a note. -/
def noteRequest (method : String) : HttpRequest := ⟨method, "/n/a?at=noon", [], [], "1"⟩

/-- Opens no token. -/
def shutGate : Gate := ⟨fun _ _ => none, []⟩

/-- Notes are updated one by one, and read by nobody. -/
theorem note_addressed :
    ∃ cfg route, Config.ofText Config.notes = .ok cfg ∧ cfg.routes = [route] ∧
      EndsIn (pathOf (noteRequest "PUT").uri) "/n".toList "a".toList ∧
      let w : World Storage.Memory := ⟨Supply.still, Storage.Memory.empty⟩
      let answerTo (method : String) := answer Storage.Memory.driver shutGate
        (Endpoint.generate cfg.routes) (noteRequest method) w
      answerTo "PUT" = handled Storage.Memory.driver shutGate route .update [("_id", "a")]
        (noteRequest "PUT") w ∧
      answerTo "GET" = (.noRoute "1", w) := by
  have htest : okAnd (Config.ofDecl Config.notesDecl) (fun cfg => cfg.onlyAnd fun _ route =>
      decide (route.path = "/n") && decide (route.itemParam? = some "_id") &&
      (route.rule? .update).isSome && (route.rule? .read).isNone) = true := by decide +kernel
  obtain ⟨cfg, hdecl, htest⟩ := okAnd_iff.mp htest
  have hcfg : Config.ofText Config.notes = .ok cfg := Config.ofText_notes.trans hdecl
  obtain ⟨-, route, -, hroutes, htest⟩ := Config.onlyAnd_iff.mp htest
  simp only [Bool.and_eq_true, decide_eq_true_eq] at htest
  obtain ⟨⟨⟨hpath, hparam⟩, hupdate⟩, hread⟩ := htest
  have hends : EndsIn (pathOf (noteRequest "PUT").uri) "/n".toList "a".toList :=
    ⟨by decide +kernel, by decide +kernel, by decide +kernel⟩
  refine ⟨cfg, route, hcfg, hroutes, hends, ?_⟩
  intro w answerTo
  have hroute : route ∈ cfg.routes := hroutes ▸ List.mem_singleton.mpr rfl
  have hno : ∀ r ∈ cfg.routes, r.path.toList = pathOf (noteRequest "PUT").uri →
      ¬ Offers r false := by
    intro r hr hat
    rw [hroutes, List.mem_singleton] at hr
    rw [hr, hpath] at hat
    exact absurd hat (by decide +kernel)
  have hhealth : pathOf (noteRequest "PUT").uri ≠ Route.healthPath.toList := by decide +kernel
  have hsettled : ∀ m : Method, answerTo m.name =
      settled Storage.Memory.driver shutGate route true m [("_id", "a")]
        (noteRequest m.name) w := by
    intro m
    have hsame : pathOf (noteRequest m.name).uri = pathOf (noteRequest "PUT").uri := rfl
    rw [← hsame] at hends hno hhealth
    have hmethod : (noteRequest m.name).method = m.name := rfl
    obtain ⟨-, hitems, -⟩ := dispatch_settled hcfg Storage.Memory.driver shutGate hmethod hends
      (by decide) hhealth w
    obtain ⟨param, hparam', hrun⟩ :=
      (hitems hno).1 route hroute (by rw [hpath]) ⟨.update, rfl, hupdate⟩
    rw [hparam] at hparam'
    cases hparam'
    exact hrun
  constructor
  · have hput := hsettled .put
    simp only [settled, actionFor?] at hput
    rw [if_pos hupdate] at hput
    exact hput
  · have hget := hsettled .get
    simp only [settled, actionFor?] at hget
    rw [Option.isNone_iff_eq_none.mp hread] at hget
    exact hget

end RecordGate.Service

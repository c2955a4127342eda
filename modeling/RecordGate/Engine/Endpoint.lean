import RecordGate.Json.Record
import RecordGate.Permission.Route

/-! # Endpoints

  Every rule of every route is one endpoint: a method and a path. Routes keep
  their order, and the actions of a route come in theirs. Lists show what is
  planned, and the service answers what is generated from the plan.
-/

namespace RecordGate

/-- An endpoint. -/
structure Endpoint where
  /-- The method. -/
  method : Method
  /-- The path, with a parameter written `:name`. -/
  path : String
  /-- The action. -/
  action : Action
  /-- The route that it belongs to. -/
  route : Route

namespace Endpoint

/-- The path of an action of a route; none for an action on one record where
    no rule names a path parameter. -/
def path? (route : Route) (action : Action) : Option String :=
  if action.targetsOne then route.itemPath? else some route.path

/-- The endpoints of a route. -/
def ofRoute (route : Route) : List Endpoint :=
  route.rules.filterMap fun (action, _) =>
    (path? route action).map fun path => ⟨Method.ofAction action, path, action, route⟩

/-- The endpoints of a list of routes. -/
def plan (routes : List Route) : List Endpoint :=
  routes.flatMap ofRoute

/-- The rule of an endpoint. -/
def rule? (e : Endpoint) : Option Rule :=
  e.route.rule? e.action

/-- The planned endpoints that can be handled: those with a rule. -/
def generate (routes : List Route) : List Endpoint :=
  (plan routes).filter fun e => e.rule?.isSome

/-- The permission in its written form. -/
def allow (e : Endpoint) : String :=
  match e.rule? with
  | some rule => rule.permission.render
  | none => ""

/-- The field by which the record is loaded. -/
def whereField? (e : Endpoint) : Option String :=
  (e.rule?.bind Rule.binding).map Binding.field

/-- What lists of endpoints show, in the order in which they show it. -/
def summary (e : Endpoint) : List (String × String) :=
  [("method", e.method.name), ("path", e.path), ("op", e.action.code),
    ("model", e.route.model.name), ("allow", e.allow)] ++
  match e.whereField? with
  | some field => [("where", field)]
  | none => []

end Endpoint

end RecordGate

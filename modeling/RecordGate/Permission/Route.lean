import RecordGate.Permission.Expr
import RecordGate.Schema.Catalog

/-! # Routes

  A route mounts a model under a path and gives rules to some of the five
  actions; an action without a rule does not exist there. The rules of the
  actions on one record say which path parameter names which field of it.

  - `Route.compile` checks a declared route against the catalog.
-/

namespace RecordGate

/-- Which path parameter names which field of the record. -/
structure Binding where
  /-- The path parameter. -/
  param : String
  /-- The field. -/
  field : String
  deriving DecidableEq, Repr, Inhabited

/-- The binding of a rule that says nothing else. -/
def Binding.identifier : Binding := ⟨idField, idField⟩

/-- The rule of one action. -/
structure Rule where
  /-- The permission. -/
  permission : Expr
  /-- How the record is loaded; there for every action on one record. -/
  binding : Option Binding
  deriving DecidableEq, Repr, Inhabited

/-- Whether the permission mentions the caller. -/
def Rule.needsCaller (r : Rule) : Bool :=
  r.permission.references callerRoot

/-- The rules of a route, in the order of the actions. -/
abbrev Rules := List (Action × Rule)

/-- The rule of an action. -/
def Rules.get? : Rules → Action → Option Rule
  | [], _ => none
  | (a, r) :: rest, action => if a = action then some r else get? rest action

/-- Sets the rule of an action at its place in the order. -/
def Rules.put : Rules → Action → Rule → Rules
  | [], action, rule => [(action, rule)]
  | (a, r) :: rest, action, rule =>
    if a = action then (action, rule) :: rest
    else if action.position < a.position then (action, rule) :: (a, r) :: rest
    else (a, r) :: put rest action rule

/-- A model under a path. -/
structure Route where
  /-- The path of the whole collection. -/
  path : String
  /-- The model. -/
  model : Model
  /-- The rules. -/
  rules : Rules

namespace Route

/-- The rule of an action. -/
def rule? (r : Route) (action : Action) : Option Rule :=
  Rules.get? r.rules action

/-- The path parameter of the first rule that loads a record. -/
def itemParam? (r : Route) : Option String :=
  (r.rules.findSome? fun (_, rule) => rule.binding).map Binding.param

/-- The path of one record. -/
def itemPath? (r : Route) : Option String :=
  r.itemParam?.map fun param => s!"{r.path}/:{param}"

/-! ### Paths -/

/-- The path that the service answers itself. -/
def healthPath : String := "/health"

/-- A character of a path segment. -/
def isSegmentChar (c : Char) : Bool :=
  c.isAlphanum || c = '_' || c = '-'

/-- Checks the segments of a path from first to last. -/
def checkSegments (path : String) : List (List Char) → Except Error Unit
  | [] => .ok ()
  | segment :: rest =>
    if segment.isEmpty then
      .error (SchemaFault.badPath path "must not contain empty segments or a trailing '/'").error
    else if !segment.all isSegmentChar then
      .error (SchemaFault.badPath path
        "segments may only contain letters, digits, '_' and '-'").error
    else checkSegments path rest

/-- Checks the path of a route. -/
def checkPath (path : String) : Except Error Unit :=
  if path = healthPath then .error (SchemaFault.badPath path "is reserved").error
  else
    match path.toList with
    | '/' :: [] => .error (SchemaFault.badPath path "must not be the root path").error
    | '/' :: rest => checkSegments path (Text.splitOn '/' rest)
    | _ => .error (SchemaFault.badPath path "must start with '/'").error

/-! ### Rules -/

/-- The permission text of a declared rule, and how it loads a record. -/
def ruleEntries : RuleDecl → String × Option WhereDecl
  | .permission source => (source, none)
  | .full allow binding => (allow, binding)

/-- How an action loads a record. -/
def binding (path : String) (action : Action) :
    Option WhereDecl → Except Error (Option Binding)
  | some decl =>
    if action.targetsOne then
      match decl with
      | .field name => .ok (some ⟨name, name⟩)
      | .both param field => .ok (some ⟨param, field⟩)
    else .error (SchemaFault.whereUnused path action).error
  | none => .ok (if action.targetsOne then some Binding.identifier else none)

/-- Checks the parameter and the field of a binding. -/
def checkBinding (path : String) (m : Model) : Option Binding → Except Error Unit
  | none => .ok ()
  | some b =>
    if !Text.isIdent b.param then .error (SchemaFault.badParameter path b.param).error
    else if !m.declares b.field then .error (SchemaFault.whereField path b.field m.name).error
    else .ok ()

/-- Checks that every root of a permission has a value when it is evaluated:
    the caller's always, the record's where one is loaded. -/
def checkRoots (path source : String) (action : Action) (m : Model) (b : Option Binding) :
    List String → Except Error Unit
  | [] => .ok ()
  | root :: rest =>
    if root = callerRoot || (b.isSome && root = m.bindingName) then
      checkRoots path source action m b rest
    else
      .error (.invalidExpression source
        s!"'@{root}' is not available for '{action.code}' on route '{path}'")

/-- Checks a declared rule. -/
def compileRule (path : String) (action : Action) (decl : RuleDecl) (m : Model) :
    Except Error Rule := do
  let (source, whereDecl) := ruleEntries decl
  let permission ← Expr.parse source
  let b ← binding path action whereDecl
  checkBinding path m b
  checkRoots path source action m b permission.roots
  pure ⟨permission, b⟩

/-- Checks declared rules in the order in which they are written. -/
def compileRules (path : String) (m : Model) : Keyed RuleDecl → Rules → Except Error Rules
  | [], rules => .ok rules
  | (code, decl) :: rest, rules => do
    let some action := Action.ofCode? code
      | throw (SchemaFault.unknownAction path code).error
    let rule ← compileRule path action decl m
    compileRules path m rest (rules.put action rule)

/-- Checks that all rules that load a record use the same path parameter. -/
def checkParams (path expected : String) : Rules → Except Error Unit
  | [] => .ok ()
  | (action, rule) :: rest =>
    match rule.binding with
    | some b =>
      if b.param = expected then checkParams path expected rest
      else .error (SchemaFault.parameterClash path action b.param expected).error
    | none => checkParams path expected rest

/-- Checks a declared route against the models. -/
def compile (decl : RouteDecl) (catalog : Catalog) : Except Error Route := do
  checkPath decl.path
  let some m := catalog.get? decl.model
    | throw (SchemaFault.routeModel decl.path decl.model).error
  if m.bindingName = callerRoot then throw (SchemaFault.callerLabel m.name).error
  let rules ← compileRules decl.path m decl.rules []
  let route : Route := ⟨decl.path, m, rules⟩
  match route.itemParam? with
  | none => pure ()
  | some expected => checkParams decl.path expected rules
  pure route

/-- Checks declared routes in order; no path may occur twice. -/
def compileAll (catalog : Catalog) (seen : List String) :
    List RouteDecl → Except Error (List Route)
  | [] => .ok []
  | decl :: rest => do
    if seen.contains decl.path then throw (SchemaFault.duplicatePath decl.path).error
    let route ← compile decl catalog
    let routes ← compileAll catalog (decl.path :: seen) rest
    pure (route :: routes)

end Route

end RecordGate

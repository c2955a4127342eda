import RecordGate.Permission.Route
import RecordGate.Schema.Document

/-! # Configurations

  A configuration is a catalog of models and the routes that mount them. It is
  made from a document in two steps, so that code can add hooks and defaults
  to the models before the routes are checked against them.
-/

namespace RecordGate

/-- A checked configuration. -/
structure Config where
  /-- The models. -/
  catalog : Catalog
  /-- The routes. -/
  routes : List Route

namespace Config

/-- The declared models. -/
def catalogOf (api : ApiDecl) : Except Error Catalog :=
  Catalog.empty.declareAll api.models

/-- The declared routes over a catalog. -/
def bindRoutes (api : ApiDecl) (catalog : Catalog) : Except Error Config := do
  let routes ← Route.compileAll catalog [] api.routes
  pure ⟨catalog, routes⟩

/-- A declared configuration, checked. -/
def ofDecl (api : ApiDecl) : Except Error Config := do
  let catalog ← catalogOf api
  bindRoutes api catalog

/-- The configuration that a text writes, checked. -/
def ofText (text : String) : Except Error Config := do
  let api ← ApiDecl.ofText text
  ofDecl api

end Config

end RecordGate

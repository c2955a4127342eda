import RecordGate.Keyed
import RecordGate.Storage.Driver
import RecordGate.Storage.Sql.Value
import RecordGate.Text.Ident

/-! # Storage in an SQL database

  Each collection is a table of two columns: the identifier of a record as a
  unique text key, and the whole record as a JSON document. Rows keep the
  order of insertion.

  - Table names are compared without regard to case.
  - An update replaces the row whose key is the identifier of the changed
    record.
  - A delete removes the row whose key is that of the first row the filter
    accepts.
-/

namespace RecordGate.Storage.Sql

/-- A row. -/
structure Row where
  /-- The unique key. -/
  key : String
  /-- The document. -/
  document : Document
  deriving Repr, DecidableEq

/-- The tables by their names in lower case. -/
structure Database where
  /-- The rows of each table. -/
  tables : Keyed (List Row)
  deriving Repr, DecidableEq

/-- The name under which a table is found. -/
def tableKey (collection : String) : String :=
  String.ofList (collection.toList.map Char.toLower)

/-- Only identifiers name tables. -/
def checkName (collection : String) : Except Error Unit :=
  if Text.isIdent collection then .ok ()
  else .error (.storage s!"invalid collection name '{collection}'")

/-- Names that the database keeps for itself. -/
def isReserved (collection : String) : Bool :=
  "sqlite_".toList.isPrefixOf (tableKey collection).toList

namespace Database

/-- No table. -/
def empty : Database := ⟨[]⟩

/-- The rows of a table that exists. -/
def rows? (db : Database) (collection : String) : Except Error (List Row) := do
  checkName collection
  match db.tables.get? (tableKey collection) with
  | some rows => pure rows
  | none => throw (refusal 1 s!"no such table: {collection}")

/-- Replaces the rows of a table. -/
def setRows (db : Database) (collection : String) (rows : List Row) : Database :=
  ⟨db.tables.put (tableKey collection) rows⟩

/-- Makes a table if there is none of that name. -/
def ensureTable (db : Database) (collection : String) : Except Error Database := do
  checkName collection
  if db.tables.contains (tableKey collection) then pure db
  else if isReserved collection then
    throw (refusal 1 s!"object name reserved for internal use: {collection}")
  else pure (db.setRows collection [])

/-- Makes the tables of a list of collections. -/
def ensureTables (db : Database) : List String → Except Error Database
  | [] => .ok db
  | collection :: rest => do
    let db ← db.ensureTable collection
    db.ensureTables rest

end Database

/-! ### Queries -/

/-- The first row that a filter accepts. -/
def firstRow (filter : Record) : List Row → Except Error (Option Row)
  | [] => .ok none
  | row :: rest => do
    if ← row.document.accepts filter then pure (some row) else firstRow filter rest

/-- The rows that a filter accepts. -/
def acceptedRows (filter : Record) : List Row → Except Error (List Row)
  | [] => .ok []
  | row :: rest => do
    let hit ← row.document.accepts filter
    let hits ← acceptedRows filter rest
    pure (if hit then row :: hits else hits)

/-- The records of rows, up to the first that holds none. -/
def recordsOf : List Row → Except Error (List Record)
  | [] => .ok []
  | row :: rest => do
    let r ← row.document.record
    let rs ← recordsOf rest
    pure (r :: rs)

/-- The identifier of a record that is to be written. -/
def recordKey (r : Record) : Except Error String :=
  match r.get? idField with
  | some (.str id) => .ok id
  | _ => .error (.storage "record has no string identifier")

/-- Gives the row of a key another document. -/
def setDocument (key : String) (d : Document) (rows : List Row) : List Row :=
  rows.map fun row => if row.key = key then { row with document := d } else row

/-- Reads the first record that a filter accepts. -/
def findOne (filter : Record) (rows : List Row) : Except Error (Option Record) := do
  match ← firstRow filter rows with
  | none => pure none
  | some row => some <$> row.document.record

/-- Reads all records that a filter accepts. -/
def findAll (filter : Record) (rows : List Row) : Except Error (List Record) := do
  recordsOf (← acceptedRows filter rows)

/-- Adds a record to a table under a key that is not taken. -/
def insertRow (collection : String) (r : Record) (rows : List Row) :
    Except Error (List Row) := do
  let key ← recordKey r
  if rows.any fun row => row.key = key then
    throw (refusal 1555 s!"UNIQUE constraint failed: {collection}.{idField}")
  pure (rows ++ [⟨key, .json (.obj r)⟩])

/-- Overwrites values in the first record that a filter accepts. -/
def updateRow (filter values : Record) (rows : List Row) :
    Except Error (Option (Record × List Row)) := do
  match ← firstRow filter rows with
  | none => pure none
  | some row =>
    let r := (← row.document.record).merge values
    let key ← recordKey r
    pure (some (r, setDocument key (.json (.obj r)) rows))

/-- Removes the first row that a filter accepts. -/
def deleteRow (filter : Record) (rows : List Row) : Except Error (Option (List Row)) := do
  match ← firstRow filter rows with
  | none => pure none
  | some row => pure (some (rows.filter fun other => other.key ≠ row.key))

/-! ### The driver -/

/-- Answers a call from the state of the database; a failure changes nothing. -/
def Database.answer : (c : Call) → World Database → Except Error c.Answer × World Database
  | .findOne collection filter, w =>
    (do findOne filter (← w.store.rows? collection), w)
  | .findAll collection filter, w =>
    (do findAll filter (← w.store.rows? collection), w)
  | .insertOne collection values, w =>
    let (values, supply) := withId values w.supply
    match (do insertRow collection values (← w.store.rows? collection) :
        Except Error (List Row)) with
    | .ok rows => (.ok values, ⟨supply, w.store.setRows collection rows⟩)
    | .error e => (.error e, ⟨supply, w.store⟩)
  | .updateOne collection filter values, w =>
    match (do updateRow filter values (← w.store.rows? collection) :
        Except Error (Option (Record × List Row))) with
    | .ok (some (r, rows)) => (.ok (some r), { w with store := w.store.setRows collection rows })
    | .ok none => (.ok none, w)
    | .error e => (.error e, w)
  | .deleteOne collection filter, w =>
    match (do deleteRow filter (← w.store.rows? collection) :
        Except Error (Option (List Row))) with
    | .ok (some rows) => (.ok true, { w with store := w.store.setRows collection rows })
    | .ok none => (.ok false, w)
    | .error e => (.error e, w)

/-- The driver that keeps records in an SQL database. -/
def driver : Driver Database where
  kind := "sqlite"
  answer := Database.answer

end RecordGate.Storage.Sql

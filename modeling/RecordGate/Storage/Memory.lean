import RecordGate.Keyed
import RecordGate.Storage.Driver

/-! # Storage in memory

  Each collection is the list of its records in the order of insertion.
  Changes take place where the record stands.

  - `rows_setRows` describes a change of one collection.
-/

namespace RecordGate.Storage

/-- The collections that were ever written to, with their records. -/
structure Memory where
  /-- The records of each collection. -/
  collections : Keyed (List Record)
  deriving Repr

namespace Memory

/-- Nothing is stored. -/
def empty : Memory := ⟨[]⟩

/-- The records of a collection. -/
def rows (m : Memory) (collection : String) : List Record :=
  (m.collections.get? collection).getD []

/-- Replaces the records of a collection. -/
def setRows (m : Memory) (collection : String) (rows : List Record) : Memory :=
  ⟨m.collections.put collection rows⟩

theorem rows_setRows (m : Memory) (collection other : String) (rs : List Record) :
    (m.setRows collection rs).rows other = if collection = other then rs else m.rows other := by
  simp only [rows, setRows, Keyed.get?_put]
  split <;> rfl

/-- Overwrites values in the first record that a filter accepts, and returns
    the changed record with the new list. -/
def updateFirst (filter values : Record) : List Record → Option (Record × List Record)
  | [] => none
  | row :: rest =>
    if accepts filter row then
      let row := row.merge values
      some (row, row :: rest)
    else (updateFirst filter values rest).map fun (hit, rest) => (hit, row :: rest)

/-- Removes the first record that a filter accepts. -/
def deleteFirst (filter : Record) : List Record → Option (List Record)
  | [] => none
  | row :: rest =>
    if accepts filter row then some rest
    else (deleteFirst filter rest).map (row :: ·)

/-- Answers a call; it never fails. -/
def answer : (c : Call) → World Memory → c.Answer × World Memory
  | .findOne collection filter, w => ((w.store.rows collection).find? (accepts filter), w)
  | .findAll collection filter, w => ((w.store.rows collection).filter (accepts filter), w)
  | .insertOne collection values, w =>
    let (values, supply) := withId values w.supply
    (values, ⟨supply, w.store.setRows collection (w.store.rows collection ++ [values])⟩)
  | .updateOne collection filter values, w =>
    match updateFirst filter values (w.store.rows collection) with
    | some (hit, rows) => (some hit, { w with store := w.store.setRows collection rows })
    | none => (none, w)
  | .deleteOne collection filter, w =>
    match deleteFirst filter (w.store.rows collection) with
    | some rows => (true, { w with store := w.store.setRows collection rows })
    | none => (false, w)

/-- The driver that keeps records in memory. -/
def driver : Driver Memory where
  kind := "memory"
  answer c w := ((.ok (answer c w).1), (answer c w).2)

end Memory

end RecordGate.Storage

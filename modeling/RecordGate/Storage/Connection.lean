import RecordGate.Storage.Memory
import RecordGate.Storage.Sql.Database

/-! # Connections

  A connection is a driver together with what it has stored so far.
-/

namespace RecordGate.Storage

/-- A driver and its state. -/
structure Connection where
  /-- What the driver stores. -/
  Store : Type
  /-- The driver. -/
  driver : Driver Store
  /-- What is stored. -/
  store : Store

namespace Connection

/-- A new storage in memory. -/
def memory : Connection := ⟨Memory, Memory.driver, Memory.empty⟩

/-- A new database with a table for each of some collections. -/
def database (collections : List String) : Except Error Connection :=
  match Sql.Database.empty.ensureTables collections with
  | .ok db => .ok ⟨Sql.Database, Sql.driver, db⟩
  | .error e => .error e

end Connection

end RecordGate.Storage

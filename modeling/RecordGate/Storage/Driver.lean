import RecordGate.Storage.Call
import RecordGate.Supply

/-! # Storage drivers

  A driver answers calls and carries a state along. It draws fresh identifiers
  from the same supply as the engine.
-/

namespace RecordGate

/-- What the outside of the engine consists of: the supply and what a driver
    has stored. -/
structure World (σ : Type) where
  /-- The clock and the fresh identifiers. -/
  supply : Supply
  /-- The state of the driver. -/
  store : σ

/-- A storage driver over states `σ`. -/
structure Storage.Driver (σ : Type) where
  /-- The name of the kind of driver. -/
  kind : String
  /-- Answers a call, or fails. -/
  answer : (c : Storage.Call) → World σ → Except Error c.Answer × World σ

/-- A record with an identifier: its own if that is a string, else a fresh one. -/
def Storage.withId (values : Record) (supply : Supply) : Record × Supply :=
  match values.get? idField with
  | some (.str _) => (values, supply)
  | _ =>
    let (id, supply) := supply.fresh
    (values.insert idField (.str id.toHex), supply)

end RecordGate

import RecordGate.ObjectId
import RecordGate.Time.Instant

/-! # Supplies

  What a run draws from the outside besides storage: readings of a clock and
  fresh identifiers. Both are endless sequences, and a supply knows how many
  of each were drawn.
-/

namespace RecordGate

/-- Readings of the clock and fresh identifiers, with the count of those that
    were drawn. -/
structure Supply where
  /-- The readings of the clock, in the order in which they are drawn. -/
  clock : Nat → Time.Instant
  /-- The fresh identifiers, in the order in which they are drawn. -/
  ids : Nat → ObjectId
  /-- How many readings were drawn. -/
  readings : Nat
  /-- How many identifiers were drawn. -/
  issued : Nat

namespace Supply

/-- An unused supply whose identifiers come from one source. -/
def ofSource (clock : Nat → Time.Instant) (source : ObjectId.Source) : Supply where
  clock := clock
  ids := source.nth fun n => (clock n).seconds
  readings := 0
  issued := 0

/-- Draws the next reading of the clock. -/
def tick (s : Supply) : Time.Instant × Supply :=
  (s.clock s.readings, { s with readings := s.readings + 1 })

/-- Draws the next identifier. -/
def fresh (s : Supply) : ObjectId × Supply :=
  (s.ids s.issued, { s with issued := s.issued + 1 })

end Supply

end RecordGate

import RecordGate.Storage.Driver

/-! # Flows

  Work that has to ask the outside: the clock, the source of fresh
  identifiers, and the storage. A flow is the tree of its questions with a
  continuation for every answer, so it can be run against any driver, paused
  between two questions, or interleaved with other flows.

  - `Flow.run` answers all questions from a world.
  - A storage failure that a flow does not handle ends it.
-/

namespace RecordGate

/-- Work that ends with a value or an error after some questions. -/
inductive Flow (α : Type) where
  /-- The end. -/
  | done (result : Except Error α)
  /-- Asks the clock. -/
  | now (next : Time.Instant → Flow α)
  /-- Asks for a fresh identifier. -/
  | fresh (next : ObjectId → Flow α)
  /-- Asks the storage. -/
  | call (c : Storage.Call) (next : Except Error c.Answer → Flow α)

namespace Flow

variable {α β σ : Type}

/-- Ends with an error. -/
def fail (e : Error) : Flow α := .done (.error e)

/-- Ends with what is already known. -/
def ofExcept (r : Except Error α) : Flow α := .done r

/-- Goes on with the value at the end; an error stays the end. -/
def bind : Flow α → (α → Flow β) → Flow β
  | .done (.ok a), f => f a
  | .done (.error e), _ => .done (.error e)
  | .now next, f => .now fun t => (next t).bind f
  | .fresh next, f => .fresh fun id => (next id).bind f
  | .call c next, f => .call c fun answer => (next answer).bind f

instance : Monad Flow where
  pure a := .done (.ok a)
  bind := bind

/-- The time. -/
def readClock : Flow Time.Instant := .now fun t => .done (.ok t)

/-- A fresh identifier. -/
def freshId : Flow ObjectId := .fresh fun id => .done (.ok id)

/-- The answer of the storage; its failure ends the flow. -/
def ask (c : Storage.Call) : Flow c.Answer := .call c fun answer => .done answer

/-- Runs a flow to its end. -/
def run (driver : Storage.Driver σ) : Flow α → World σ → Except Error α × World σ
  | .done r, w => (r, w)
  | .now next, w =>
    let (t, supply) := w.supply.tick
    (next t).run driver { w with supply := supply }
  | .fresh next, w =>
    let (id, supply) := w.supply.fresh
    (next id).run driver { w with supply := supply }
  | .call c next, w =>
    let (answer, w) := driver.answer c w
    (next answer).run driver w

@[simp] theorem ofExcept_ok_bind (a : α) (f : α → Flow β) : ofExcept (.ok a) >>= f = f a := rfl

@[simp] theorem ofExcept_error_bind (e : Error) (f : α → Flow β) :
    ofExcept (.error e) >>= f = fail e := rfl

/-- Going on twice is going on once with both in a row. -/
theorem bind_assoc {γ : Type} (x : Flow α) (f : α → Flow β) (g : β → Flow γ) :
    x >>= f >>= g = x >>= fun a => f a >>= g := by
  show (x.bind f).bind g = x.bind fun a => (f a).bind g
  induction x with
  | done r => cases r <;> rfl
  | now next ih => simp only [bind, ih]
  | fresh next ih => simp only [bind, ih]
  | call c next ih => simp only [bind, ih]

/-! ### Laws of running -/

@[simp] theorem run_done (driver : Storage.Driver σ) (r : Except Error α) (w : World σ) :
    (done r).run driver w = (r, w) := rfl

@[simp] theorem run_pure (driver : Storage.Driver σ) (a : α) (w : World σ) :
    (pure a : Flow α).run driver w = (.ok a, w) := rfl

@[simp] theorem run_fail (driver : Storage.Driver σ) (e : Error) (w : World σ) :
    (fail e : Flow α).run driver w = (.error e, w) := rfl

@[simp] theorem run_ask (driver : Storage.Driver σ) (c : Storage.Call) (w : World σ) :
    (ask c).run driver w = driver.answer c w := rfl

/-- Running two flows in a row is running the second in the world that the
    first leaves behind. -/
theorem run_bind (driver : Storage.Driver σ) (x : Flow α) (f : α → Flow β) (w : World σ) :
    (x >>= f).run driver w =
      match x.run driver w with
      | (.ok a, w) => (f a).run driver w
      | (.error e, w) => (.error e, w) := by
  show (x.bind f).run driver w = _
  induction x generalizing w with
  | done r => cases r <;> rfl
  | now next ih => simp only [bind, run, ih]
  | fresh next ih => simp only [bind, run, ih]
  | call c next ih => simp only [bind, run, ih]

end Flow

end RecordGate

import RecordGate.Flow

/-! # Flows that leave the storage alone

  Preparing a write asks the clock and the source of identifiers, but never
  the storage. Such a flow is the same computation under every driver.

  - `bind_eq_ok_iff`, `bind_eq_error_iff`: checked steps, one at a time;
    `okAnd` tests what they come to.
  - `Offline.run_eq`: its run is `draw`, which sees the supply alone, and the
    store stays as it is.
  - `Supply.Later`: supplies only move forward, whatever a flow asks.
  - `exchanges` lists the storage calls of a run with their answers.
-/

namespace RecordGate

/-! ### Checked steps in a row -/

section results
variable {ε α β : Type} {x : Except ε α} {f : α → Except ε β}

@[simp] theorem ok_bind (a : α) (f : α → Except ε β) : (.ok a : Except ε α) >>= f = f a := rfl

@[simp] theorem error_bind (e : ε) (f : α → Except ε β) :
    (.error e : Except ε α) >>= f = .error e := rfl

/-- Two steps succeed if the first does, and the second with its result. -/
theorem bind_eq_ok_iff {b : β} : x >>= f = .ok b ↔ ∃ a, x = .ok a ∧ f a = .ok b := by
  cases x with
  | ok a => simp
  | error e => simp

/-- A step with its result changed succeeds if the step does. -/
theorem map_eq_ok_iff {g : α → β} {b : β} : x.map g = .ok b ↔ ∃ a, x = .ok a ∧ g a = b := by
  cases x with
  | ok a => simp [Except.map]
  | error e => simp [Except.map]

/-- Two steps fail if the first does, or the second with its result. -/
theorem bind_eq_error_iff {e : ε} :
    x >>= f = .error e ↔ x = .error e ∨ ∃ a, x = .ok a ∧ f a = .error e := by
  cases x with
  | ok a => simp
  | error e => simp

/-- A step fails unless it succeeds. -/
theorem exists_error_iff : (∃ e, x = .error e) ↔ ¬∃ a, x = .ok a := by
  cases x with
  | ok a => simp
  | error e => simp

/-- Whether a step succeeds with a result that passes a test. -/
def okAnd (x : Except ε α) (test : α → Bool) : Bool :=
  match x with
  | .ok a => test a
  | .error _ => false

theorem okAnd_iff {test : α → Bool} :
    okAnd x test = true ↔ ∃ a, x = .ok a ∧ test a = true := by
  cases x with
  | ok a => simp [okAnd]
  | error e => simp [okAnd]

end results

/-! ### Supplies move forward -/

/-- A supply with the same readings and identifiers, of which perhaps more
    were drawn. -/
structure Supply.Later (s t : Supply) : Prop where
  /-- The identifiers are the same. -/
  ids : t.ids = s.ids
  /-- The readings of the clock are the same. -/
  clock : t.clock = s.clock
  /-- No identifier is taken back. -/
  issued : s.issued ≤ t.issued

namespace Supply

theorem later_refl (s : Supply) : s.Later s := ⟨rfl, rfl, Nat.le_refl _⟩

theorem Later.trans {s t u : Supply} (hst : s.Later t) (htu : t.Later u) : s.Later u :=
  ⟨htu.ids.trans hst.ids, htu.clock.trans hst.clock, Nat.le_trans hst.issued htu.issued⟩

theorem later_tick (s : Supply) : s.Later s.tick.2 := ⟨rfl, rfl, Nat.le_refl _⟩

theorem later_fresh (s : Supply) : s.Later s.fresh.2 := ⟨rfl, rfl, Nat.le_succ _⟩

/-- No identifier was handed out twice so far. -/
def Distinct (s : Supply) : Prop :=
  ∀ i < s.issued, ∀ j < s.issued, s.ids i = s.ids j → i = j

theorem Distinct.earlier {s t : Supply} (ht : t.Distinct) (h : s.Later t) : s.Distinct := by
  intro i hi j hj hij
  have hle := h.issued
  refine ht i (by omega) j (by omega) ?_
  rw [h.ids]
  exact hij

/-- With one identifier handed out, none was handed out twice. -/
theorem distinct_of_one {supply : Supply} (h : supply.issued = 1) : supply.Distinct := by
  intro i hi j hj _
  omega

/-- A supply whose clock stands still. -/
def still : Supply := ofSource (fun _ => ⟨0, 0⟩) ⟨[0, 0, 0, 0, 0], rfl, 0⟩

end Supply

/-! ### Storage calls of a run -/

/-- A storage call with the answer that it got. -/
structure Storage.Exchange where
  /-- The call. -/
  call : Storage.Call
  /-- The answer, or how it failed. -/
  answer : Except Error call.Answer

namespace Flow

variable {α β σ : Type}

/-- The storage calls of a run, in order. -/
def exchanges (driver : Storage.Driver σ) : Flow α → World σ → List Storage.Exchange
  | .done _, _ => []
  | .now next, w => (next w.supply.tick.1).exchanges driver { w with supply := w.supply.tick.2 }
  | .fresh next, w =>
    (next w.supply.fresh.1).exchanges driver { w with supply := w.supply.fresh.2 }
  | .call c next, w =>
    ⟨c, (driver.answer c w).1⟩ ::
      (next (driver.answer c w).1).exchanges driver (driver.answer c w).2

/-! ### Offline flows -/

/-- A flow that asks the clock and for identifiers at most. -/
inductive Offline : Flow α → Prop where
  /-- The end. -/
  | done (result : Except Error α) : Offline (.done result)
  /-- A reading of the clock, and an offline flow whatever it says. -/
  | now {next : Time.Instant → Flow α} (h : ∀ t, Offline (next t)) : Offline (.now next)
  /-- A fresh identifier, and an offline flow whatever it is. -/
  | fresh {next : ObjectId → Flow α} (h : ∀ id, Offline (next id)) : Offline (.fresh next)

theorem offline_pure (a : α) : Offline (pure a : Flow α) := .done _

theorem offline_ofExcept (r : Except Error α) : Offline (ofExcept r) := .done _

theorem offline_readClock : Offline readClock := .now fun _ => .done _

theorem offline_freshId : Offline freshId := .fresh fun _ => .done _

theorem Offline.bind {x : Flow α} {f : α → Flow β} (hx : Offline x) (hf : ∀ a, Offline (f a)) :
    Offline (x >>= f) := by
  -- the continuation goes to the leaves, so the induction is on the first flow
  show Offline (x.bind f)
  induction hx with
  | done result =>
    cases result with
    | ok a => exact hf a
    | error e => exact .done _
  | now _ ih => exact .now ih
  | fresh _ ih => exact .fresh ih

end Flow

/-- The driver of a storage that is not there: every call fails. -/
def Storage.absent : Storage.Driver Unit where
  kind := "absent"
  answer _ w := (.error (.storage "there is no storage"), w)

namespace Flow

variable {α β σ : Type}

/-- What a flow ends with when there is no storage, and what it leaves of the
    supply. -/
def draw (x : Flow α) (s : Supply) : Except Error α × Supply :=
  ((x.run Storage.absent ⟨s, ()⟩).1, (x.run Storage.absent ⟨s, ()⟩).2.supply)

/-- An offline flow does the same under every driver, and the store stays as
    it is. -/
theorem Offline.run_eq {x : Flow α} (hx : Offline x) (driver : Storage.Driver σ) (w : World σ) :
    x.run driver w = ((x.draw w.supply).1, ⟨(x.draw w.supply).2, w.store⟩) := by
  -- no case is a storage call, so the driver is never asked
  induction hx generalizing w with
  | done result => rfl
  | now _ ih => exact ih _ _
  | fresh _ ih => exact ih _ _

@[simp] theorem run_ofExcept (driver : Storage.Driver σ) (r : Except Error α) (w : World σ) :
    (ofExcept r).run driver w = (r, w) := rfl

@[simp] theorem draw_pure (a : α) (s : Supply) : (pure a : Flow α).draw s = (.ok a, s) := rfl

@[simp] theorem draw_fail (e : Error) (s : Supply) :
    (fail e : Flow α).draw s = (.error e, s) := rfl

/-- Drawing for two flows in a row is drawing for the second from what the
    first leaves. -/
theorem draw_bind (x : Flow α) (f : α → Flow β) (s : Supply) :
    (x >>= f).draw s =
      match x.draw s with
      | (.ok a, s) => (f a).draw s
      | (.error e, s) => (.error e, s) := by
  simp only [draw, run_bind]
  split <;> simp_all

/-- A driver that only draws on the supply moves it forward in every run. -/
theorem later_run {driver : Storage.Driver σ}
    (hd : ∀ c (w : World σ), w.supply.Later (driver.answer c w).2.supply) (x : Flow α) (w : World σ) :
    w.supply.Later (x.run driver w).2.supply := by
  -- every answer moves the supply forward, and the rest starts from there
  induction x generalizing w with
  | done result => exact Supply.later_refl _
  | now next ih =>
    exact (Supply.later_tick _).trans (ih w.supply.tick.1 ⟨w.supply.tick.2, w.store⟩)
  | fresh next ih =>
    exact (Supply.later_fresh _).trans (ih w.supply.fresh.1 ⟨w.supply.fresh.2, w.store⟩)
  | call c next ih => exact (hd c w).trans (ih _ _)

theorem later_draw (x : Flow α) (s : Supply) : s.Later (x.draw s).2 := by
  show s.Later (x.run Storage.absent ⟨s, ()⟩).2.supply
  exact later_run (fun _ _ => Supply.later_refl _) x ⟨s, ()⟩

theorem later_of_draw {x : Flow α} {s t : Supply} {result : Except Error α}
    (h : x.draw s = (result, t)) : s.Later t := by
  have hlater := later_draw x s
  rw [h] at hlater
  exact hlater

end Flow

end RecordGate

import RecordGate.Proofs.Preparation

/-! # Trails through a flow

  What is left of a flow when it is paused.

  **Key idea.** A trail leads from a flow to a point that it can come to. It
  holds the storage calls on the way with their answers, whatever these are,
  and leaves open what the clock and the source of identifiers said. So what
  holds at the end of every trail holds of every run, under every driver, and
  at every pause of a run that others interrupt.

  - `trail_exchanges`: the storage calls of a run are a trail to its end.
  - `trail_bind`: a trail through two flows in a row ends in the first, or it
    passes through a value of the first.
  - `Strict`: a flow for which a failed storage call is the end
    (`Strict.failed_last`).
  - `Yields.of_trail`: what all values have in common that an offline flow can
    draw from a supply, the values at the ends of its trails have.
-/

namespace RecordGate.Flow

open Storage

variable {α β σ : Type}

/-- A flow can come to what is left of it after some storage calls. -/
inductive Trail : Flow α → List Exchange → Flow α → Prop where
  /-- Nothing was asked yet. -/
  | here (x : Flow α) : Trail x [] x
  /-- The clock said something. -/
  | now {next : Time.Instant → Flow α} {log : List Exchange} {y : Flow α} (t : Time.Instant)
      (h : Trail (next t) log y) : Trail (.now next) log y
  /-- Some identifier was handed out. -/
  | fresh {next : ObjectId → Flow α} {log : List Exchange} {y : Flow α} (id : ObjectId)
      (h : Trail (next id) log y) : Trail (.fresh next) log y
  /-- The storage answered something, or failed. -/
  | call {c : Call} {next : Except Error c.Answer → Flow α} {log : List Exchange} {y : Flow α}
      (answer : Except Error c.Answer) (h : Trail (next answer) log y) :
      Trail (.call c next) (⟨c, answer⟩ :: log) y

variable {x y z : Flow α} {f : α → Flow β} {log log' before after : List Exchange} {e : Exchange}

/-! ### Trails in a row -/

theorem Trail.trans (hxy : Trail x log y) (hyz : Trail y log' z) : Trail x (log ++ log') z := by
  induction hxy with
  | here x => exact hyz
  | now t _ ih => exact .now t (ih hyz)
  | fresh id _ ih => exact .fresh id (ih hyz)
  | call answer _ ih => exact .call answer (ih hyz)

/-- From the end nothing is left to come to. -/
theorem Trail.of_done {r : Except Error α} (h : Trail (.done r) log y) :
    log = [] ∧ y = .done r := by
  cases h with
  | here => exact ⟨rfl, rfl⟩

/-- Before each call of a trail the flow was paused at this call. -/
theorem Trail.split (h : Trail x (before ++ e :: after) y) :
    ∃ next, Trail x before (.call e.call next) ∧ Trail (next e.answer) after y := by
  generalize hlog : before ++ e :: after = log at h
  induction h generalizing before with
  | here x =>
    have hne : before ++ e :: after ≠ [] := by simp
    exact absurd hlog hne
  | now t _ ih =>
    obtain ⟨next, hbefore, hafter⟩ := ih hlog
    exact ⟨next, .now t hbefore, hafter⟩
  | fresh id _ ih =>
    obtain ⟨next, hbefore, hafter⟩ := ih hlog
    exact ⟨next, .fresh id hbefore, hafter⟩
  | @call c next log y answer hrest ih =>
    cases before with
    | nil =>
      cases hlog
      exact ⟨next, .here _, hrest⟩
    | cons first before =>
      rw [List.cons_append, List.cons.injEq] at hlog
      obtain ⟨rfl, hlog⟩ := hlog
      obtain ⟨next', hbefore, hafter⟩ := ih hlog
      exact ⟨next', .call answer hbefore, hafter⟩

/-- The storage calls of a run are a trail to its end. -/
theorem trail_exchanges (driver : Driver σ) (x : Flow α) (w : World σ) :
    Trail x (x.exchanges driver w) (.done (x.run driver w).1) := by
  induction x generalizing w with
  | done r => exact .here _
  | now next ih => exact .now _ (ih _ _)
  | fresh next ih => exact .fresh _ (ih _ _)
  | call c next ih => exact .call _ (ih _ _)

/-- A trail through two flows in a row ends before the first one has a value,
    or leads to a value of the first one and ends in what follows from that. -/
theorem trail_bind {y : Flow β} (h : Trail (x >>= f) log y) :
    (∃ x', Trail x log x' ∧ (∀ a, x' ≠ .done (.ok a)) ∧ y = x' >>= f) ∨
      ∃ a log₁ log₂, log = log₁ ++ log₂ ∧ Trail x log₁ (.done (.ok a)) ∧ Trail (f a) log₂ y := by
  -- the trail goes through the tree of the first flow, so the induction is on that
  induction x generalizing log with
  | done r =>
    cases r with
    | ok a => exact .inr ⟨a, [], log, rfl, .here _, h⟩
    | error err =>
      obtain ⟨rfl, rfl⟩ := Trail.of_done (r := .error err) h
      exact .inl ⟨.done (.error err), .here _, nofun, rfl⟩
  | now next ih =>
    have hbind : Flow.now next >>= f = .now fun t => next t >>= f := rfl
    rw [hbind] at h
    cases h with
    | here => exact .inl ⟨.now next, .here _, nofun, rfl⟩
    | now t h =>
      rcases ih t h with ⟨x', hx, hopen, hy⟩ | ⟨a, log₁, log₂, hlog, hx, hy⟩
      · exact .inl ⟨x', .now t hx, hopen, hy⟩
      · exact .inr ⟨a, log₁, log₂, hlog, .now t hx, hy⟩
  | fresh next ih =>
    have hbind : Flow.fresh next >>= f = .fresh fun id => next id >>= f := rfl
    rw [hbind] at h
    cases h with
    | here => exact .inl ⟨.fresh next, .here _, nofun, rfl⟩
    | fresh id h =>
      rcases ih id h with ⟨x', hx, hopen, hy⟩ | ⟨a, log₁, log₂, hlog, hx, hy⟩
      · exact .inl ⟨x', .fresh id hx, hopen, hy⟩
      · exact .inr ⟨a, log₁, log₂, hlog, .fresh id hx, hy⟩
  | call c next ih =>
    have hbind : Flow.call c next >>= f = .call c fun answer => next answer >>= f := rfl
    rw [hbind] at h
    cases h with
    | here => exact .inl ⟨.call c next, .here _, nofun, rfl⟩
    | call answer h =>
      rcases ih answer h with ⟨x', hx, hopen, hy⟩ | ⟨a, log₁, log₂, hlog, hx, hy⟩
      · exact .inl ⟨x', .call answer hx, hopen, hy⟩
      · exact .inr ⟨a, ⟨c, answer⟩ :: log₁, log₂, by rw [hlog]; rfl, .call answer hx, hy⟩

/-- What is known already is passed at once. -/
theorem trail_ofExcept_bind {r : Except Error α} {y : Flow β}
    (h : Trail (ofExcept r >>= f) log y) :
    (∃ err, r = .error err ∧ log = [] ∧ y = .done (.error err)) ∨
      ∃ a, r = .ok a ∧ Trail (f a) log y := by
  cases r with
  | ok a => exact .inr ⟨a, rfl, h⟩
  | error err =>
    obtain ⟨hlog, hy⟩ := Trail.of_done (r := .error err) h
    exact .inl ⟨err, rfl, hlog, hy⟩

/-! ### Flows that a failed call ends -/

/-- A flow that any failed storage call ends, with the error of that call. -/
inductive Strict : Flow α → Prop where
  /-- The end. -/
  | done (result : Except Error α) : Strict (.done result)
  /-- A reading of the clock, and a strict flow whatever it says. -/
  | now {next : Time.Instant → Flow α} (h : ∀ t, Strict (next t)) : Strict (.now next)
  /-- A fresh identifier, and a strict flow whatever it is. -/
  | fresh {next : ObjectId → Flow α} (h : ∀ id, Strict (next id)) : Strict (.fresh next)
  /-- A storage call, whose error is the end. -/
  | call {c : Call} {next : Except Error c.Answer → Flow α}
      (failed : ∀ err, next (.error err) = .done (.error err))
      (h : ∀ a, Strict (next (.ok a))) : Strict (.call c next)

theorem Offline.strict (hx : Offline x) : Strict x := by
  induction hx with
  | done result => exact .done result
  | now _ ih => exact .now ih
  | fresh _ ih => exact .fresh ih

theorem strict_ask (c : Call) : Strict (ask c) :=
  .call (fun _ => rfl) fun _ => .done _

theorem Strict.bind (hx : Strict x) (hf : ∀ a, Strict (f a)) : Strict (x >>= f) := by
  show Strict (x.bind f)
  induction hx with
  | done result =>
    cases result with
    | ok a => exact hf a
    | error err => exact .done _
  | now _ ih => exact .now ih
  | fresh _ ih => exact .fresh ih
  | call failed _ ih =>
    refine .call (fun err => ?_) ih
    show Flow.bind _ f = _
    rw [failed]
    rfl

theorem Strict.trail (hx : Strict x) (h : Trail x log y) : Strict y := by
  induction h with
  | here x => exact hx
  | now t _ ih =>
    cases hx with
    | now hnext => exact ih (hnext t)
  | fresh id _ ih =>
    cases hx with
    | fresh hnext => exact ih (hnext id)
  | call answer _ ih =>
    cases hx with
    | call failed hnext =>
      apply ih
      cases answer with
      | ok a => exact hnext a
      | error err =>
        rw [failed]
        exact .done _

/-- After a failed call there is no other, and its error is the end. -/
theorem Strict.failed_last (hx : Strict x) (h : Trail x (before ++ e :: after) y) {err : Error}
    (he : e.answer = .error err) : after = [] ∧ y = .done (.error err) := by
  obtain ⟨next, hbefore, hafter⟩ := h.split
  have hcall : Strict (.call e.call next) := hx.trail hbefore
  cases hcall with
  | call failed _ =>
    rw [he, failed] at hafter
    exact hafter.of_done

/-! ### Trails of offline flows -/

/-- An offline flow leaves no trace in the storage. -/
theorem Offline.trail (hx : Offline x) (h : Trail x log y) : log = [] ∧ Offline y := by
  induction h with
  | here x => exact ⟨rfl, hx⟩
  | now t _ ih =>
    cases hx with
    | now hnext => exact ih (hnext t)
  | fresh id _ ih =>
    cases hx with
    | fresh hnext => exact ih (hnext id)
  | call answer _ ih => cases hx

section paused
variable {c : Call} {next : Except Error c.Answer → Flow β}

/-- An offline flow does not pause at a call, so the call comes after it. -/
theorem Offline.paused (hx : Offline x) (h : Trail (x >>= f) log (.call c next)) :
    ∃ a, Trail x [] (.done (.ok a)) ∧ Trail (f a) log (.call c next) := by
  rcases trail_bind h with ⟨x', hx', hopen, hy⟩ | ⟨a, log₁, log₂, rfl, hx', hf⟩
  · cases (hx.trail hx').2 with
    | done result =>
      cases result with
      | ok a => exact absurd rfl (hopen a)
      | error err => cases hy
    | now _ => cases hy
    | fresh _ => cases hy
  · obtain ⟨rfl, -⟩ := hx.trail hx'
    exact ⟨a, hx', hf⟩

/-- Where an offline flow follows a call, there is no other to pause at. -/
theorem paused_ask {c' : Call} {f : c'.Answer → Flow β}
    (h : Trail (ask c' >>= f) log (.call c next)) (hf : ∀ a, Offline (f a)) :
    log = [] ∧ Flow.call c next = .call c' fun answer => ofExcept answer >>= f := by
  have hcall : ask c' >>= f = .call c' fun answer => ofExcept answer >>= f := rfl
  rw [hcall] at h
  cases h with
  | here => exact ⟨rfl, rfl⟩
  | call answer h =>
    have hafter : Offline (ofExcept answer >>= f) := (Offline.done answer).bind hf
    cases (hafter.trail h).2

/-- Where nothing but the end follows a call, a flow that is not at its end is
    still in front of the call. -/
theorem open_ask {f : c.Answer → Flow β} {y : Flow β} (h : Trail (ask c >>= f) log y)
    (hf : ∀ a, ∃ r, f a = .done r) (hopen : ∀ r, y ≠ .done r) : log = [] ∧ y = ask c >>= f := by
  have hcall : ask c >>= f = .call c fun answer => ofExcept answer >>= f := rfl
  rw [hcall] at h
  cases h with
  | here => exact ⟨rfl, rfl⟩
  | call answer h =>
    have hend : ∃ r, ofExcept answer >>= f = .done r := by
      cases answer with
      | ok a => exact hf a
      | error err => exact ⟨.error err, rfl⟩
    obtain ⟨r, hr⟩ := hend
    have h : Trail (ofExcept answer >>= f) _ y := h
    rw [hr] at h
    exact absurd h.of_done.2 (hopen r)

end paused

/-- What is known already is the value at the end. -/
theorem ofExcept_trail {r : Except Error α} {a : α}
    (h : Trail (ofExcept r) log (.done (.ok a))) : r = .ok a := by
  cases h
  rfl

/-- What an offline flow can end with, some supply lets it draw. Only the
    readings and identifiers that are still to come matter, so any number may
    have been drawn before. -/
theorem Offline.drawn (hx : Offline x) {r : Except Error α} (h : Trail x [] (.done r))
    (readings issued : Nat) :
    ∃ (clock : Nat → Time.Instant) (ids : Nat → ObjectId), ∀ clock' ids',
      (∀ j, readings ≤ j → clock' j = clock j) → (∀ j, issued ≤ j → ids' j = ids j) →
      (x.draw ⟨clock', ids', readings, issued⟩).1 = r := by
  induction hx generalizing readings issued with
  | done result =>
    obtain ⟨-, hr⟩ := h.of_done
    cases hr
    exact ⟨fun _ => ⟨0, 0⟩, Supply.still.ids, fun _ _ _ _ => rfl⟩
  | @now next _ ih =>
    cases h with
    | now t h =>
      obtain ⟨clock, ids, hdraw⟩ := ih t h (readings + 1) issued
      -- the next reading is the one of the trail, and all later ones stay
      refine ⟨fun j => if j = readings then t else clock j, ids, fun clock' ids' hclock hids => ?_⟩
      have hfirst : clock' readings = t :=
        (hclock readings (Nat.le_refl _)).trans (if_pos rfl)
      have hrest : ∀ j, readings + 1 ≤ j → clock' j = clock j := by
        intro j hj
        have hne : j ≠ readings := by omega
        exact (hclock j (by omega)).trans (if_neg hne)
      show ((next (clock' readings)).draw ⟨clock', ids', readings + 1, issued⟩).1 = r
      rw [hfirst]
      exact hdraw clock' ids' hrest hids
  | @fresh next _ ih =>
    cases h with
    | fresh id h =>
      obtain ⟨clock, ids, hdraw⟩ := ih id h readings (issued + 1)
      refine ⟨clock, fun j => if j = issued then id else ids j, fun clock' ids' hclock hids => ?_⟩
      have hfirst : ids' issued = id :=
        (hids issued (Nat.le_refl _)).trans (if_pos rfl)
      have hrest : ∀ j, issued + 1 ≤ j → ids' j = ids j := by
        intro j hj
        have hne : j ≠ issued := by omega
        exact (hids j (by omega)).trans (if_neg hne)
      show ((next (ids' issued)).draw ⟨clock', ids', readings, issued + 1⟩).1 = r
      rw [hfirst]
      exact hdraw clock' ids' hclock hrest

/-- What all values have in common that an offline flow can draw, the value at
    the end of a trail has. -/
theorem Yields.of_trail {P : α → Prop} (h : x.Yields P) (hx : Offline x) {a : α}
    (htrail : Trail x [] (.done (.ok a))) : P a := by
  obtain ⟨clock, ids, hdraw⟩ := hx.drawn htrail 0 0
  exact h ⟨clock, ids, 0, 0⟩ a (hdraw clock ids (fun _ _ => rfl) fun _ _ => rfl)

end RecordGate.Flow

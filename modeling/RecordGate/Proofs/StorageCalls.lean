import RecordGate.Proofs.Handling

/-! # The storage calls of a request

  What a request can ask a storage, whatever the storage answers.

  **Key idea.** A property of single calls is carried to whole runs twice.

  - `Flow.Asks`: every call of a flow has the property. `execute_asks` reduces
    this, for a request, to the five calls that the actions on a model make
    (`Covers`).
  - `Flow.run_keeps`: what single calls with the property keep of a storage, a
    run of such calls keeps too.
-/

namespace RecordGate

namespace Flow

open Storage

variable {α β σ : Type} {P : Call → Prop}

/-! ### Calls of flows in a row -/

/-- The calls of two flows in a row are those of the first and then, if it
    ends with a value, those of the second. -/
theorem exchanges_bind (driver : Driver σ) (x : Flow α) (f : α → Flow β) (w : World σ) :
    (x >>= f).exchanges driver w = x.exchanges driver w ++
      match x.run driver w with
      | (.ok a, w') => (f a).exchanges driver w'
      | (.error _, _) => [] := by
  show (x.bind f).exchanges driver w = _
  induction x generalizing w with
  | done r => cases r <;> rfl
  | now next ih => simp only [bind, exchanges, run, ih]
  | fresh next ih => simp only [bind, exchanges, run, ih]
  | call c next ih => simp only [bind, exchanges, run, ih, List.cons_append]

/-- An offline flow makes no call. -/
theorem Offline.exchanges_eq {x : Flow α} (hx : Offline x) (driver : Driver σ) (w : World σ) :
    x.exchanges driver w = [] := by
  induction hx generalizing w with
  | done result => rfl
  | now _ ih => exact ih _ _
  | fresh _ ih => exact ih _ _

/-- The answer in an exchange is what the driver said in some world. -/
theorem exchange_answer {driver : Driver σ} {x : Flow α} {w : World σ} {e : Exchange}
    (he : e ∈ x.exchanges driver w) : ∃ w', e.answer = (driver.answer e.call w').1 := by
  induction x generalizing w with
  | done r => cases he
  | now next ih => exact ih _ he
  | fresh next ih => exact ih _ he
  | call c next ih =>
    rcases List.mem_cons.mp he with rfl | he
    · exact ⟨w, rfl⟩
    · exact ih _ he

/-! ### A property of every call -/

/-- Every storage call that a flow makes has a property, whatever the driver
    answers. -/
def Asks (x : Flow α) (P : Call → Prop) : Prop :=
  ∀ (σ : Type) (driver : Driver σ) (w : World σ), ∀ e ∈ x.exchanges driver w, P e.call

theorem Offline.asks {x : Flow α} (hx : Offline x) : x.Asks P := by
  intro σ driver w e he
  rw [hx.exchanges_eq] at he
  cases he

theorem asks_ask {c : Call} (hc : P c) : (ask c).Asks P := by
  intro σ driver w e he
  rw [List.mem_singleton.mp he]
  exact hc

theorem Asks.bind {x : Flow α} {f : α → Flow β} (hx : x.Asks P) (hf : ∀ a, (f a).Asks P) :
    (x >>= f).Asks P := by
  intro σ driver w e he
  rw [exchanges_bind, List.mem_append] at he
  rcases he with he | he
  · exact hx σ driver w e he
  · split at he
    next a w' _ => exact hf a σ driver w' e he
    · cases he

/-- After an offline flow, the calls that follow may rely on what it yields. -/
theorem Yields.asks_bind {x : Flow α} {f : α → Flow β} {Q : α → Prop} (hoffline : Offline x)
    (hx : x.Yields Q) (hf : ∀ a, Q a → (f a).Asks P) : (x >>= f).Asks P := by
  intro σ driver w e he
  rw [exchanges_bind, hoffline.exchanges_eq, List.nil_append, hoffline.run_eq] at he
  rcases hx.draw w.supply with ⟨a, s, hdraw, hQ, -⟩ | ⟨e', s, hdraw, -⟩
  · rw [hdraw] at he
    exact hf a hQ σ driver ⟨s, w.store⟩ e he
  · rw [hdraw] at he
    cases he

/-- What every call with a property keeps of the state of a driver, a run of
    such calls keeps. -/
theorem run_keeps {driver : Driver σ} {I : σ → Prop}
    (hcall : ∀ c (w : World σ), P c → I w.store → I (driver.answer c w).2.store)
    {x : Flow α} (hx : x.Asks P) {w : World σ} (hw : I w.store) :
    I (x.run driver w).2.store := by
  -- the calls to come are those of this one run, so the induction is about them alone
  have hrun : ∀ e ∈ x.exchanges driver w, P e.call := hx σ driver w
  clear hx
  induction x generalizing w with
  | done r => exact hw
  | now next ih => exact ih _ hw hrun
  | fresh next ih => exact ih _ hw hrun
  | call c next ih =>
    have hc : P c := hrun _ List.mem_cons_self
    have hrest := fun e he => hrun e (List.mem_cons_of_mem _ he)
    exact ih _ (hcall c w hc hw) hrest

end Flow

namespace Engine

open Storage RecordGate.Flow

/-! ### The calls of a request -/

/-- A property that all calls have which the actions on a model can make. -/
structure Covers (m : Model) (P : Call → Prop) : Prop where
  /-- The lookup of a record. -/
  findOne : ∀ filter, P (.findOne m.collection filter)
  /-- The lookup of a list. -/
  findAll : ∀ filter, P (.findAll m.collection filter)
  /-- The insert of a create. -/
  insertOne : ∀ req c, (newValues m req c).Yields fun values => P (.insertOne m.collection values)
  /-- The write of an update. -/
  updateOne : ∀ req filter,
    (changedValues m req).Yields fun values => P (.updateOne m.collection filter values)
  /-- The removal of a delete. -/
  deleteOne : ∀ filter, P (.deleteOne m.collection filter)

variable {m : Model} {P : Call → Prop}

theorem bindContext_asks (h : Covers m P) (rule : Rule) (req : Request) :
    (bindContext m rule req).Asks P := by
  unfold bindContext
  dsimp only
  split
  · exact (offline_pure _).asks
  · split
    · exact (Offline.done _).asks
    next filter _ =>
      refine Asks.bind (asks_ask (h.findOne filter)) fun found => ?_
      cases found with
      | none => exact (Offline.done _).asks
      | some record => exact (offline_pure _).asks

theorem list_asks (h : Covers m P) (bound : Bound) : (list m bound).Asks P := by
  have hanswer : ∀ filter, (ask (.findAll m.collection filter) >>= fun (records : List Record) =>
      (pure (Response.ok (.arr (records.map (shown m)))) : Flow Response)).Asks P := by
    intro filter
    refine Asks.bind (asks_ask (h.findAll filter)) fun records => ?_
    exact (offline_pure _).asks
  unfold list
  dsimp only
  split
  · exact hanswer []
  · split
    · exact hanswer _
    · exact (offline_pure _).asks

/-- No action makes a call without the property. -/
theorem perform_asks (h : Covers m P) (action : Action) (req : Request) (bound : Bound) :
    (perform m action req bound).Asks P := by
  cases action with
  | create =>
    show (create m req bound).Asks P
    rw [create_eq]
    refine Yields.asks_bind (offline_newValues m req bound.context)
      (h.insertOne req bound.context) fun values hvalues => ?_
    refine Asks.bind (asks_ask hvalues) fun stored => ?_
    exact (offline_pure _).asks
  | list => exact list_asks h bound
  | read =>
    refine Asks.bind (offline_ofExcept _).asks fun record => ?_
    exact (offline_pure _).asks
  | update =>
    show (update m req bound).Asks P
    rw [update_eq]
    refine Asks.bind (offline_ofExcept _).asks fun record => ?_
    -- which filter follows depends on the record, but any filter is covered
    have hvalues : (changedValues m req).Yields fun values =>
        ∀ filter, P (.updateOne m.collection filter values) :=
      fun s values hdraw filter => h.updateOne req filter s values hdraw
    refine Yields.asks_bind (offline_changedValues m req) hvalues fun values hcovered => ?_
    refine Asks.bind (offline_ofExcept _).asks fun filter => ?_
    refine Asks.bind (asks_ask (hcovered filter)) fun updated => ?_
    cases updated with
    | none => exact (Offline.done _).asks
    | some record => exact (offline_pure _).asks
  | delete =>
    refine Asks.bind (offline_ofExcept _).asks fun record => ?_
    refine Asks.bind (offline_ofExcept _).asks fun filter => ?_
    refine Asks.bind (asks_ask (h.deleteOne filter)) fun deleted => ?_
    cases deleted with
    | false => exact (Offline.done _).asks
    | true => exact (offline_pure _).asks

/-- No request makes a call without the property. -/
theorem execute_asks {route : Route} (h : Covers route.model P) (action : Action)
    (req : Request) : (execute route action req).Asks P := by
  unfold execute
  split
  · exact (Offline.done _).asks
  next rule _ =>
    unfold handleRule
    refine Asks.bind (offline_ofExcept _).asks fun req' => ?_
    refine Asks.bind (bindContext_asks h rule req') fun bound => ?_
    refine Asks.bind (offline_ofExcept _).asks fun allowed => ?_
    exact perform_asks h action req' bound

end Engine

end RecordGate

import Mathlib.Data.List.Forall2
import RecordGate.Proofs.Session
import RecordGate.Proofs.StorageCalls

/-! # Fields that stay as they were created

  The identifier, the owner and every field that does not allow updates keep,
  until the record is deleted, what they held when it was created.

  **Key idea.** The storage is watched (`Chronicle`): beside every record
  stands that record as it was inserted. An insert adds one, a delete takes one
  out at the same place, and an update leaves them alone.

  - `Chronicle.run_forget`: watching changes nothing of a run.
  - `changedValues_spare`: no update of a model prepares a value for such a
    name (`WriteOnce`).
  - `Chronicle.answer_keeps` is the step: a call that spares these names keeps
    each record equal to its birth on them. `write_once` follows it through
    every session by `Flow.run_keeps`.
-/

namespace RecordGate

/-! ### Births -/

/-- A storage in memory, and for each collection the records as they were when
    they were inserted, in the order of the records. -/
structure Storage.Chronicle where
  /-- The records. -/
  memory : Storage.Memory
  /-- The records as they were inserted. -/
  births : Storage.Memory

namespace Storage.Chronicle

open RecordGate.Flow

/-- Nothing is stored. -/
def empty : Chronicle := ⟨Memory.empty, Memory.empty⟩

/-- The world without the births. -/
def forget (w : World Chronicle) : World Memory := ⟨w.supply, w.store.memory⟩

/-- The births after a call. -/
def birthsAfter (c : Call) (w : World Chronicle) : Memory :=
  match c with
  | .insertOne collection values =>
    let born := (withId values w.supply).1
    w.store.births.setRows collection (w.store.births.rows collection ++ [born])
  | .deleteOne collection filter =>
    match Memory.deleteFirst filter (w.store.memory.rows collection) with
    | some _ =>
      let place := (w.store.memory.rows collection).findIdx (accepts filter)
      w.store.births.setRows collection ((w.store.births.rows collection).eraseIdx place)
    | none => w.store.births
  | .findOne .. | .findAll .. | .updateOne .. => w.store.births

/-- The driver that keeps records in memory and notes their births. -/
def driver : Driver Chronicle where
  kind := Memory.driver.kind
  answer c w :=
    let answered := Memory.driver.answer c (forget w)
    (answered.1, ⟨answered.2.supply, answered.2.store, birthsAfter c w⟩)

/-- An update that finds a record changes the records alone. -/
theorem store_updateOne (collection : String) (filter values : Record) (w : World Chronicle) :
    (driver.answer (.updateOne collection filter values) w).2.store =
      match Memory.updateFirst filter values (w.store.memory.rows collection) with
      | some (_, rows) => ⟨w.store.memory.setRows collection rows, w.store.births⟩
      | none => w.store := by
  show Chronicle.mk (Memory.answer (.updateOne collection filter values) (forget w)).2.store
    w.store.births = _
  unfold Memory.answer forget
  dsimp only
  cases Memory.updateFirst filter values (w.store.memory.rows collection) with
  | none => rfl
  | some updated => rfl

/-- A delete that finds a record takes it out with its birth. -/
theorem store_deleteOne (collection : String) (filter : Record) (w : World Chronicle) :
    (driver.answer (.deleteOne collection filter) w).2.store =
      match Memory.deleteFirst filter (w.store.memory.rows collection) with
      | some rows => ⟨w.store.memory.setRows collection rows, w.store.births.setRows collection
          ((w.store.births.rows collection).eraseIdx
            ((w.store.memory.rows collection).findIdx (accepts filter)))⟩
      | none => w.store := by
  show Chronicle.mk (Memory.answer (.deleteOne collection filter) (forget w)).2.store
    (birthsAfter (.deleteOne collection filter) w) = _
  unfold Memory.answer birthsAfter forget
  dsimp only
  cases Memory.deleteFirst filter (w.store.memory.rows collection) with
  | none => rfl
  | some rows => rfl

/-- A watched run has the same result, and leaves the same records and the
    same supply. -/
theorem run_forget {α : Type} (x : Flow α) (w : World Chronicle) :
    x.run Memory.driver (forget w) = ((x.run driver w).1, forget (x.run driver w).2) := by
  induction x generalizing w with
  | done result => rfl
  | now next ih => exact ih w.supply.tick.1 ⟨w.supply.tick.2, w.store⟩
  | fresh next ih => exact ih w.supply.fresh.1 ⟨w.supply.fresh.2, w.store⟩
  | call c next ih => exact ih (driver.answer c w).1 (driver.answer c w).2

end Storage.Chronicle

/-! ### Collections beside their births -/

namespace Storage

variable {R : Record → Record → Prop} {filter values hit : Record}
  {births rows rows' : List Record}

/-- An update changes one record at most, and that by a merge. -/
theorem updateFirst_keeps (hrows : List.Forall₂ R births rows)
    (hmerge : ∀ born row, R born row → R born (row.merge values))
    (h : Memory.updateFirst filter values rows = some (hit, rows')) :
    List.Forall₂ R births rows' := by
  -- births and records are walked together up to the first hit
  induction hrows generalizing hit rows' with
  | nil => cases h
  | @cons born row births rows hrow hrest ih =>
    unfold Memory.updateFirst at h
    by_cases hacc : accepts filter row = true
    · rw [if_pos hacc] at h
      cases h
      exact .cons (hmerge born row hrow) hrest
    · rw [if_neg hacc] at h
      obtain ⟨⟨hit', rest'⟩, hupdated, hsame⟩ := Option.map_eq_some_iff.mp h
      cases hsame
      exact .cons hrow (ih hupdated)

/-- A delete takes a record out of its place. -/
theorem deleteFirst_keeps (hrows : List.Forall₂ R births rows)
    (h : Memory.deleteFirst filter rows = some rows') :
    List.Forall₂ R (births.eraseIdx (rows.findIdx (accepts filter))) rows' := by
  induction hrows generalizing rows' with
  | nil => cases h
  | @cons born row births rows hrow hrest ih =>
    unfold Memory.deleteFirst at h
    rw [List.findIdx_cons]
    by_cases hacc : accepts filter row = true
    · rw [if_pos hacc] at h
      cases h
      rw [hacc]
      exact hrest
    · rw [if_neg hacc] at h
      obtain ⟨rest', hdeleted, rfl⟩ := Option.map_eq_some_iff.mp h
      rw [Bool.eq_false_iff.mpr hacc]
      exact .cons hrow (ih hdeleted)

end Storage

namespace Engine

open Storage RecordGate.Flow

/-! ### What no update writes -/

/-- The names whose values stay: the identifier, the owner, and the fields that
    do not allow updates, except for the time of the last write where the
    updates of the model stamp it. -/
inductive WriteOnce (m : Model) : String → Prop where
  /-- The identifier. -/
  | identifier : WriteOnce m idField
  /-- The owner. -/
  | owner {k : String} (h : m.owner = some k) : WriteOnce m k
  /-- A field that does not allow updates. -/
  | field {f : Field} (hf : f ∈ m.fields) (hupdate : f.allows .update = false)
      (hstamp : f.name = Hook.updatedAt → ∀ hook ∈ m.updateHooks, hook.name ≠ "timestamps") :
      WriteOnce m f.name

variable {m : Model} {name hookName k : String} {decl : ModelDecl} {hook : Hook}

/-- The hooks of an update add no name but the time of the last write, which
    `timestamps` does. -/
theorem updateHook_lacks (h : Hook.ofName? hookName .update = some hook)
    (hk : k = Hook.updatedAt → hook.name ≠ "timestamps") (t : Time.Instant) {r : Record}
    (hr : Shape.Lacks k r) : Shape.Lacks k (hook.run t r) := by
  unfold Hook.ofName? at h
  split at h
  case h_1 hop => cases hop
  case h_2 =>
    cases h
    have hne : Hook.updatedAt ≠ k := fun hsame => hk hsame.symm rfl
    exact hr.insert hne _
  case h_3 hop => cases hop
  case h_4 =>
    cases h
    show (r.mapValues Hook.trimValue).get? k = none
    rw [Record.get?_mapValues, hr]
    rfl
  case h_5 => cases h

/-- No update has a value for such a name. -/
theorem changedValues_spare (hregister : Schema.register name decl = .ok m)
    (hnodup : (decl.fields.map Prod.fst).Nodup) (hk : WriteOnce m k) (req : Request) :
    (changedValues m req).Yields (Shape.Lacks k) := by
  cases hk with
  | identifier => exact changedValues_lacks (.inl (Schema.register_sealed hregister hnodup).update) req
  | owner h => exact changedValues_lacks (.inr h) req
  | @field f hf hupdate hstamp =>
    refine changedValues_lacks (.inl fun raw => ?_) req
    refine Shape.prepare_lacks raw (fun f' hf' hname => ?_) nofun fun hook hhook t r hr => ?_
    · rw [Schema.register_fields_inj hregister hnodup hf hf' hname]
      exact hupdate
    · obtain ⟨hookName, hook'⟩ := Schema.register_hooks hregister .update hook hhook
      exact updateHook_lacks hook' (fun hsame => hstamp hsame hook hhook) t hr

/-- A call that writes no such name into the records of a model. -/
def Spares (m : Model) : Call → Prop
  | .updateOne collection _ values =>
    collection = m.collection → ∀ k, WriteOnce m k → Shape.Lacks k values
  | .findOne .. | .findAll .. | .insertOne .. | .deleteOne .. => True

theorem covers_spares {text : String} {cfg : Config} (hcfg : Config.ofText text = .ok cfg)
    (hm : SoleModel cfg m) {m' : Model} (hm' : m' ∈ cfg.catalog.models) : Covers m' (Spares m) where
  findOne _ := trivial
  findAll _ := trivial
  insertOne _ _ := fun _ _ _ => trivial
  updateOne req _ := by
    intro s values hdraw hcollection k hk
    -- another model cannot write into the collection
    have hsame : m' = m := hm.only m' hm' hcollection
    subst hsame
    obtain ⟨name, decl, hregister, hnodup⟩ := Config.ofText_registered hcfg hm'
    exact changedValues_spare hregister hnodup hk req s values hdraw
  deleteOne _ := trivial

/-! ### What every session keeps -/

/-- A record that holds what it was created with under these names. -/
def Kept (m : Model) (born now : Record) : Prop :=
  ∀ k, WriteOnce m k → now.get? k = born.get? k

/-- A collection in which every record is kept. -/
def AllKept (m : Model) (c : Chronicle) : Prop :=
  List.Forall₂ (Kept m) (c.births.rows m.collection) (c.memory.rows m.collection)

/-- A call that spares these names keeps all records. -/
theorem Chronicle.answer_keeps {c : Call} {w : World Chronicle} (hc : Spares m c)
    (h : AllKept m w.store) : AllKept m (Chronicle.driver.answer c w).2.store := by
  cases c with
  | findOne collection filter => exact h
  | findAll collection filter => exact h
  | insertOne collection values =>
    -- the record stands beside itself
    show List.Forall₂ _ ((w.store.births.setRows collection _).rows m.collection)
      ((w.store.memory.setRows collection _).rows m.collection)
    rw [Memory.rows_setRows, Memory.rows_setRows]
    by_cases hsame : collection = m.collection
    · subst hsame
      rw [if_pos rfl, if_pos rfl]
      exact List.rel_append h (.cons (fun _ _ => rfl) .nil)
    · rw [if_neg hsame, if_neg hsame]
      exact h
  | updateOne collection filter values =>
    rw [Chronicle.store_updateOne]
    cases hupdate : Memory.updateFirst filter values (w.store.memory.rows collection) with
    | none => exact h
    | some updated =>
      obtain ⟨hit, rows⟩ := updated
      show List.Forall₂ _ (w.store.births.rows m.collection)
        ((w.store.memory.setRows collection rows).rows m.collection)
      rw [Memory.rows_setRows]
      by_cases hsame : collection = m.collection
      · -- the values that are merged in have none of the names
        subst hsame
        rw [if_pos rfl]
        refine updateFirst_keeps h (fun born row hrow k hk => ?_) hupdate
        rw [Record.get?_merge_of_none row (hc rfl k hk)]
        exact hrow k hk
      · rw [if_neg hsame]
        exact h
  | deleteOne collection filter =>
    rw [Chronicle.store_deleteOne]
    cases hdelete : Memory.deleteFirst filter (w.store.memory.rows collection) with
    | none => exact h
    | some rows =>
      show List.Forall₂ _ ((w.store.births.setRows collection _).rows m.collection)
        ((w.store.memory.setRows collection rows).rows m.collection)
      rw [Memory.rows_setRows, Memory.rows_setRows]
      by_cases hsame : collection = m.collection
      · subst hsame
        rw [if_pos rfl, if_pos rfl]
        exact deleteFirst_keeps h hdelete
      · rw [if_neg hsame, if_neg hsame]
        exact h

/-- The watched world that a visit leaves. -/
def watch (w : World Chronicle) (v : Visit) : World Chronicle :=
  ((execute v.route v.action v.request).run Chronicle.driver w).2

/-- The watched world that visits leave, one after the other. -/
def watched (visits : List Visit) (w : World Chronicle) : World Chronicle :=
  visits.foldl watch w

theorem watched_forget (visits : List Visit) (w : World Chronicle) :
    Chronicle.forget (watched visits w) = session visits (Chronicle.forget w) := by
  induction visits generalizing w with
  | nil => rfl
  | cons v rest ih =>
    have hstep : serve (Chronicle.forget w) v = Chronicle.forget (watch w v) := by
      unfold serve
      rw [Chronicle.run_forget]
      rfl
    show Chronicle.forget (watched rest (watch w v)) = session rest (serve (Chronicle.forget w) v)
    rw [hstep]
    exact ih (watch w v)

/-- A session keeps all records of a model that shares its collection with no
    other. -/
theorem watched_keeps {text : String} {cfg : Config} (hcfg : Config.ofText text = .ok cfg)
    (hm : SoleModel cfg m) {visits : List Visit} (hvisits : ∀ v ∈ visits, v.route ∈ cfg.routes)
    {w : World Chronicle} (h : AllKept m w.store) : AllKept m (watched visits w).store := by
  induction visits generalizing w with
  | nil => exact h
  | cons v rest ih =>
    have hmodel : v.route.model ∈ cfg.catalog.models :=
      (Config.ofText_compiled hcfg v.route (hvisits v List.mem_cons_self)).model
    have hasks : (execute v.route v.action v.request).Asks (Spares m) :=
      execute_asks (covers_spares hcfg hm hmodel) v.action v.request
    have hstep : AllKept m (watch w v).store :=
      run_keeps (fun c w hc hw => Chronicle.answer_keeps hc hw) hasks h
    exact ih (fun v' hv' => hvisits v' (List.mem_cons_of_mem _ hv')) hstep

/-- Under a checked configuration, watching a session from an empty storage
    changes nothing of it, and at its end every record of a model that shares
    its collection with no other holds what it was created with under the
    identifier, the owner and all fields that do not allow updates, except for
    the stamped time of the last write. -/
theorem write_once {text : String} {cfg : Config} (hcfg : Config.ofText text = .ok cfg)
    (hm : SoleModel cfg m) {visits : List Visit} (hvisits : ∀ v ∈ visits, v.route ∈ cfg.routes)
    (supply : Supply) :
    let w := watched visits ⟨supply, Chronicle.empty⟩
    Chronicle.forget w = session visits ⟨supply, Memory.empty⟩ ∧
      List.Forall₂ (fun born now => ∀ k, WriteOnce m k → now.get? k = born.get? k)
        (w.store.births.rows m.collection) (w.store.memory.rows m.collection) := by
  intro w
  have hempty : AllKept m Chronicle.empty := .nil
  exact ⟨watched_forget visits ⟨supply, Chronicle.empty⟩, watched_keeps hcfg hm hvisits hempty⟩

/-- Ann takes a note at noon and changes that to dusk. She stays its author,
    although she says that it is Bob's. -/
theorem notes_kept :
    ∃ cfg m route, Config.ofText Config.notes = .ok cfg ∧ SoleModel cfg m ∧ route ∈ cfg.routes ∧
      let ann : Caller := .authenticated ⟨"ann", [], none, none, []⟩
      let take : Visit := ⟨route, .create, ⟨[], some (.obj [("at", .str "noon")]), ann⟩⟩
      let change : Visit := ⟨route, .update, ⟨[("_id", (Supply.still.ids 0).toHex)],
        some (.obj [("at", .str "dusk"), ("by", .str "bob")]), ann⟩⟩
      let w := watched [take, change] ⟨Supply.still, Chronicle.empty⟩
      (w.store.births.rows m.collection).map (Record.get? · "at") = [some (.str "noon")] ∧
      (w.store.memory.rows m.collection).map (Record.get? · "at") = [some (.str "dusk")] ∧
      List.Forall₂ (fun born now => ∀ k, WriteOnce m k → now.get? k = born.get? k)
        (w.store.births.rows m.collection) (w.store.memory.rows m.collection) := by
  have htest : okAnd (Config.ofDecl Config.notesDecl) (fun cfg => cfg.onlyAnd fun m route =>
      let ann : Caller := .authenticated ⟨"ann", [], none, none, []⟩
      let take : Visit := ⟨route, .create, ⟨[], some (.obj [("at", .str "noon")]), ann⟩⟩
      let change : Visit := ⟨route, .update, ⟨[("_id", (Supply.still.ids 0).toHex)],
        some (.obj [("at", .str "dusk"), ("by", .str "bob")]), ann⟩⟩
      let w := watched [take, change] ⟨Supply.still, Chronicle.empty⟩
      decide ((w.store.births.rows m.collection).map (Record.get? · "at") =
        [some (.str "noon")]) &&
      decide ((w.store.memory.rows m.collection).map (Record.get? · "at") =
        [some (.str "dusk")])) = true := by decide +kernel
  obtain ⟨cfg, hdecl, htest⟩ := okAnd_iff.mp htest
  have hcfg : Config.ofText Config.notes = .ok cfg := Config.ofText_notes.trans hdecl
  obtain ⟨m, route, hmodels, hroutes, htest⟩ := Config.onlyAnd_iff.mp htest
  rw [Bool.and_eq_true, decide_eq_true_eq, decide_eq_true_eq] at htest
  have hm : SoleModel cfg m := soleModel_of_single hmodels
  have hroute : route ∈ cfg.routes := by
    rw [hroutes]
    exact List.mem_singleton.mpr rfl
  refine ⟨cfg, m, route, hcfg, hm, hroute, ?_⟩
  intro ann take change w
  have hvisits : ∀ v ∈ [take, change], v.route ∈ cfg.routes := by
    intro v hv
    rcases List.mem_cons.mp hv with rfl | hv
    · exact hroute
    · rw [List.mem_singleton.mp hv]
      exact hroute
  exact ⟨htest.1, htest.2, (write_once hcfg hm hvisits Supply.still).2⟩

end Engine

end RecordGate

import RecordGate.Proofs.CallOrder
import RecordGate.Proofs.WriteOnce

/-! # Requests that interleave

  Any number of requests share one storage in memory. At every moment the next
  question of any of them is answered, be it to the clock, to the source of
  identifiers or to the storage, so whatever one request has read may be old
  when it writes.

  **Key idea.** What a step can do is said once (`Progress`): a request
  arrives, one draws on the supply, or one makes a storage call, and this call
  turns the collection of a model in one of four ways (`Turn`).

  - `Followed`: a record that was read, and the record that stands under its
    identifier now, agree on everything that no update writes. Identifiers are
    not handed out twice, so this holds even if the record is gone.
  - `Sound` is the invariant of all requests on their way, and
    `Sound.progress` its step.
  - `Sound.carry` and `Reached.carry`: what holds at first and is kept by every
    step in sound states holds after all events.
-/

namespace RecordGate

namespace Storage

/-! ### What a call leaves alone -/

variable {collection : String} {w : World Memory}

/-- A call leaves all collections but its own. -/
theorem rows_answer_other {c : Call} (h : c.collection ≠ collection) (w : World Memory) :
    (Memory.answer c w).2.store.rows collection = w.store.rows collection := by
  have hset : ∀ rows, (w.store.setRows c.collection rows).rows collection =
      w.store.rows collection := by
    intro rows
    rw [Memory.rows_setRows, if_neg h]
  cases c with
  | findOne changed filter => rfl
  | findAll changed filter => rfl
  | insertOne changed values => exact hset _
  | updateOne changed filter values =>
    rcases hit_or_missed filter (w.store.rows changed) with ⟨before, row, after, hit⟩ | hmissed
    · rw [hit.answer_updateOne]
      exact hset _
    · rw [answer_updateOne_missed hmissed]
  | deleteOne changed filter =>
    rcases hit_or_missed filter (w.store.rows changed) with ⟨before, row, after, hit⟩ | hmissed
    · rw [hit.answer_deleteOne]
      exact hset _
    · rw [answer_deleteOne_missed hmissed]

end Storage

namespace Engine

open Storage RecordGate.Flow

/-! ### Requests on their way -/

/-- A request on its way. -/
structure Task where
  /-- The request. -/
  visit : Visit
  /-- Its storage calls so far. -/
  log : List Exchange
  /-- What is left of it. -/
  rest : Flow Response

/-- A request before its first question. -/
def Task.ofVisit (v : Visit) : Task := ⟨v, [], execute v.route v.action v.request⟩

/-- Requests that share a storage. -/
structure Traffic where
  /-- The supply and the storage. -/
  world : World Memory
  /-- The storage calls so far, of all requests. -/
  journal : List Exchange
  /-- The requests, in the order in which they arrived. -/
  tasks : List Task

/-- What happens next. -/
inductive Event where
  /-- A request arrives. -/
  | arrive (v : Visit)
  /-- The next question of a request is answered. -/
  | proceed (i : Nat)

namespace Traffic

/-- Nothing is stored, and no request is on its way. -/
def start (supply : Supply) : Traffic := ⟨⟨supply, Memory.empty⟩, [], []⟩

/-- The next question of a request is answered, if it has one. -/
def answer (s : Traffic) (i : Nat) (t : Task) : Traffic :=
  match t.rest with
  | .done _ => s
  | .now next =>
    { s with
      world := ⟨s.world.supply.tick.2, s.world.store⟩
      tasks := s.tasks.set i { t with rest := next s.world.supply.tick.1 } }
  | .fresh next =>
    { s with
      world := ⟨s.world.supply.fresh.2, s.world.store⟩
      tasks := s.tasks.set i { t with rest := next s.world.supply.fresh.1 } }
  | .call c next =>
    let (answer, world) := Memory.driver.answer c s.world
    { world := world
      journal := s.journal ++ [⟨c, answer⟩]
      tasks := s.tasks.set i { t with log := t.log ++ [⟨c, answer⟩], rest := next answer } }

/-- One event. -/
def step (s : Traffic) : Event → Traffic
  | .arrive v => { s with tasks := s.tasks ++ [Task.ofVisit v] }
  | .proceed i =>
    match s.tasks[i]? with
    | none => s
    | some t => s.answer i t

/-- Events, one after the other. -/
def after (s : Traffic) (events : List Event) : Traffic :=
  events.foldl step s

theorem after_nil (s : Traffic) : s.after [] = s := rfl

end Traffic

/-- All requests that arrive are for routes of a configuration. -/
def Routed (cfg : Config) (events : List Event) : Prop :=
  ∀ v, .arrive v ∈ events → v.route ∈ cfg.routes

/-! ### What a storage call does to a collection -/

/-- An exchange that leaves the collection of a model. -/
inductive Quiet (m : Model) : Exchange → Prop where
  /-- It is about another collection. -/
  | elsewhere {e : Exchange} (h : e.call.collection ≠ m.collection) : Quiet m e
  /-- It looks for one record. -/
  | findOne (filter : Record) (answer : Except Error (Option Record)) :
      Quiet m ⟨.findOne m.collection filter, answer⟩
  /-- It looks for many. -/
  | findAll (filter : Record) (answer : Except Error (List Record)) :
      Quiet m ⟨.findAll m.collection filter, answer⟩
  /-- It finds nothing to update. -/
  | updated (filter values : Record) :
      Quiet m ⟨.updateOne m.collection filter values, .ok none⟩
  /-- It finds nothing to delete. -/
  | deleted (filter : Record) : Quiet m ⟨.deleteOne m.collection filter, .ok false⟩

/-- What the storage call of a request does to the collection of a model. -/
inductive Turn (m : Model) (w : World Memory) : Exchange → World Memory → Prop where
  /-- Nothing. -/
  | quiet {e : Exchange} {w' : World Memory} (quiet : Quiet m e)
      (later : w.supply.Later w'.supply)
      (rows : w'.store.rows m.collection = w.store.rows m.collection) : Turn m w e w'
  /-- A record with a fresh identifier goes to the end. -/
  | inserted {values record : Record} (lacks : Shape.Lacks idField values)
      (record_eq : record = values.insert idField (.str w.supply.fresh.1.toHex)) :
      Turn m w ⟨.insertOne m.collection values, .ok record⟩
        ⟨w.supply.fresh.2, w.store.setRows m.collection (w.store.rows m.collection ++ [record])⟩
  /-- Values are merged into the record of an identifier. -/
  | updated {id : String} {values row : Record} {before after : List Record}
      (hit : FirstHit [(idField, .str id)] (w.store.rows m.collection) before row after)
      (spares : ∀ k, WriteOnce m k → Shape.Lacks k values) :
      Turn m w ⟨.updateOne m.collection [(idField, .str id)] values, .ok (some (row.merge values))⟩
        ⟨w.supply, w.store.setRows m.collection (before ++ row.merge values :: after)⟩
  /-- The record of an identifier is taken out. -/
  | deleted {id : String} {row : Record} {before after : List Record}
      (hit : FirstHit [(idField, .str id)] (w.store.rows m.collection) before row after) :
      Turn m w ⟨.deleteOne m.collection [(idField, .str id)], .ok true⟩
        ⟨w.supply, w.store.setRows m.collection (before ++ after)⟩

variable {cfg : Config} {text : String} {m : Model} {w w' : World Memory} {e : Exchange}

theorem Turn.later (h : Turn m w e w') : w.supply.Later w'.supply := by
  cases h with
  | quiet _ later _ => exact later
  | inserted _ _ => exact Supply.later_fresh _
  | updated _ _ => exact Supply.later_refl _
  | deleted _ => exact Supply.later_refl _

/-- Minted records stay so. -/
theorem Turn.minted (h : Turn m w e w')
    (hrows : Minted w.supply (w.store.rows m.collection)) :
    Minted w'.supply (w'.store.rows m.collection) := by
  cases h with
  | quiet _ later rows =>
    rw [rows]
    exact hrows.later later
  | inserted _ record_eq =>
    show Minted _ ((w.store.setRows _ _).rows _)
    rw [Memory.rows_setRows, if_pos rfl, record_eq]
    exact hrows.append (by rw [Record.get?_insert, if_pos rfl])
  | updated hit spares =>
    show Minted _ ((w.store.setRows _ _).rows _)
    rw [Memory.rows_setRows, if_pos rfl]
    exact hrows.updated hit (spares _ .identifier)
  | deleted hit =>
    show Minted _ ((w.store.setRows _ _).rows _)
    rw [Memory.rows_setRows, if_pos rfl]
    exact hrows.deleted hit

/-- A record of the collection was there before, apart from what updates write,
    or it is new. -/
theorem Turn.origin (h : Turn m w e w') {row : Record}
    (hrow : row ∈ w'.store.rows m.collection) :
    (∃ old ∈ w.store.rows m.collection, ∀ k, WriteOnce m k → row.get? k = old.get? k) ∨
      w'.supply = w.supply.fresh.2 ∧
        row.get? idField = some (.str (w.supply.ids w.supply.issued).toHex) := by
  cases h with
  | quiet _ _ rows =>
    rw [rows] at hrow
    exact .inl ⟨row, hrow, fun _ _ => rfl⟩
  | inserted _ record_eq =>
    have hrow : row ∈ (w.store.setRows m.collection _).rows m.collection := hrow
    rw [Memory.rows_setRows, if_pos rfl] at hrow
    rcases List.mem_append.mp hrow with hrow | hrow
    · exact .inl ⟨row, hrow, fun _ _ => rfl⟩
    · refine .inr ⟨rfl, ?_⟩
      rw [List.mem_singleton.mp hrow, record_eq, Record.get?_insert, if_pos rfl]
      rfl
  | @updated id values hitRow before after hit spares =>
    have hrow : row ∈ (w.store.setRows m.collection _).rows m.collection := hrow
    rw [Memory.rows_setRows, if_pos rfl] at hrow
    rcases mem_replaced hrow with rfl | hrow
    · -- the values that are merged in have none of the names
      exact .inl ⟨hitRow, hit.mem, fun k hk => Record.get?_merge_of_none _ (spares k hk)⟩
    · exact .inl ⟨row, hit.mem_rest hrow, fun _ _ => rfl⟩
  | @deleted id hitRow before after hit =>
    have hrow : row ∈ (w.store.setRows m.collection _).rows m.collection := hrow
    rw [Memory.rows_setRows, if_pos rfl] at hrow
    exact .inl ⟨row, hit.mem_rest hrow, fun _ _ => rfl⟩

/-! ### Records that were read -/

/-- A record with an identifier that was handed out. What stands under this
    identifier, if anything, agrees with the record on all that no update
    writes. -/
structure Followed (m : Model) (w : World Memory) (record : Record) : Prop where
  /-- The identifier was handed out. -/
  issued : ∃ k < w.supply.issued, record.get? idField = some (.str (w.supply.ids k).toHex)
  /-- What stands under it now is as it was. -/
  agrees : ∀ row ∈ w.store.rows m.collection, row.get? idField = record.get? idField →
    ∀ k, WriteOnce m k → row.get? k = record.get? k

/-- A record is followed from when it is read. -/
theorem followed_of_mem {record : Record} (hrows : Minted w.supply (w.store.rows m.collection))
    (hdistinct : w.supply.Distinct) (hmem : record ∈ w.store.rows m.collection) :
    Followed m w record where
  issued := hrows.issued hmem
  agrees row hrow hid k _ := by
    -- two records with one identifier are the same record
    rw [(hrows.identified hdistinct).eq_of_id hrow hmem hid]

theorem Followed.later {record : Record} (h : Followed m w record)
    (hlater : w.supply.Later w'.supply)
    (hrows : w'.store.rows m.collection = w.store.rows m.collection) : Followed m w' record where
  issued := by
    obtain ⟨k, hk, hid⟩ := h.issued
    rw [hlater.ids]
    exact ⟨k, Nat.lt_of_lt_of_le hk hlater.issued, hid⟩
  agrees := by
    rw [hrows]
    exact h.agrees

/-- Whatever a call does, a record that was read stays followed. -/
theorem Followed.turn {record : Record} (h : Followed m w record) (hturn : Turn m w e w')
    (hdistinct : w'.supply.Distinct) : Followed m w' record := by
  obtain ⟨k, hk, hid⟩ := h.issued
  refine ⟨?_, fun row hrow hsame j hj => ?_⟩
  · rw [hturn.later.ids]
    exact ⟨k, Nat.lt_of_lt_of_le hk hturn.later.issued, hid⟩
  · rcases hturn.origin hrow with ⟨old, hold, hkept⟩ | ⟨hsupply, hnew⟩
    · have hid' : old.get? idField = record.get? idField :=
        (hkept idField .identifier).symm.trans hsame
      exact (hkept j hj).trans (h.agrees old hold hid' j hj)
    · rw [hsupply] at hdistinct
      rw [hnew, hid, Option.some.injEq, Json.str.injEq] at hsame
      exact absurd hsame (Supply.fresh_ne hk hdistinct)

/-! ### The call of a request -/

/-- The call of an action on a model turns its collection in one of the four
    ways, if the loaded record has a text for its identifier. -/
theorem turn_of_acts
    (hregister : ∃ name decl, Schema.register name decl = .ok m ∧ (decl.fields.map Prod.fst).Nodup)
    (howner : m.owner ≠ some idField) {action : Action} {req : Request} {bound : Bound} {c : Call}
    {next : Except Error c.Answer → Flow Response}
    (htexts : ∀ record, bound.resource = some record → ∃ id, record.get? idField = some (.str id))
    (hacts : Acts m req bound action c next) :
    Turn m w ⟨c, (Memory.driver.answer c w).1⟩ (Memory.driver.answer c w).2 := by
  obtain ⟨name, decl, hregister, hnodup⟩ := hregister
  have hsealed : m.Sealed := Schema.register_sealed hregister hnodup
  -- a loaded record is found again by the text of its identifier
  have hagain : ∀ record filter, bound.resource = some record → byId record = .ok filter →
      ∃ id, filter = [(idField, .str id)] := by
    intro record filter hloaded hfilter
    obtain ⟨id, hid⟩ := htexts record hloaded
    exact ⟨id, Except.ok.inj (hfilter.symm.trans (byId_text hid))⟩
  cases hacts with
  | @created values drawn =>
    have hlacks : Shape.Lacks idField values :=
      (newValues_lacks hsealed req bound.context).of_trail (offline_newValues _ _ _) drawn howner
    have hanswer : Memory.driver.answer (.insertOne m.collection values) w =
        (.ok (withId values w.supply).1, ⟨(withId values w.supply).2, w.store.setRows m.collection
          (w.store.rows m.collection ++ [(withId values w.supply).1])⟩) := rfl
    rw [hanswer, withId_of_lacks hlacks]
    exact .inserted hlacks rfl
  | listed _ => exact .quiet (.findAll _ _) (Supply.later_refl _) rfl
  | @updated record filter values loaded again drawn =>
    obtain ⟨id, rfl⟩ := hagain record filter loaded again
    rcases hit_or_missed [(idField, .str id)] (w.store.rows m.collection) with
      ⟨before, row, after, hit⟩ | hmissed
    · have hspares : ∀ k, WriteOnce m k → Shape.Lacks k values := fun k hk =>
        (changedValues_spare hregister hnodup hk req).of_trail (offline_changedValues _ _) drawn
      have hanswer : Memory.driver.answer (.updateOne m.collection [(idField, .str id)] values) w =
          (.ok (some (row.merge values)), ⟨w.supply, w.store.setRows m.collection
            (before ++ row.merge values :: after)⟩) := by
        show (Except.ok _, _) = _
        rw [hit.answer_updateOne]
      rw [hanswer]
      exact .updated hit hspares
    · have hanswer : Memory.driver.answer (.updateOne m.collection [(idField, .str id)] values) w =
          (.ok none, w) := by
        show (Except.ok _, _) = _
        rw [answer_updateOne_missed hmissed]
      rw [hanswer]
      exact .quiet (.updated _ _) (Supply.later_refl _) rfl
  | @deleted record filter loaded again =>
    obtain ⟨id, rfl⟩ := hagain record filter loaded again
    rcases hit_or_missed [(idField, .str id)] (w.store.rows m.collection) with
      ⟨before, row, after, hit⟩ | hmissed
    · have hanswer : Memory.driver.answer (.deleteOne m.collection [(idField, .str id)]) w =
          (.ok true, ⟨w.supply, w.store.setRows m.collection (before ++ after)⟩) := by
        show (Except.ok _, _) = _
        rw [hit.answer_deleteOne]
      rw [hanswer]
      exact .deleted hit
    · have hanswer : Memory.driver.answer (.deleteOne m.collection [(idField, .str id)]) w =
          (.ok false, w) := by
        show (Except.ok _, _) = _
        rw [answer_deleteOne_missed hmissed]
      rw [hanswer]
      exact .quiet (.deleted _) (Supply.later_refl _) rfl

/-- A request whose lookup found records with texts for identifiers turns the
    collection of a model, with its next call, in one of the four ways. -/
theorem turn_of_trail (hcfg : Config.ofText text = .ok cfg) (hm : SoleModel cfg m)
    (howner : m.owner ≠ some idField) {route : Route} (hroute : route ∈ cfg.routes)
    {action : Action} {req : Request} {log : List Exchange} {c : Call}
    {next : Except Error c.Answer → Flow Response}
    (htrail : Trail (execute route action req) log (.call c next))
    (htexts : ∀ filter record, found m filter record ∈ log →
      ∃ id, record.get? idField = some (.str id)) :
    Turn m w ⟨c, (Memory.driver.answer c w).1⟩ (Memory.driver.answer c w).2 := by
  have hmodel : route.model ∈ cfg.catalog.models := (Config.ofText_compiled hcfg route hroute).model
  by_cases hsame : c.collection = m.collection
  · rcases execute_paused htrail with ⟨-, rule, lookup, -, -, rfl⟩ | ⟨bound, hclears, hacts⟩
    · have hroute : route.model = m := hm.only _ hmodel hsame
      subst hroute
      exact .quiet (.findOne lookup _) (Supply.later_refl _) rfl
    · have hroute : route.model = m := by
        cases hacts <;> exact hm.only _ hmodel hsame
      subst hroute
      exact turn_of_acts (Config.ofText_registered hcfg hmodel) howner (fun record hloaded => by
        obtain ⟨filter, hfound⟩ := hclears.found hloaded
        exact htexts filter record hfound) hacts
  · exact .quiet (.elsewhere hsame) (later_answer c w) (rows_answer_other hsame w)

/-! ### The invariant -/

section tasks
variable {tasks : List Task} {i : Nat} {t t' : Task}

theorem forall_mem_set {P : Task → Prop} (h : ∀ t ∈ tasks, P t) (ht' : P t') :
    ∀ t ∈ tasks.set i t', P t := by
  intro t ht
  rcases List.mem_or_eq_of_mem_set ht with ht | rfl
  · exact h t ht
  · exact ht'

/-- A call that a request has made stays among the calls of all requests. -/
theorem exists_mem_set {e : Exchange} (ht : tasks[i]? = some t) (hlog : e ∈ t.log → e ∈ t'.log)
    (h : ∃ t ∈ tasks, e ∈ t.log) : ∃ t ∈ tasks.set i t', e ∈ t.log := by
  obtain ⟨t₀, ht₀, he⟩ := h
  obtain ⟨j, hj⟩ := List.mem_iff_getElem?.mp ht₀
  by_cases hij : i = j
  · subst hij
    obtain rfl : t = t₀ := Option.some.inj (ht.symm.trans hj)
    exact ⟨t', List.mem_set (List.getElem?_eq_some_iff.mp ht).1 t', hlog he⟩
  · refine ⟨t₀, List.mem_of_getElem? (i := j) ?_, he⟩
    rw [List.getElem?_set_ne hij]
    exact hj

end tasks

/-- What is true of the requests on their way and of the collection of a model,
    however they interleave. -/
structure Sound (cfg : Config) (m : Model) (s : Traffic) : Prop where
  /-- The records have identifiers that were handed out. -/
  minted : Minted s.world.supply (s.world.store.rows m.collection)
  /-- The requests are for routes of the configuration. -/
  routed : ∀ t ∈ s.tasks, t.visit.route ∈ cfg.routes
  /-- Each has come to what is left of it. -/
  trails : ∀ t ∈ s.tasks,
    Trail (execute t.visit.route t.visit.action t.visit.request) t.log t.rest
  /-- What a lookup found is followed. -/
  followed : ∀ t ∈ s.tasks, ∀ filter record, found m filter record ∈ t.log →
    accepts filter record = true ∧ Followed m s.world record
  /-- Every call is that of a request. -/
  journaled : ∀ e ∈ s.journal, ∃ t ∈ s.tasks, e ∈ t.log

/-- What one event can do. -/
inductive Progress (cfg : Config) (m : Model) (s : Traffic) : Traffic → Prop where
  /-- Nothing. -/
  | idle : Progress cfg m s s
  /-- A request arrives. -/
  | arrived (v : Visit) (routed : v.route ∈ cfg.routes) :
      Progress cfg m s { s with tasks := s.tasks ++ [Task.ofVisit v] }
  /-- A request draws on the supply. -/
  | drew {i : Nat} {t : Task} {rest : Flow Response} {supply : Supply}
      (task : s.tasks[i]? = some t) (later : s.world.supply.Later supply)
      (trail : Trail t.rest [] rest) :
      Progress cfg m s { s with
        world := ⟨supply, s.world.store⟩
        tasks := s.tasks.set i { t with rest := rest } }
  /-- A request makes a storage call. -/
  | called {i : Nat} {t : Task} {c : Call} {next : Except Error c.Answer → Flow Response}
      (task : s.tasks[i]? = some t) (rest_eq : t.rest = .call c next)
      (turn : Turn m s.world ⟨c, (Memory.driver.answer c s.world).1⟩
        (Memory.driver.answer c s.world).2) :
      Progress cfg m s {
        world := (Memory.driver.answer c s.world).2
        journal := s.journal ++ [⟨c, (Memory.driver.answer c s.world).1⟩]
        tasks := s.tasks.set i { t with
          log := t.log ++ [⟨c, (Memory.driver.answer c s.world).1⟩]
          rest := next (Memory.driver.answer c s.world).1 } }

section invariant
variable {s s' : Traffic}

theorem sound_start (cfg : Config) (m : Model) (supply : Supply) :
    Sound cfg m (Traffic.start supply) where
  minted := minted_nil supply
  routed _ ht := absurd ht List.not_mem_nil
  trails _ ht := absurd ht List.not_mem_nil
  followed _ ht := absurd ht List.not_mem_nil
  journaled _ he := absurd he List.not_mem_nil

/-- An event in a sound state does one of these things. -/
theorem Sound.step (hcfg : Config.ofText text = .ok cfg) (hm : SoleModel cfg m)
    (howner : m.owner ≠ some idField) (hs : Sound cfg m s) {event : Event}
    (hevent : ∀ v, event = .arrive v → v.route ∈ cfg.routes) : Progress cfg m s (s.step event) := by
  cases event with
  | arrive v => exact .arrived v (hevent v rfl)
  | proceed i =>
    show Progress cfg m s (match s.tasks[i]? with | none => s | some t => s.answer i t)
    cases htask : s.tasks[i]? with
    | none => exact .idle
    | some t =>
      have hmem : t ∈ s.tasks := List.mem_of_getElem? htask
      have htrail := hs.trails t hmem
      have hfollowed := hs.followed t hmem
      have hroute := hs.routed t hmem
      obtain ⟨visit, log, rest⟩ := t
      cases rest with
      | done result => exact .idle
      | now next => exact .drew htask (Supply.later_tick _) (.now _ (.here _))
      | fresh next => exact .drew htask (Supply.later_fresh _) (.fresh _ (.here _))
      | call c next =>
        refine .called htask rfl (turn_of_trail hcfg hm howner hroute htrail ?_)
        intro filter record hfound
        obtain ⟨k, -, hid⟩ := (hfollowed filter record hfound).2.issued
        exact ⟨_, hid⟩

theorem Progress.later (h : Progress cfg m s s') : s.world.supply.Later s'.world.supply := by
  cases h with
  | idle => exact Supply.later_refl _
  | arrived _ _ => exact Supply.later_refl _
  | drew _ later _ => exact later
  | called _ _ turn => exact turn.later

/-- What a lookup has just found is followed. -/
theorem followed_of_found {c : Call} {filter record : Record}
    (hrows : Minted w.supply (w.store.rows m.collection)) (hdistinct : w.supply.Distinct)
    (h : found m filter record = ⟨c, (Memory.driver.answer c w).1⟩) :
    accepts filter record = true ∧ Followed m w record := by
  obtain ⟨before, after, hit⟩ := find?_eq_some_iff.mp (find?_of_found h).2
  exact ⟨hit.hit, followed_of_mem hrows hdistinct hit.mem⟩

/-- Every event keeps a sound state sound. -/
theorem Sound.progress (hs : Sound cfg m s) (h : Progress cfg m s s')
    (hdistinct : s'.world.supply.Distinct) : Sound cfg m s' := by
  have hearlier : s.world.supply.Distinct := hdistinct.earlier h.later
  cases h with
  | idle => exact hs
  | arrived v routed =>
    refine ⟨hs.minted, ?_, ?_, ?_, ?_⟩
    · exact List.forall_mem_append.mpr ⟨hs.routed, List.forall_mem_singleton.mpr routed⟩
    · exact List.forall_mem_append.mpr ⟨hs.trails, List.forall_mem_singleton.mpr (.here _)⟩
    · have hnone : ∀ filter record, found m filter record ∈ (Task.ofVisit v).log →
          accepts filter record = true ∧ Followed m s.world record :=
        fun _ _ hfound => absurd hfound List.not_mem_nil
      exact List.forall_mem_append.mpr ⟨hs.followed, List.forall_mem_singleton.mpr hnone⟩
    · intro e he
      obtain ⟨t, ht, hlog⟩ := hs.journaled e he
      exact ⟨t, List.mem_append_left _ ht, hlog⟩
  | @drew i t rest supply task later trail =>
    have hmem : t ∈ s.tasks := List.mem_of_getElem? task
    have hfollowed : ∀ t ∈ s.tasks, ∀ filter record, found m filter record ∈ t.log →
        accepts filter record = true ∧ Followed m ⟨supply, s.world.store⟩ record := by
      intro t ht filter record hfound
      obtain ⟨haccepts, hold⟩ := hs.followed t ht filter record hfound
      exact ⟨haccepts, hold.later later rfl⟩
    refine ⟨hs.minted.later later, ?_, ?_, ?_, ?_⟩
    · exact forall_mem_set hs.routed (hs.routed t hmem)
    · refine forall_mem_set hs.trails ?_
      have htrail := (hs.trails t hmem).trans trail
      rwa [List.append_nil] at htrail
    · exact forall_mem_set hfollowed (hfollowed t hmem)
    · intro e he
      obtain ⟨t', ht', hlog⟩ := hs.journaled e he
      exact exists_mem_set task (fun h => h) ⟨t', ht', hlog⟩
  | @called i t c next task rest_eq turn =>
    have hmem : t ∈ s.tasks := List.mem_of_getElem? task
    have hfollowed : ∀ t ∈ s.tasks, ∀ filter record, found m filter record ∈ t.log →
        accepts filter record = true ∧ Followed m (Memory.driver.answer c s.world).2 record := by
      intro t ht filter record hfound
      obtain ⟨haccepts, hold⟩ := hs.followed t ht filter record hfound
      exact ⟨haccepts, hold.turn turn hdistinct⟩
    refine ⟨turn.minted hs.minted, ?_, ?_, ?_, ?_⟩
    · exact forall_mem_set hs.routed (hs.routed t hmem)
    · refine forall_mem_set hs.trails ?_
      have htrail := hs.trails t hmem
      rw [rest_eq] at htrail
      exact htrail.trans (.call _ (.here _))
    · refine forall_mem_set hfollowed ?_
      intro filter record hfound
      rcases List.mem_append.mp hfound with hfound | hfound
      · exact hfollowed t hmem filter record hfound
      · obtain ⟨haccepts, hnow⟩ :=
          followed_of_found hs.minted hearlier (List.mem_singleton.mp hfound)
        exact ⟨haccepts, hnow.turn turn hdistinct⟩
    · intro e he
      rcases List.mem_append.mp he with he | he
      · exact exists_mem_set task (List.mem_append_left _) (hs.journaled e he)
      · refine ⟨_, List.mem_set (List.getElem?_eq_some_iff.mp task).1 _, ?_⟩
        exact List.mem_append_right _ he

theorem later_step (s : Traffic) (event : Event) :
    s.world.supply.Later (s.step event).world.supply := by
  cases event with
  | arrive v => exact Supply.later_refl _
  | proceed i =>
    show s.world.supply.Later
      (match s.tasks[i]? with | none => s | some t => s.answer i t).world.supply
    cases s.tasks[i]? with
    | none => exact Supply.later_refl _
    | some t =>
      obtain ⟨visit, log, rest⟩ := t
      cases rest with
      | done result => exact Supply.later_refl _
      | now next => exact Supply.later_tick _
      | fresh next => exact Supply.later_fresh _
      | call c next => exact later_answer c s.world

theorem later_after (s : Traffic) (events : List Event) :
    s.world.supply.Later (s.after events).world.supply := by
  induction events generalizing s with
  | nil => exact Supply.later_refl _
  | cons event rest ih => exact (later_step s event).trans (ih (s.step event))

/-- What holds of a sound state, and is kept by every event in sound states,
    holds after all events. -/
theorem Sound.carry (hcfg : Config.ofText text = .ok cfg) (hm : SoleModel cfg m)
    (howner : m.owner ≠ some idField) {P : Traffic → Prop}
    (hstep : ∀ s s', Sound cfg m s → Progress cfg m s s' → s'.world.supply.Distinct → P s → P s')
    {events : List Event} (hevents : Routed cfg events)
    (hdistinct : (s.after events).world.supply.Distinct) (hs : Sound cfg m s) (hP : P s) :
    Sound cfg m (s.after events) ∧ P (s.after events) := by
  induction events generalizing s with
  | nil => exact ⟨hs, hP⟩
  | cons event rest ih =>
    have hrest : Routed cfg rest := fun v hv => hevents v (List.mem_cons_of_mem _ hv)
    have hprogress : Progress cfg m s (s.step event) := by
      refine hs.step hcfg hm howner fun v hv => hevents v ?_
      rw [hv]
      exact List.mem_cons_self
    -- no identifier is handed out twice up to the end, so none is up to here
    have hnow : (s.step event).world.supply.Distinct :=
      hdistinct.earlier (later_after (s.step event) rest)
    exact ih hrest hdistinct (hs.progress hprogress hnow) (hstep s _ hs hprogress hnow hP)

/-- What requests for routes of a configuration lead to from an empty storage,
    however they interleave. -/
def Reached (cfg : Config) (s : Traffic) : Prop :=
  ∃ supply events, Routed cfg events ∧ (Traffic.start supply).after events = s

/-- Whatever holds in the beginning, and is kept by every event in sound states,
    holds wherever requests lead. -/
theorem Reached.carry (hcfg : Config.ofText text = .ok cfg) (hm : SoleModel cfg m)
    (howner : m.owner ≠ some idField) {P : Traffic → Prop}
    (hstart : ∀ supply, P (Traffic.start supply))
    (hstep : ∀ s s', Sound cfg m s → Progress cfg m s s' → s'.world.supply.Distinct → P s → P s')
    (hs : Reached cfg s) (hdistinct : s.world.supply.Distinct) : Sound cfg m s ∧ P s := by
  obtain ⟨supply, events, hevents, rfl⟩ := hs
  exact (sound_start cfg m supply).carry hcfg hm howner hstep hevents hdistinct (hstart supply)

theorem Reached.sound (hcfg : Config.ofText text = .ok cfg) (hm : SoleModel cfg m)
    (howner : m.owner ≠ some idField) (hs : Reached cfg s)
    (hdistinct : s.world.supply.Distinct) : Sound cfg m s :=
  (hs.carry hcfg hm howner (fun _ => trivial) (fun _ _ _ _ _ _ => trivial) hdistinct).1

end invariant

/-! ### A rush -/

/-- After the card is made she is in a rush: all others find it before any of
    them writes. Then some write. -/
def rush (route : Route) (writes : List Nat) : Traffic :=
  (Traffic.start Supply.still).after
    ((anns route).zipIdx.flatMap (fun (v, i) => [.arrive v, .proceed i]) ++ writes.map .proceed)

theorem reached_rush {route : Route} (hroute : route ∈ cfg.routes) (writes : List Nat) :
    Reached cfg (rush route writes) := by
  refine ⟨Supply.still, _, ?_, rfl⟩
  intro v hv
  rcases List.mem_append.mp hv with hv | hv
  · obtain ⟨⟨v', i⟩, hmem, hv⟩ := List.mem_flatMap.mp hv
    rcases List.mem_cons.mp hv with hv | hv
    · cases hv
      rw [route_of_anns v (List.fst_mem_of_mem_zipIdx hmem)]
      exact hroute
    · cases List.mem_singleton.mp hv
  · obtain ⟨i, -, hi⟩ := List.mem_map.mp hv
    cases hi

/-- Where there is one model, every request is about it. -/
theorem Sound.model_eq {s : Traffic} (hcfg : Config.ofText text = .ok cfg)
    (hmodels : cfg.catalog.models = [m]) (hs : Sound cfg m s) {t : Task} (ht : t ∈ s.tasks) :
    t.visit.route.model = m := by
  have hmodel := (Config.ofText_compiled hcfg _ (hs.routed t ht)).model
  rw [hmodels] at hmodel
  exact List.mem_singleton.mp hmodel

/-- The record that an exchange found. -/
def foundRecord? : Exchange → Option Record
  | ⟨.findOne .., .ok (answer : Option Record)⟩ => answer
  | _ => none

theorem eq_found {e : Exchange} {record : Record} (h : foundRecord? e = some record)
    (hcollection : e.call.collection = m.collection) :
    ∃ filter, e = found m filter record := by
  unfold foundRecord? at h
  split at h
  next collection filter answer =>
    have hcollection : collection = m.collection := hcollection
    rw [h, hcollection]
    exact ⟨filter, rfl⟩
  · cases h

/-- The call that a request makes next, if that is its next question. -/
def Task.call? (t : Task) : Option Call :=
  match t.rest with
  | .call c _ => some c
  | _ => none

theorem Task.call?_eq_some {t : Task} {c : Call} (h : t.call? = some c) :
    ∃ next, t.rest = .call c next := by
  unfold Task.call? at h
  split at h
  next c' next hrest =>
    cases h
    exact ⟨next, hrest⟩
  · cases h

end Engine

end RecordGate

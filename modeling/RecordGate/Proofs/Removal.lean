import RecordGate.Proofs.UpdateHistory

/-! # Records that are gone

  Requests may interleave in any way. Once a delete has taken a record out, no
  record has its identifier again, and every request that was about to change
  or to remove it finds nothing.

  **Key idea.** An identifier that was handed out is not handed out again
  (`Gone.turn`). A request that has found the record before knows nothing of it
  but this identifier, and has nothing left to fail at but its write: what it
  still asks is the time for its hooks. So it is `Lost`, whatever it still
  draws, and remains so until it ends in `missing`.
-/

namespace RecordGate

namespace Flow

variable {α : Type} {x y : Flow α}

/-- A flow that cannot fail ends with a value wherever it has come to. -/
theorem Succeeds.of_trail (h : x.Succeeds) (hx : Offline x) {r : Except Error α}
    (htrail : Trail x [] (.done r)) : ∃ a, r = .ok a := by
  obtain ⟨clock, ids, hdraw⟩ := hx.drawn htrail 0 0
  obtain ⟨a, ha⟩ := h ⟨clock, ids, 0, 0⟩
  exact ⟨a, (hdraw clock ids (fun _ _ => rfl) fun _ _ => rfl).symm.trans ha⟩

end Flow

open RecordGate.Flow

/-! ### What is left to fail in an update -/

namespace Shape

/-- Without defaults to draw, the input of an update is known at once. -/
theorem inputFields_update (raw : Record) (fields : List Field) (values : Record) :
    ∃ r, inputFields .update raw fields values = ofExcept r := by
  induction fields generalizing values with
  | nil => exact ⟨.ok values, rfl⟩
  | cons f fields ih =>
    have hvalue : ∃ r, inputValue .update raw f = ofExcept r := by
      unfold inputValue
      split
      · split
        next value _ =>
          cases coerce f.name f.type value with
          | ok stored => exact ⟨.ok (some stored), rfl⟩
          | error err => exact ⟨.error err, rfl⟩
        · exact ⟨.ok none, rfl⟩
      · exact ⟨.ok none, rfl⟩
    obtain ⟨r, hr⟩ := hvalue
    unfold inputFields
    rw [hr]
    cases r with
    | error err => exact ⟨.error err, rfl⟩
    | ok value =>
      cases value with
      | some value => exact ih _
      | none => exact ih _

end Shape

namespace Engine

open Storage

variable {m : Model} {req : Request} {bound : Bound} {w w' : World Memory} {e : Exchange}
  {id : String} {log : List Exchange} {y : Flow Response}

/-- An update knows at once whether its body fits, and then cannot fail before
    its write. -/
theorem changedValues_split (m : Model) (req : Request) :
    ∃ (r : Except Error Record) (f : Record → Flow Record), changedValues m req = ofExcept r >>= f ∧
      ∀ values, Offline (f values) ∧ (f values).Succeeds := by
  let f (values : Record) : Flow Record :=
    Shape.applyHooks m .update values >>= fun values => pure (dropOwner m values)
  have hf : ∀ values, Offline (f values) ∧ (f values).Succeeds := fun values =>
    ⟨(Shape.offline_applyHooks m .update values).bind fun _ => offline_pure _,
      (Shape.applyHooks_succeeds m .update values).bind fun _ => succeeds_pure _⟩
  unfold changedValues
  cases Shape.ofBody req.body with
  | error err => exact ⟨.error err, f, rfl, hf⟩
  | ok raw =>
    obtain ⟨r, hr⟩ := Shape.inputFields_update raw m.fields []
    refine ⟨r, f, ?_, hf⟩
    show Shape.prepare m .update raw >>= _ = _
    unfold Shape.prepare Shape.input
    rw [hr]
    cases r <;> rfl

/-! ### Identifiers without a record -/

/-- An identifier that was handed out, and that no record has. -/
structure Gone (m : Model) (w : World Memory) (id : String) : Prop where
  /-- It was handed out. -/
  issued : ∃ k < w.supply.issued, id = (w.supply.ids k).toHex
  /-- No record has it. -/
  absent : ∀ row ∈ w.store.rows m.collection, row.get? idField ≠ some (.str id)

theorem Gone.later (h : Gone m w id) (hlater : w.supply.Later w'.supply)
    (hrows : w'.store.rows m.collection = w.store.rows m.collection) : Gone m w' id where
  issued := by
    obtain ⟨k, hk, hid⟩ := h.issued
    rw [hlater.ids]
    exact ⟨k, Nat.lt_of_lt_of_le hk hlater.issued, hid⟩
  absent := by
    rw [hrows]
    exact h.absent

/-- No turn gives the identifier to a record again. -/
theorem Gone.turn (h : Gone m w id) (hturn : Turn m w e w') (hdistinct : w'.supply.Distinct) :
    Gone m w' id := by
  obtain ⟨k, hk, rfl⟩ := h.issued
  refine ⟨?_, fun row hrow hid => ?_⟩
  · rw [hturn.later.ids]
    exact ⟨k, Nat.lt_of_lt_of_le hk hturn.later.issued, rfl⟩
  · rcases hturn.origin hrow with ⟨old, hold, hkept⟩ | ⟨hsupply, hnew⟩
    · exact h.absent old hold ((hkept idField .identifier).symm.trans hid)
    · rw [hsupply] at hdistinct
      rw [hnew, Option.some.injEq, Json.str.injEq] at hid
      exact Supply.fresh_ne hk hdistinct hid

/-- The exchange in which the record of an identifier was removed. -/
def removal (m : Model) (id : String) : Exchange where
  call := .deleteOne m.collection [(idField, .str id)]
  answer := .ok true

/-- A removal leaves no record of the identifier. -/
theorem gone_of_removal (hrows : Minted w.supply (w.store.rows m.collection))
    (hdistinct : w.supply.Distinct) (hturn : Turn m w (removal m id) w') : Gone m w' id := by
  generalize he : removal m id = e at hturn
  cases hturn with
  | quiet quiet _ _ =>
    cases quiet with
    | elsewhere hother =>
      subst he
      exact absurd rfl hother
    | findOne _ _ => cases he
    | findAll _ _ => cases he
    | updated _ _ => cases he
    | deleted _ => cases he
  | inserted _ _ => cases he
  | updated _ _ => cases he
  | @deleted id' row before after hit =>
    cases he
    have hrow : row.get? idField = some (.str id) := (accepts_text idField id row).mp hit.hit
    obtain ⟨k, hk, hid⟩ := hrows.issued hit.mem
    rw [hrow, Option.some.injEq, Json.str.injEq] at hid
    refine ⟨⟨k, hk, hid⟩, fun r hr => ?_⟩
    have hr : r ∈ (w.store.setRows m.collection _).rows m.collection := hr
    rw [Memory.rows_setRows, if_pos rfl] at hr
    rw [← hrow]
    exact (hrows.identified hdistinct).others hit r hr

/-- No filter that names the identifier finds anything. -/
theorem Gone.find?_eq_none (h : Gone m w id) {filter : Record}
    (hnames : (idField, .str id) ∈ filter) :
    (w.store.rows m.collection).find? (accepts filter) = none := by
  refine List.find?_eq_none.mpr fun row hrow haccepts => h.absent row hrow ?_
  unfold accepts at haccepts
  have hentry := List.all_eq_true.mp haccepts _ hnames
  dsimp only at hentry
  split at hentry
  next v hv => rw [hv, (Json.same_str v id).mp hentry]
  · cases hentry

/-! ### Requests without a record -/

/-- What is left of a request that is about a record which is gone: it may draw on
    the supply, its next call names the identifier, and if that finds nothing
    the end is `missing`. -/
inductive Lost (m : Model) (id : String) : Flow Response → Prop where
  /-- The end. -/
  | ended : Lost m id (.done (.error (missing m)))
  /-- A reading of the clock. -/
  | now {next : Time.Instant → Flow Response} (h : ∀ t, Lost m id (next t)) : Lost m id (.now next)
  /-- A fresh identifier. -/
  | fresh {next : ObjectId → Flow Response} (h : ∀ fresh, Lost m id (next fresh)) :
      Lost m id (.fresh next)
  /-- The lookup. -/
  | lookup {filter : Record}
      {next : Except Error (Call.Answer (.findOne m.collection filter)) → Flow Response}
      (names : (idField, .str id) ∈ filter)
      (missed : next (.ok none) = .done (.error (missing m))) :
      Lost m id (.call (.findOne m.collection filter) next)
  /-- The write of an update. -/
  | update {filter values : Record}
      {next : Except Error (Call.Answer (.updateOne m.collection filter values)) → Flow Response}
      (names : (idField, .str id) ∈ filter)
      (missed : next (.ok none) = .done (.error (missing m))) :
      Lost m id (.call (.updateOne m.collection filter values) next)
  /-- The write of a delete. -/
  | delete {filter : Record}
      {next : Except Error (Call.Answer (.deleteOne m.collection filter)) → Flow Response}
      (names : (idField, .str id) ∈ filter)
      (missed : next (.ok false) = .done (.error (missing m))) :
      Lost m id (.call (.deleteOne m.collection filter) next)

/-- The call of a lost request finds nothing, changes nothing, and the end is
    `missing`. -/
theorem Lost.answer {c : Call} {next : Except Error c.Answer → Flow Response}
    (h : Lost m id (.call c next)) (hgone : Gone m w id) :
    (Memory.driver.answer c w).2 = w ∧
      next (Memory.driver.answer c w).1 = .done (.error (missing m)) := by
  cases h with
  | @lookup filter _ names missed =>
    have hanswer : Memory.driver.answer (.findOne m.collection filter) w = (.ok none, w) := by
      show (Except.ok ((w.store.rows m.collection).find? (accepts filter)), w) = _
      rw [hgone.find?_eq_none names]
      rfl
    rw [hanswer]
    exact ⟨rfl, missed⟩
  | @update filter values _ names missed =>
    have hanswer : Memory.driver.answer (.updateOne m.collection filter values) w =
        (.ok none, w) := by
      show (Except.ok _, _) = _
      rw [answer_updateOne_missed (hgone.find?_eq_none names)]
    rw [hanswer]
    exact ⟨rfl, missed⟩
  | @delete filter _ names missed =>
    have hanswer : Memory.driver.answer (.deleteOne m.collection filter) w = (.ok false, w) := by
      show (Except.ok _, _) = _
      rw [answer_deleteOne_missed (hgone.find?_eq_none names)]
    rw [hanswer]
    exact ⟨rfl, missed⟩

/-- Drawing on the supply finds nothing either. -/
theorem Lost.trail (h : Lost m id y) {y' : Flow Response} (htrail : Trail y [] y') :
    Lost m id y' := by
  induction h with
  | ended =>
    obtain ⟨-, rfl⟩ := htrail.of_done
    exact .ended
  | now h ih =>
    cases htrail with
    | here => exact .now h
    | now t htrail => exact ih t htrail
  | fresh h ih =>
    cases htrail with
    | here => exact .fresh h
    | fresh fresh htrail => exact ih fresh htrail
  | lookup names missed =>
    cases htrail with
    | here => exact .lookup names missed
  | update names missed =>
    cases htrail with
    | here => exact .update names missed
  | delete names missed =>
    cases htrail with
    | here => exact .delete names missed

/-- Run to its end, a lost request ends in `missing` and leaves the storage. -/
theorem Lost.run (h : Lost m id y) (hgone : Gone m w id) :
    (y.run Memory.driver w).1 = .error (missing m) ∧
      (y.run Memory.driver w).2.store = w.store := by
  induction y generalizing w with
  | done result =>
    cases h with
    | ended => exact ⟨rfl, rfl⟩
  | now next ih =>
    cases h with
    | now h => exact ih _ (h _) (hgone.later (Supply.later_tick _) rfl)
  | fresh next ih =>
    cases h with
    | fresh h => exact ih _ (h _) (hgone.later (Supply.later_fresh _) rfl)
  | call c next ih =>
    obtain ⟨hworld, hend⟩ := h.answer hgone
    show ((next (Memory.driver.answer c w).1).run Memory.driver (Memory.driver.answer c w).2).1 = _ ∧
      ((next (Memory.driver.answer c w).1).run Memory.driver
        (Memory.driver.answer c w).2).2.store = _
    rw [hend, hworld]
    exact ⟨rfl, rfl⟩

/-- What cannot fail and leads to lost requests is one. -/
theorem Lost.bind {α : Type} {x : Flow α} {f : α → Flow Response} (hx : Offline x)
    (hsure : ∀ err, ¬ Trail x [] (.done (.error err))) (hf : ∀ a, Lost m id (f a)) :
    Lost m id (x >>= f) := by
  show Lost m id (x.bind f)
  induction hx with
  | done result =>
    cases result with
    | ok a => exact hf a
    | error err => exact absurd (.here _) (hsure err)
  | now _ ih => exact .now fun t => ih t fun err htrail => hsure err (.now t htrail)
  | fresh _ ih => exact .fresh fun id => ih id fun err htrail => hsure err (.fresh id htrail)

/-- An action that is about a loaded record, and not at its end, is lost without
    that record. -/
theorem lost_of_perform {action : Action} {record : Record} (htargets : action.targetsOne = true)
    (hloaded : bound.resource = some record) (hid : record.get? idField = some (.str id))
    (htrail : Trail (perform m action req bound) log y) (hopen : ∀ r, y ≠ .done r) :
    Lost m id y := by
  have hagain : byId record = .ok [(idField, .str id)] := byId_text hid
  have hnames : (idField, Json.str id) ∈ [(idField, Json.str id)] := List.mem_singleton.mpr rfl
  cases action with
  | create => cases htargets
  | list => cases htargets
  | read =>
    have htrail : Trail (read m bound) log y := htrail
    unfold read at htrail
    rw [hloaded] at htrail
    exact absurd htrail.of_done.2 (hopen _)
  | update =>
    have htrail : Trail (update m req bound) log y := htrail
    rw [update_eq, hloaded] at htrail
    have htrail : Trail (changedValues m req >>= fun values => ofExcept (byId record) >>=
      fun filter => ask (.updateOne m.collection filter values) >>= updateReply m) log y := htrail
    rw [hagain] at htrail
    have hwrite : ∀ values, Lost m id
        (ask (.updateOne m.collection [(idField, .str id)] values) >>= updateReply m) :=
      fun values => .update hnames rfl
    obtain ⟨r, f, hsplit, hf⟩ := changedValues_split m req
    rw [hsplit, bind_assoc] at htrail
    rcases trail_ofExcept_bind htrail with ⟨err, -, -, hy⟩ | ⟨values, -, htrail⟩
    · exact absurd hy (hopen _)
    rcases trail_bind htrail with ⟨x, hx, -, rfl⟩ | ⟨changed, log₁, log₂, -, -, htrail⟩
    · -- the values are still being prepared, and that cannot fail
      obtain ⟨rfl, hoffline⟩ := (hf values).1.trail hx
      refine Lost.bind hoffline (fun err herr => ?_) hwrite
      obtain ⟨a, ha⟩ := (hf values).2.of_trail (hf values).1 (hx.trans herr)
      cases ha
    · have hreply : ∀ updated, ∃ r, updateReply m updated = .done r := by
        intro updated
        cases updated <;> exact ⟨_, rfl⟩
      rw [(open_ask htrail hreply hopen).2]
      exact hwrite changed
  | delete =>
    have htrail : Trail (delete m bound) log y := htrail
    unfold delete at htrail
    rw [hloaded] at htrail
    have htrail : Trail (ofExcept (byId record) >>= fun filter =>
      ask (.deleteOne m.collection filter) >>= deleteReply m) log y := htrail
    rw [hagain] at htrail
    have hreply : ∀ deleted, ∃ r, deleteReply m deleted = .done r := by
      intro deleted
      cases deleted <;> exact ⟨_, rfl⟩
    rw [(open_ask htrail hreply hopen).2]
    exact .delete hnames rfl

/-- A request that is on its way to a record: it is about to look for the
    identifier, or it has found the record and is not at its end. -/
def Aims (m : Model) (id : String) (t : Task) : Prop :=
  t.visit.route.model = m ∧ (∀ r, t.rest ≠ .done r) ∧
    ((∃ filter next, t.rest = .call (.findOne m.collection filter) next ∧
        (idField, .str id) ∈ filter) ∨
      ∃ filter record, found m filter record ∈ t.log ∧ record.get? idField = some (.str id))

section traffic
variable {text : String} {cfg : Config} {s s' : Traffic} {t : Task} {i : Nat}

/-- A lookup comes before the permission, not after it. -/
theorem Acts.not_findOne {action : Action} {collection : String} {filter : Record}
    {next : Except Error (Call.Answer (.findOne collection filter)) → Flow Response} :
    ¬ Acts m req bound action (.findOne collection filter) next := nofun

/-- Without its record such a request is lost. -/
theorem Aims.lost (hcfg : Config.ofText text = .ok cfg) (hs : Sound cfg m s) (ht : t ∈ s.tasks)
    (h : Aims m id t) : Lost m id t.rest := by
  obtain ⟨rfl, hopen, h⟩ := h
  have hcompiled := Config.ofText_compiled hcfg _ (hs.routed t ht)
  have htrail := hs.trails t ht
  rcases h with ⟨filter, next, hrest, hnames⟩ | ⟨filter, record, hfound, hid⟩
  · rw [hrest] at htrail ⊢
    have hstage := execute_stage htrail
    generalize t.log = log at hstage
    cases hstage with
    | looking _ _ _ _ missed => exact .lookup hnames missed
    | acting _ htrail => exact absurd (perform_paused htrail).2 Acts.not_findOne
  · have hstage := execute_stage htrail
    generalize t.log = log at hfound hstage
    generalize t.rest = rest at hopen hstage
    cases hstage with
    | refused log err => exact absurd rfl (hopen _)
    | looking _ _ _ _ _ => cases hfound
    | @acting log log' bound y hclears htrail =>
      rcases List.mem_append.mp hfound with hfound | hfound
      · obtain ⟨first, others, rfl⟩ := List.exists_cons_of_ne_nil (List.ne_nil_of_mem hfound)
        have htargets := (hclears.looked (hcompiled.rules t.visit.action)).2.1
        exact lost_of_perform htargets (hclears.loaded hfound) hid htrail hopen
      · -- no action looks a record up
        obtain ⟨before, after, rfl⟩ := List.append_of_mem hfound
        obtain ⟨next, htrail, -⟩ := htrail.split
        exact absurd (perform_paused htrail).2 Acts.not_findOne

theorem Gone.progress (h : Gone m s.world id) (hprogress : Progress cfg m s s')
    (hdistinct : s'.world.supply.Distinct) : Gone m s'.world id := by
  cases hprogress with
  | idle => exact h
  | arrived _ _ => exact h
  | drew _ later _ => exact h.later later rfl
  | called _ _ turn => exact h.turn turn hdistinct

/-- Whatever happens, a lost request stays lost. -/
theorem Lost.progress (h : Lost m id t.rest) (hgone : Gone m s.world id)
    (htask : s.tasks[i]? = some t) (hprogress : Progress cfg m s s') :
    ∃ t', s'.tasks[i]? = some t' ∧ t'.visit = t.visit ∧ Lost m id t'.rest := by
  have hlt : i < s.tasks.length := (List.getElem?_eq_some_iff.mp htask).1
  cases hprogress with
  | idle => exact ⟨t, htask, rfl, h⟩
  | arrived v _ =>
    refine ⟨t, ?_, rfl, h⟩
    show (s.tasks ++ [_])[i]? = some t
    rw [List.getElem?_append_left hlt]
    exact htask
  | @drew j t₀ rest supply task later trail =>
    by_cases hji : j = i
    · subst hji
      obtain rfl : t₀ = t := Option.some.inj (task.symm.trans htask)
      exact ⟨_, List.getElem?_set_self hlt, rfl, h.trail trail⟩
    · exact ⟨t, (List.getElem?_set_ne hji).trans htask, rfl, h⟩
  | @called j t₀ c next task rest_eq turn =>
    by_cases hji : j = i
    · subst hji
      obtain rfl : t₀ = t := Option.some.inj (task.symm.trans htask)
      rw [rest_eq] at h
      refine ⟨_, List.getElem?_set_self hlt, rfl, ?_⟩
      show Lost m id (next (Memory.driver.answer c s.world).1)
      rw [(h.answer hgone).2]
      exact .ended
    · exact ⟨t, (List.getElem?_set_ne hji).trans htask, rfl, h⟩

/-- Nor does its next question change the storage. -/
theorem Lost.step_store (h : Lost m id t.rest) (hgone : Gone m s.world id)
    (htask : s.tasks[i]? = some t) : (s.step (.proceed i)).world.store = s.world.store := by
  have hstep : s.step (.proceed i) = s.answer i t := by
    unfold Traffic.step
    simp only [htask]
  rw [hstep]
  obtain ⟨visit, log, rest⟩ := t
  cases rest with
  | done result => rfl
  | now next => rfl
  | fresh next => rfl
  | call c next =>
    show (Memory.driver.answer c s.world).2.store = _
    rw [(h.answer hgone).1]

/-- What was removed is gone. -/
theorem gone_reached (hcfg : Config.ofText text = .ok cfg) (hm : SoleModel cfg m)
    (howner : m.owner ≠ some idField) (hs : Reached cfg s) (hdistinct : s.world.supply.Distinct)
    (hremoved : removal m id ∈ s.journal) : Gone m s.world id := by
  refine (hs.carry hcfg hm howner (P := fun s => removal m id ∈ s.journal → Gone m s.world id)
    (fun _ hmem => absurd hmem List.not_mem_nil) ?_ hdistinct).2 hremoved
  intro s s' hsound hprogress hdistinct' hgone hmem
  have hnow : s.world.supply.Distinct := hdistinct'.earlier hprogress.later
  by_cases hbefore : removal m id ∈ s.journal
  · exact (hgone hbefore).progress hprogress hdistinct'
  · -- it is the last exchange
    cases hprogress with
    | idle => exact absurd hmem hbefore
    | arrived _ _ => exact absurd hmem hbefore
    | drew _ _ _ => exact absurd hmem hbefore
    | called _ _ turn =>
      have hlast := List.mem_singleton.mp ((List.mem_append.mp hmem).resolve_left hbefore)
      rw [← hlast] at turn
      exact gone_of_removal hsound.minted hnow turn

/-- What a gone record means for a request that is on its way to it, whatever else
    happens: it is there, its next question leaves the storage, and if it runs
    to its end it ends in `missing` and leaves the storage. -/
theorem Gone.after (hcfg : Config.ofText text = .ok cfg) (hm : SoleModel cfg m)
    (howner : m.owner ≠ some idField) (hs : Sound cfg m s) (hgone : Gone m s.world id)
    {events : List Event} (hevents : Routed cfg events)
    (hdistinct : (s.after events).world.supply.Distinct) :
    Gone m (s.after events).world id ∧ ∀ (i : Nat) (t : Task), s.tasks[i]? = some t → Aims m id t →
      ∃ t', (s.after events).tasks[i]? = some t' ∧ t'.visit = t.visit ∧ Lost m id t'.rest := by
  refine (hs.carry hcfg hm howner (P := fun s' : Traffic => Gone m s'.world id ∧
    ∀ (i : Nat) (t : Task), s.tasks[i]? = some t → Aims m id t →
      ∃ t', s'.tasks[i]? = some t' ∧ t'.visit = t.visit ∧ Lost m id t'.rest)
    ?_ hevents hdistinct ⟨hgone, ?_⟩).2
  · rintro s₁ s₂ - hprogress hdistinct₂ ⟨hgone₁, hlost₁⟩
    refine ⟨hgone₁.progress hprogress hdistinct₂, fun i t htask haims => ?_⟩
    obtain ⟨t₁, htask₁, hvisit₁, hlost⟩ := hlost₁ i t htask haims
    obtain ⟨t₂, htask₂, hvisit₂, hlost₂⟩ := hlost.progress hgone₁ htask₁ hprogress
    exact ⟨t₂, htask₂, hvisit₂.trans hvisit₁, hlost₂⟩
  · intro i t htask haims
    exact ⟨t, htask, rfl, haims.lost hcfg hs (List.mem_of_getElem? htask)⟩

/-- Requests may interleave in any way.

    - Every record is what was inserted, with the values merged in of the updates
      that hit it, in the order in which they were written. So a value that one
      of them wrote is there until a later one writes the same name.
    - These values are prepared from the body of a request, and nothing else.
    - When a record was removed, no record has its identifier from then on, and
      every request that was on its way to it ends in `missing` and never
      changes the storage. -/
theorem updates_survive (hcfg : Config.ofText text = .ok cfg) (hm : SoleModel cfg m)
    (howner : m.owner ≠ some idField) (hs : Reached cfg s)
    (hdistinct : s.world.supply.Distinct) :
    (∀ row ∈ s.world.store.rows m.collection, ∃ id before values born after,
      row.get? idField = some (.str id) ∧ s.journal = before ++ insertion m values born :: after ∧
      row = (hits m id after).foldl Record.merge born ∧
      ∀ earlier values later, hits m id after = earlier ++ values :: later →
        ∀ k v, values.get? k = some v → (∀ values' ∈ later, values'.get? k = none) →
          row.get? k = some v) ∧
    (∀ filter values answer, ⟨.updateOne m.collection filter values, answer⟩ ∈ s.journal →
      ∃ t ∈ s.tasks, t.visit.route.model = m ∧
        Trail (changedValues m t.visit.request) [] (.done (.ok values))) ∧
    ∀ id, removal m id ∈ s.journal → ∀ events, Routed cfg events →
      (s.after events).world.supply.Distinct →
        let s' := s.after events
        (∀ row ∈ s'.world.store.rows m.collection, row.get? idField ≠ some (.str id)) ∧
        ∀ i t, s.tasks[i]? = some t → Aims m id t →
          ∃ t', s'.tasks[i]? = some t' ∧ t'.visit = t.visit ∧
            (s'.step (.proceed i)).world.store = s'.world.store ∧
            (t'.rest.run Memory.driver s'.world).1 = .error (missing m) ∧
            (t'.rest.run Memory.driver s'.world).2.store = s'.world.store := by
  have hsound : Sound cfg m s := hs.sound hcfg hm howner hdistinct
  refine ⟨fun row hrow => ?_, fun filter values answer he => hsound.prepared hcfg hm he, ?_⟩
  · obtain ⟨id, before, values, born, after, hid, hjournal, -, rfl⟩ :=
      grown_reached hcfg hm howner hs hdistinct row hrow
    refine ⟨id, before, values, born, after, hid, hjournal, rfl, ?_⟩
    intro earlier values later hhits k v hvalue hlater
    exact hsound.survives hcfg hm hjournal hhits hvalue hlater
  · intro id hremoved events hevents hdistinct' s'
    have hgone : Gone m s.world id := gone_reached hcfg hm howner hs hdistinct hremoved
    obtain ⟨hgone', hlost⟩ := hgone.after hcfg hm howner hsound hevents hdistinct'
    refine ⟨hgone'.absent, fun i t htask haims => ?_⟩
    obtain ⟨t', htask', hvisit, hlost'⟩ := hlost i t htask haims
    obtain ⟨hends, hkeeps⟩ := hlost'.run hgone'
    exact ⟨t', htask', hvisit, hlost'.step_store hgone' htask', hends, hkeeps⟩

end traffic

/-- The identifier whose record an exchange removed. -/
def removedId? (m : Model) : Exchange → Option String
  | ⟨.deleteOne collection [(key, .str id)], .ok (true : Bool)⟩ =>
    if collection = m.collection ∧ key = idField then some id else none
  | _ => none

theorem eq_removal (h : removedId? m e = some id) : e = removal m id := by
  unfold removedId? at h
  split at h
  next collection key id' =>
    split at h
    next hboth =>
      obtain ⟨rfl, rfl⟩ := hboth
      cases h
      rfl
    · cases h
  · cases h

/-- Both changes of the rush survive. Then the card is removed, and the third one
    ends in `missing`. -/
theorem cards_survive :
    ∃ cfg m route, Config.ofText Config.cards = .ok cfg ∧ SoleModel cfg m ∧ route ∈ cfg.routes ∧
      (∃ row ∈ (rush route [1, 2]).world.store.rows m.collection,
        row.get? "text" = some (.str "hi") ∧ row.get? "ink" = some (.str "blue") ∧
        ∃ id born after, row.get? idField = some (.str id) ∧
          row = (hits m id after).foldl Record.merge born) ∧
      (rush route [1, 2, 3]).world.store.rows m.collection = [] ∧
      ∃ t, (rush route [1, 2, 3]).tasks[4]? = some t ∧ (∀ r, t.rest ≠ .done r) ∧
        (t.rest.run Memory.driver (rush route [1, 2, 3]).world).1 = .error (missing m) := by
  have htest : okAnd (Config.ofDecl Config.cardsDecl) (fun cfg => cfg.onlyAnd fun m route =>
      let id := (Supply.still.ids 0).toHex
      decide (m.owner = some "by") &&
      (decide ((rush route [1, 2]).world.supply.issued = 1) &&
      decide (((rush route [1, 2]).world.store.rows m.collection).map
        (fun row => (row.get? "text", row.get? "ink")) =
          [(some (.str "hi"), some (.str "blue"))])) &&
      (decide ((rush route [1, 2, 3]).world.supply.issued = 1) &&
      decide ((rush route [1, 2, 3]).world.store.rows m.collection = []) &&
      (rush route [1, 2, 3]).journal.any (fun e => decide (removedId? m e = some id)) &&
      ((rush route [1, 2, 3]).tasks[4]?).any fun t => t.call?.isSome && t.log.any fun e =>
        decide ((foundRecord? e).bind (Record.get? · idField) = some (.str id)) &&
        decide (e.call.collection = m.collection))) = true := by
    decide +kernel
  obtain ⟨cfg, hdecl, htest⟩ := okAnd_iff.mp htest
  have hcfg : Config.ofText Config.cards = .ok cfg := Config.ofText_cards.trans hdecl
  obtain ⟨m, route, hmodels, hroutes, htest⟩ := Config.onlyAnd_iff.mp htest
  have hm : SoleModel cfg m := soleModel_of_single hmodels
  have hroute : route ∈ cfg.routes := by
    rw [hroutes]
    exact List.mem_singleton.mpr rfl
  simp only [Bool.and_eq_true, decide_eq_true_eq, List.any_eq_true] at htest
  obtain ⟨⟨howned, hissued, hrows⟩, ⟨⟨hissued', hempty⟩, e, he, hremoved⟩, htask⟩ := htest
  have howner : m.owner ≠ some idField := by
    rw [howned]
    decide
  -- both changes are written
  obtain ⟨row, hrow, hvalues⟩ : ∃ row ∈ (rush route [1, 2]).world.store.rows m.collection,
      (row.get? "text", row.get? "ink") = (some (.str "hi"), some (.str "blue")) := by
    refine List.mem_map.mp ?_
    rw [hrows]
    exact List.mem_singleton.mpr rfl
  obtain ⟨htext, hink⟩ := Prod.mk.inj hvalues
  obtain ⟨hhistory, -, -⟩ := updates_survive hcfg hm howner (reached_rush hroute [1, 2])
    (Supply.distinct_of_one hissued)
  obtain ⟨id, before, values, born, after, hid, -, hgrown, -⟩ := hhistory row hrow
  -- the card is removed while the last change is on its way to it
  have hreached : Reached cfg (rush route [1, 2, 3]) := reached_rush hroute [1, 2, 3]
  have hdistinct : (rush route [1, 2, 3]).world.supply.Distinct := Supply.distinct_of_one hissued'
  obtain ⟨-, -, hgone⟩ := updates_survive hcfg hm howner hreached hdistinct
  cases htask' : (rush route [1, 2, 3]).tasks[4]? with
  | none => simp [htask'] at htask
  | some t =>
    simp only [htask', Option.any_some, Bool.and_eq_true, List.any_eq_true, decide_eq_true_eq] at htask
    obtain ⟨hcall, e', he', hfound, hcollection⟩ := htask
    obtain ⟨record, hrecord, hid'⟩ := Option.bind_eq_some_iff.mp hfound
    obtain ⟨filter, rfl⟩ := eq_found hrecord hcollection
    have hmem : t ∈ (rush route [1, 2, 3]).tasks := List.mem_of_getElem? htask'
    have hmodel : t.visit.route.model = m :=
      (hreached.sound hcfg hm howner hdistinct).model_eq hcfg hmodels hmem
    have hopen : ∀ r, t.rest ≠ .done r := by
      intro r hr
      unfold Task.call? at hcall
      rw [hr] at hcall
      cases hcall
    have haims : Aims m (Supply.still.ids 0).toHex t :=
      ⟨hmodel, hopen, .inr ⟨filter, record, he', hid'⟩⟩
    have hremoval : removal m (Supply.still.ids 0).toHex ∈ (rush route [1, 2, 3]).journal :=
      eq_removal hremoved ▸ he
    have hnow : ((rush route [1, 2, 3]).after []).world.supply.Distinct := by
      rw [Traffic.after_nil]
      exact hdistinct
    obtain ⟨-, hlost⟩ := hgone _ hremoval [] (fun v hv => absurd hv List.not_mem_nil) hnow
    rw [Traffic.after_nil] at hlost
    obtain ⟨t', htask'', -, -, hends, -⟩ := hlost 4 t htask' haims
    obtain rfl : t = t' := Option.some.inj (htask'.symm.trans htask'')
    exact ⟨cfg, m, route, hcfg, hm, hroute,
      ⟨row, hrow, htext, hink, id, born, after, hid, hgrown⟩, hempty, t, htask', hopen, hends⟩

end Engine

end RecordGate

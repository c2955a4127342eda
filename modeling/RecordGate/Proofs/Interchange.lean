import RecordGate.Proofs.CallOrder
import RecordGate.Proofs.Session
import RecordGate.Proofs.Tables
import RecordGate.Storage.Connection

/-! # Two storages under one service

  The same visits, once over a storage in memory and once over a database.
  Where records are found by identifiers alone nobody can tell which of the two
  it was.

  **Key idea.** The tables mirror the collections (`Mirrors`).

  - `Mirrors.answer`: a call that both drivers understand alike (`Common`) is
    answered the same, and the tables mirror the collections again.
  - `execute_common`: the calls of a request are such calls, provided that what
    its lookup found has an identifier.
  - `Mirrors.run` carries a whole run along its trail. The records that a lookup
    finds in a mirrored collection were given identifiers, which is what
    `execute_common` asks for at the next call.
-/

namespace RecordGate.Engine

open Storage RecordGate.Flow

/-! ### Calls that both drivers answer alike -/

variable {collections : List String} {c : Call} {w : World Memory} {d : World Sql.Database}
  {collection : String} {rows : List Record} {table : List Sql.Row}

/-- Calls about known collections that look for nothing but identifiers and
    write none. -/
inductive Common (collections : List String) : Call → Prop where
  /-- A lookup. -/
  | findOne {collection : String} {filter : Record} (known : collection ∈ collections)
      (wants : Sql.WantsIds filter) : Common collections (.findOne collection filter)
  /-- A list. -/
  | findAll {collection : String} {filter : Record} (known : collection ∈ collections)
      (wants : Sql.WantsIds filter) : Common collections (.findAll collection filter)
  /-- An insert. The storage assigns the identifier. -/
  | insertOne {collection : String} {values : Record} (known : collection ∈ collections)
      (lacks : Shape.Lacks idField values) : Common collections (.insertOne collection values)
  /-- An update. The identifier stays. -/
  | updateOne {collection : String} {filter values : Record} (known : collection ∈ collections)
      (wants : Sql.WantsIds filter) (lacks : Shape.Lacks idField values) :
      Common collections (.updateOne collection filter values)
  /-- A delete. -/
  | deleteOne {collection : String} {filter : Record} (known : collection ∈ collections)
      (wants : Sql.WantsIds filter) : Common collections (.deleteOne collection filter)

theorem Common.known (h : Common collections c) : c.collection ∈ collections := by
  cases h <;> assumption

/-- No two of the collections have names that differ in their case alone. -/
def CaseDistinct (collections : List String) : Prop :=
  ∀ c ∈ collections, ∀ c' ∈ collections, Sql.tableKey c = Sql.tableKey c' → c = c'

/-- The tables of a database keep the records of a storage in memory, and all
    identifiers were handed out by the one supply. -/
structure Mirrors (collections : List String) (w : World Memory) (d : World Sql.Database) :
    Prop where
  /-- The supplies are the same. -/
  supply : d.supply = w.supply
  /-- Each collection has its table. -/
  tables : ∀ c ∈ collections, ∃ table, d.store.rows? c = .ok table ∧
    Sql.Keeps table (w.store.rows c)
  /-- The records were given their identifiers. -/
  minted : ∀ c ∈ collections, Minted w.supply (w.store.rows c)

/-- Drawing on the supply changes no table. -/
theorem Mirrors.later (h : Mirrors collections w d) {supply : Supply}
    (hlater : w.supply.Later supply) :
    Mirrors collections ⟨supply, w.store⟩ ⟨supply, d.store⟩ where
  supply := rfl
  tables := h.tables
  minted c hc := (h.minted c hc).later hlater

/-- A collection and its table are changed together. -/
theorem Mirrors.setRows (h : Mirrors collections w d) (hnames : CaseDistinct collections)
    (hknown : collection ∈ collections) {supply : Supply} (hlater : w.supply.Later supply)
    (hkeeps : Sql.Keeps table rows) (hminted : Minted supply rows) :
    Mirrors collections ⟨supply, w.store.setRows collection rows⟩
      ⟨supply, d.store.setRows collection table⟩ where
  supply := rfl
  tables other hother := by
    obtain ⟨old, hold, hkept⟩ := h.tables other hother
    refine ⟨_, Sql.rows?_setRows hold collection table, ?_⟩
    show Sql.Keeps _ ((w.store.setRows collection rows).rows other)
    rw [Memory.rows_setRows]
    by_cases hsame : collection = other
    · rw [if_pos hsame, if_pos (congrArg Sql.tableKey hsame)]
      exact hkeeps
    · have hkey : Sql.tableKey collection ≠ Sql.tableKey other :=
        fun heq => hsame (hnames collection hknown other hother heq)
      rw [if_neg hsame, if_neg hkey]
      exact hkept
  minted other hother := rows_setRows_of (fun _ => hminted) ((h.minted other hother).later hlater)

/-- Both drivers give the same answer, and the tables mirror the collections
    again. -/
def AnswerAlike (collections : List String) (c : Call) (w : World Memory)
    (d : World Sql.Database) : Prop :=
  ∃ answer w' d', Memory.driver.answer c w = (answer, w') ∧ Sql.driver.answer c d = (answer, d') ∧
    Mirrors collections w' d'

theorem Mirrors.insertOne (h : Mirrors collections w d) (hnames : CaseDistinct collections)
    (hknown : collection ∈ collections) {values : Record} (hlacks : Shape.Lacks idField values)
    (hdistinct : w.supply.fresh.2.Distinct) :
    AnswerAlike collections (.insertOne collection values) w d := by
  obtain ⟨table, htable, hkeeps⟩ := h.tables _ hknown
  have hminted := h.minted _ hknown
  -- the record gets the next identifier, which no row has for its key
  have hwith := withId_of_lacks hlacks w.supply
  have hnew : (values.insert idField (.str w.supply.fresh.1.toHex)).get? idField =
      some (.str w.supply.fresh.1.toHex) := by
    rw [Record.get?_insert, if_pos rfl]
  obtain ⟨table', hinsert, hkeeps'⟩ :=
    hkeeps.insertRow_free hnew (hminted.fresh_ne hdistinct) collection
  have hmirrors := h.setRows hnames hknown (Supply.later_fresh _) hkeeps' (hminted.append hnew)
  refine ⟨.ok (values.insert idField (.str w.supply.fresh.1.toHex)), _, _, ?_, ?_, hmirrors⟩
  · simp only [Memory.driver, Memory.answer, hwith]
  · simp only [Sql.driver, Sql.Database.answer, h.supply, hwith, htable, ok_bind, hinsert]

theorem Mirrors.updateOne (h : Mirrors collections w d) (hnames : CaseDistinct collections)
    (hknown : collection ∈ collections) {filter values : Record} (hwants : Sql.WantsIds filter)
    (hlacks : Shape.Lacks idField values) (hdistinct : w.supply.Distinct) :
    AnswerAlike collections (.updateOne collection filter values) w d := by
  obtain ⟨table, htable, hkeeps⟩ := h.tables _ hknown
  have hminted := h.minted _ hknown
  rcases hit_or_missed filter (w.store.rows collection) with ⟨before, r, after, hit⟩ | hmissed
  · obtain ⟨table', hupdate, hkeeps'⟩ :=
      hkeeps.updateRow_hit hwants (hminted.identified hdistinct) hit hlacks
    have hmirrors :=
      h.setRows hnames hknown (Supply.later_refl _) hkeeps' (hminted.updated hit hlacks)
    refine ⟨.ok (some (r.merge values)), _, _, ?_, ?_, hmirrors⟩
    · simp only [Memory.driver, hit.answer_updateOne]
    · simp only [Sql.driver, Sql.Database.answer, h.supply, htable, ok_bind, hupdate]
  · refine ⟨.ok none, w, d, ?_, ?_, h⟩
    · simp only [Memory.driver, answer_updateOne_missed hmissed]
    · simp only [Sql.driver, Sql.Database.answer, htable, ok_bind,
        hkeeps.updateRow_missed hwants hmissed]

theorem Mirrors.deleteOne (h : Mirrors collections w d) (hnames : CaseDistinct collections)
    (hknown : collection ∈ collections) {filter : Record} (hwants : Sql.WantsIds filter)
    (hdistinct : w.supply.Distinct) :
    AnswerAlike collections (.deleteOne collection filter) w d := by
  obtain ⟨table, htable, hkeeps⟩ := h.tables _ hknown
  have hminted := h.minted _ hknown
  rcases hit_or_missed filter (w.store.rows collection) with ⟨before, r, after, hit⟩ | hmissed
  · obtain ⟨table', hdelete, hkeeps'⟩ :=
      hkeeps.deleteRow_hit hwants (hminted.identified hdistinct) hit
    have hmirrors := h.setRows hnames hknown (Supply.later_refl _) hkeeps' (hminted.deleted hit)
    refine ⟨.ok true, _, _, ?_, ?_, hmirrors⟩
    · simp only [Memory.driver, hit.answer_deleteOne]
    · simp only [Sql.driver, Sql.Database.answer, h.supply, htable, ok_bind, hdelete]
  · refine ⟨.ok false, w, d, ?_, ?_, h⟩
    · simp only [Memory.driver, answer_deleteOne_missed hmissed]
    · simp only [Sql.driver, Sql.Database.answer, htable, ok_bind,
        hkeeps.deleteRow_missed hwants hmissed]

/-- Calls that both drivers understand alike are answered alike. -/
theorem Mirrors.answer (h : Mirrors collections w d) (hnames : CaseDistinct collections)
    (hc : Common collections c) (hdistinct : (Memory.driver.answer c w).2.supply.Distinct) :
    AnswerAlike collections c w d := by
  have hearlier : w.supply.Distinct := hdistinct.earlier (later_answer c w)
  cases hc with
  | @findOne collection filter known wants =>
    obtain ⟨table, htable, hkeeps⟩ := h.tables _ known
    refine ⟨.ok ((w.store.rows collection).find? (accepts filter)), w, d, rfl, ?_, h⟩
    simp only [Sql.driver, Sql.Database.answer, htable, ok_bind, hkeeps.findOne_eq wants]
    rfl
  | @findAll collection filter known wants =>
    obtain ⟨table, htable, hkeeps⟩ := h.tables _ known
    refine ⟨.ok ((w.store.rows collection).filter (accepts filter)), w, d, rfl, ?_, h⟩
    simp only [Sql.driver, Sql.Database.answer, htable, ok_bind, hkeeps.findAll_eq wants]
    rfl
  | @insertOne collection values known lacks =>
    have hsupply : (Memory.driver.answer (.insertOne collection values) w).2.supply =
        w.supply.fresh.2 := congrArg Prod.snd (withId_of_lacks lacks w.supply)
    exact h.insertOne hnames known lacks (hsupply ▸ hdistinct)
  | updateOne known wants lacks => exact h.updateOne hnames known wants lacks hearlier
  | deleteOne known wants => exact h.deleteOne hnames known wants hearlier

/-! ### The calls of a request -/

/-- A configuration whose service can change its storage. -/
structure Portable (cfg : Config) : Prop where
  /-- Records are loaded by identifiers. -/
  bound : ∀ route ∈ cfg.routes, ∀ action rule b, route.rule? action = some rule →
    rule.binding = some b → (route.model.field? b.field).map Field.type = some .objectId
  /-- Owners are identifiers, but not those of the records. -/
  owned : ∀ m ∈ cfg.catalog.models, ∀ owner, m.owner = some owner →
    owner ≠ idField ∧ (m.field? owner).map Field.type = some .objectId
  /-- Collections differ in more than the case of their names. -/
  named : CaseDistinct (cfg.catalog.models.map Model.collection)

section requests
variable {text : String} {cfg : Config} {m : Model} {b : Binding} {context : Context}
  {params : Keyed String} {filter : Record} {key owner : Json} {log : List Exchange}

/-- The path parameter of a field for identifiers is one. -/
theorem keyValue?_identifier (htype : (m.field? b.field).map Field.type = some .objectId)
    (h : keyValue? m b params = some key) : ∃ id : ObjectId, key = .str id.toHex := by
  obtain ⟨raw, -, h⟩ := Option.bind_eq_some_iff.mp h
  obtain ⟨f, hf, h⟩ := Option.bind_eq_some_iff.mp h
  have hobjectId : f.type = .objectId := by simpa [hf] using htype
  rw [hobjectId] at h
  cases hcoerce : Shape.coerce f.name .objectId (.str raw) with
  | error err =>
    rw [hcoerce] at h
    cases h
  | ok value =>
    rw [hcoerce] at h
    cases h
    exact Shape.identifier_eq_ok hcoerce

theorem ownerValue?_identifier
    (htype : ∀ w, m.owner = some w → (m.field? w).map Field.type = some .objectId)
    (h : ownerValue? m context = some owner) : ∃ id : ObjectId, owner = .str id.toHex := by
  obtain ⟨w, f, claim, hw, hf, hvalue, hnull⟩ := ownerValue?_coerced h
  have hobjectId : f.type = .objectId := by simpa [hf] using htype w hw
  rw [hobjectId] at hvalue
  rcases Shape.coerce_identifier hvalue with rfl | hid
  · exact absurd rfl hnull
  · exact hid

/-- A field with a type has an identifier for its name. -/
theorem ident_of_typed (hcfg : Config.ofText text = .ok cfg) (hm : m ∈ cfg.catalog.models)
    {name : String} {type : FieldType} (htype : (m.field? name).map Field.type = some type) :
    Text.isIdent name = true := by
  obtain ⟨f, hf, -⟩ := Option.map_eq_some_iff.mp htype
  exact Config.ofText_ident hcfg hm hf

/-- A lookup wants nothing but identifiers. -/
theorem lookupFilter?_wantsIds (hcfg : Config.ofText text = .ok cfg) (hportable : Portable cfg)
    (hm : m ∈ cfg.catalog.models)
    (hbound : (m.field? b.field).map Field.type = some .objectId)
    (h : lookupFilter? m b context params = some filter) : Sql.WantsIds filter := by
  have hname := ident_of_typed hcfg hm hbound
  cases hw : m.owner with
  | none =>
    rw [lookupFilter?_unowned hw] at h
    obtain ⟨key, hkey, rfl⟩ := Option.map_eq_some_iff.mp h
    obtain ⟨id, rfl⟩ := keyValue?_identifier hbound hkey
    exact Sql.wantsIds_nil.insert hname id
  | some w =>
    rw [lookupFilter?_owned hw] at h
    obtain ⟨key, hkey, h⟩ := Option.bind_eq_some_iff.mp h
    obtain ⟨owner, howner, rfl⟩ := Option.map_eq_some_iff.mp h
    obtain ⟨id, rfl⟩ := keyValue?_identifier hbound hkey
    have htypes := fun w hw => (hportable.owned m hm w hw).2
    obtain ⟨id', rfl⟩ := ownerValue?_identifier htypes howner
    exact (Sql.wantsIds_nil.insert hname id).insert (ident_of_typed hcfg hm (htypes w hw)) id'

theorem listFilter?_wantsIds (hcfg : Config.ofText text = .ok cfg) (hportable : Portable cfg)
    (hm : m ∈ cfg.catalog.models) (h : listFilter? m context = some filter) :
    Sql.WantsIds filter := by
  unfold listFilter? at h
  split at h
  · cases h
    exact Sql.wantsIds_nil
  next w hw =>
    obtain ⟨owner, howner, rfl⟩ := Option.map_eq_some_iff.mp h
    have htypes := fun w hw => (hportable.owned m hm w hw).2
    obtain ⟨id, rfl⟩ := ownerValue?_identifier htypes howner
    exact Sql.wantsIds_nil.insert (ident_of_typed hcfg hm (htypes w hw)) id

/-- The records that were found so far have identifiers. -/
def FoundIds (log : List Exchange) : Prop :=
  ∀ m filter record, found m filter record ∈ log →
    ∃ id : ObjectId, record.get? idField = some (.str id.toHex)

theorem byId_wantsIds {record : Record}
    (hid : ∃ id : ObjectId, record.get? idField = some (.str id.toHex))
    (h : byId record = .ok filter) : Sql.WantsIds filter := by
  obtain ⟨id, hid⟩ := hid
  rw [byId_text hid] at h
  cases h
  exact Sql.wantsIds_nil.insert (by decide) id

/-- Both drivers understand the calls of a request alike, provided that the
    record that was found has an identifier. -/
theorem execute_common (hcfg : Config.ofText text = .ok cfg) (hportable : Portable cfg)
    {route : Route} (hroute : route ∈ cfg.routes) {action : Action} {req : Request}
    {next : Except Error c.Answer → Flow Response}
    (h : Trail (execute route action req) log (.call c next)) (hlog : FoundIds log) :
    Common (cfg.catalog.models.map Model.collection) c := by
  have hm : route.model ∈ cfg.catalog.models := (Config.ofText_compiled hcfg route hroute).model
  have hknown : route.model.collection ∈ cfg.catalog.models.map Model.collection :=
    List.mem_map_of_mem hm
  have hsealed : route.model.Sealed := Config.ofText_sealed hcfg _ hm
  cases execute_stage h with
  | looking hrule _ hb hlookup _ =>
    have hbound := hportable.bound route hroute _ _ _ hrule hb
    exact .findOne hknown (lookupFilter?_wantsIds hcfg hportable hm hbound hlookup)
  | acting hclears htrail =>
    obtain ⟨rfl, hacts⟩ := perform_paused htrail
    rw [List.append_nil] at hlog
    cases hacts with
    | created hdrawn =>
      have hlacks := (newValues_lacks hsealed req _).of_trail (offline_newValues _ req _) hdrawn
      exact .insertOne hknown (hlacks fun hw => (hportable.owned _ hm _ hw).1 rfl)
    | listed hvisible => exact .findAll hknown (listFilter?_wantsIds hcfg hportable hm hvisible)
    | updated hresource hagain hdrawn =>
      have hyields := changedValues_lacks (.inl hsealed.update) req
      have hlacks := hyields.of_trail (offline_changedValues _ req) hdrawn
      obtain ⟨lookup, hfound⟩ := hclears.found hresource
      exact .updateOne hknown (byId_wantsIds (hlog _ _ _ hfound) hagain) hlacks
    | deleted hresource hagain =>
      obtain ⟨lookup, hfound⟩ := hclears.found hresource
      exact .deleteOne hknown (byId_wantsIds (hlog _ _ _ hfound) hagain)

end requests

/-! ### Runs -/

/-- What is found in a mirrored collection has an identifier. -/
theorem Mirrors.foundIds (h : Mirrors collections w d) (hc : Common collections c)
    {log : List Exchange} (hlog : FoundIds log) :
    FoundIds (log ++ [⟨c, (Memory.driver.answer c w).1⟩]) := by
  intro m filter record hmem
  rcases List.mem_append.mp hmem with hmem | hmem
  · exact hlog m filter record hmem
  · obtain ⟨rfl, hfind⟩ := find?_of_found (List.mem_singleton.mp hmem)
    have hrow : record ∈ w.store.rows m.collection := List.mem_of_find?_eq_some hfind
    obtain ⟨k, -, hid⟩ := (h.minted _ hc.known).issued hrow
    exact ⟨_, hid⟩

/-- A flow that asks both drivers only what they understand alike comes to the
    same over both, from wherever it is. -/
theorem Mirrors.run {α : Type} {x y : Flow α} (hnames : CaseDistinct collections)
    (hx : ∀ {log c next}, Trail x log (.call c next) → FoundIds log → Common collections c)
    {log : List Exchange} (htrail : Trail x log y) (hlog : FoundIds log)
    (h : Mirrors collections w d) (hdistinct : (y.run Memory.driver w).2.supply.Distinct) :
    (y.run Memory.driver w).1 = (y.run Sql.driver d).1 ∧
      Mirrors collections (y.run Memory.driver w).2 (y.run Sql.driver d).2 := by
  -- the induction is on what is left of the flow; the trail is what came before
  induction y generalizing log w d with
  | done result => exact ⟨rfl, h⟩
  | now next ih =>
    have htrail' := htrail.trans (.now w.supply.tick.1 (.here _))
    rw [List.append_nil] at htrail'
    unfold Flow.run at hdistinct ⊢
    rw [h.supply]
    exact ih _ htrail' hlog (h.later (Supply.later_tick _)) hdistinct
  | fresh next ih =>
    have htrail' := htrail.trans (.fresh w.supply.fresh.1 (.here _))
    rw [List.append_nil] at htrail'
    unfold Flow.run at hdistinct ⊢
    rw [h.supply]
    exact ih _ htrail' hlog (h.later (Supply.later_fresh _)) hdistinct
  | call c next ih =>
    have hc : Common collections c := hx htrail hlog
    -- nothing is taken back, so what is distinct at the end is distinct after this call
    have hanswered : (Memory.driver.answer c w).2.supply.Distinct :=
      hdistinct.earlier (later_run later_answer (next (Memory.driver.answer c w).1) _)
    have htrail' := htrail.trans (.call (Memory.driver.answer c w).1 (.here _))
    have hlog' := h.foundIds hc hlog
    obtain ⟨answer, w', d', hmemory, hsql, hmirrors⟩ := h.answer hnames hc hanswered
    unfold Flow.run at hdistinct ⊢
    rw [hmemory] at htrail' hlog' hdistinct ⊢
    rw [hsql]
    exact ih _ htrail' hlog' hmirrors hdistinct

/-! ### Sessions over a connection -/

/-- The responses to visits, one after the other, and the world that these
    leave. -/
def converse {σ : Type} (driver : Driver σ) : List Visit → World σ → List Response × World σ
  | [], w => ([], w)
  | v :: rest, w =>
    let (response, w) := handle driver v.route v.action v.request w
    let (responses, w) := converse driver rest w
    (response :: responses, w)

/-- The conversation over a new connection. -/
def talk (conn : Connection) (visits : List Visit) (supply : Supply) :
    List Response × World conn.Store :=
  converse conn.driver visits ⟨supply, conn.store⟩

/-- All records of a collection, as a driver lists them. -/
def listing {σ : Type} (driver : Driver σ) (collection : String) (w : World σ) :
    Except Error (List Record) :=
  (driver.answer (.findAll collection []) w).1

/-- A mirrored collection and its table hold the same records in the same
    order. -/
theorem Mirrors.listing (h : Mirrors collections w d) (hknown : collection ∈ collections) :
    listing Memory.driver collection w = listing Sql.driver collection d := by
  obtain ⟨table, htable, hkeeps⟩ := h.tables collection hknown
  have hall : d.store.rows? collection >>= Sql.findAll [] =
      .ok ((w.store.rows collection).filter (accepts [])) := by
    rw [htable, ok_bind, hkeeps.findAll_eq Sql.wantsIds_nil]
  exact hall.symm

section sessions
variable {text : String} {cfg : Config} {visits : List Visit}

theorem later_converse (visits : List Visit) (w : World Memory) :
    w.supply.Later (converse Memory.driver visits w).2.supply := by
  induction visits generalizing w with
  | nil => exact Supply.later_refl _
  | cons v rest ih =>
    have hvisit : w.supply.Later (handle Memory.driver v.route v.action v.request w).2.supply :=
      later_run later_answer _ w
    exact hvisit.trans (ih _)

/-- One visit is answered alike. -/
theorem Mirrors.visit (hcfg : Config.ofText text = .ok cfg) (hportable : Portable cfg) {v : Visit}
    (hroute : v.route ∈ cfg.routes) (h : Mirrors (cfg.catalog.models.map Model.collection) w d)
    (hdistinct : (handle Memory.driver v.route v.action v.request w).2.supply.Distinct) :
    (handle Memory.driver v.route v.action v.request w).1 =
        (handle Sql.driver v.route v.action v.request d).1 ∧
      Mirrors (cfg.catalog.models.map Model.collection)
        (handle Memory.driver v.route v.action v.request w).2
        (handle Sql.driver v.route v.action v.request d).2 := by
  have hnone : FoundIds [] := fun _ _ _ hmem => absurd hmem List.not_mem_nil
  obtain ⟨hresult, hmirrors⟩ := Mirrors.run hportable.named (execute_common hcfg hportable hroute)
    (.here (execute v.route v.action v.request)) hnone h hdistinct
  exact ⟨congrArg Response.ofResult hresult, hmirrors⟩

/-- After any number of visits all responses were the same, and the tables
    mirror the collections. -/
theorem Mirrors.converse (hcfg : Config.ofText text = .ok cfg) (hportable : Portable cfg)
    (hvisits : ∀ v ∈ visits, v.route ∈ cfg.routes)
    (h : Mirrors (cfg.catalog.models.map Model.collection) w d)
    (hdistinct : (converse Memory.driver visits w).2.supply.Distinct) (n : Nat) :
    (converse Memory.driver (visits.take n) w).1 = (converse Sql.driver (visits.take n) d).1 ∧
      Mirrors (cfg.catalog.models.map Model.collection)
        (converse Memory.driver (visits.take n) w).2
        (converse Sql.driver (visits.take n) d).2 := by
  induction visits generalizing w d n with
  | nil =>
    rw [List.take_nil]
    exact ⟨rfl, h⟩
  | cons v rest ih =>
    cases n with
    | zero => exact ⟨rfl, h⟩
    | succ n =>
      -- what the rest draws comes after what the visit drew
      have hvisit : (handle Memory.driver v.route v.action v.request w).2.supply.Distinct :=
        hdistinct.earlier (later_converse rest _)
      obtain ⟨hresponse, hmirrors⟩ :=
        h.visit hcfg hportable (hvisits v List.mem_cons_self) hvisit
      obtain ⟨hresponses, hmirrors'⟩ :=
        ih (fun v' hv' => hvisits v' (List.mem_cons_of_mem _ hv')) hmirrors hdistinct n
      refine ⟨?_, hmirrors'⟩
      rw [List.take_succ_cons]
      unfold Engine.converse
      dsimp only
      rw [hresponse, hresponses]

/-- A new database has an empty table for every collection of the models. -/
theorem mirrors_new {collections : List String} {db : Sql.Database}
    (h : Sql.Database.empty.ensureTables collections = .ok db) (supply : Supply) :
    Mirrors collections ⟨supply, Memory.empty⟩ ⟨supply, db⟩ where
  supply := rfl
  tables c hc := ⟨[], Sql.ensureTables_blank h c hc, .nil⟩
  minted _ _ := minted_nil supply

/-- Over a new storage in memory and over a new database every session gets the
    same responses, step by step, and at every point both hold the same records
    of each collection in the same order. -/
theorem storages_interchange (hcfg : Config.ofText text = .ok cfg) (hportable : Portable cfg)
    {conn : Connection}
    (hconn : Connection.database (cfg.catalog.models.map Model.collection) = .ok conn)
    (hvisits : ∀ v ∈ visits, v.route ∈ cfg.routes) (supply : Supply)
    (hdistinct : (talk .memory visits supply).2.supply.Distinct) (n : Nat) :
    (talk .memory (visits.take n) supply).1 = (talk conn (visits.take n) supply).1 ∧
      ∀ m ∈ cfg.catalog.models,
        listing Connection.memory.driver m.collection (talk .memory (visits.take n) supply).2 =
          listing conn.driver m.collection (talk conn (visits.take n) supply).2 := by
  unfold Connection.database at hconn
  split at hconn
  next db hdb =>
    cases hconn
    obtain ⟨hresponses, hmirrors⟩ :=
      (mirrors_new hdb supply).converse hcfg hportable hvisits hdistinct n
    refine ⟨hresponses, fun m hm => ?_⟩
    exact hmirrors.listing (List.mem_map_of_mem hm)
  · cases hconn

end sessions

/-- With one model, whose owner is an identifier, and one route, which finds its
    records by identifiers, a configuration is portable. -/
theorem portable_of_single {cfg : Config} {m : Model} {route : Route} {owner : String}
    (hmodels : cfg.catalog.models = [m]) (hroutes : cfg.routes = [route])
    (howner : m.owner = some owner) (hother : owner ≠ idField)
    (htype : (m.field? owner).map Field.type = some .objectId)
    (hbound : ∀ action rule b, route.rule? action = some rule → rule.binding = some b →
      (route.model.field? b.field).map Field.type = some .objectId) : Portable cfg where
  bound route' hroute' action rule b hrule hb := by
    rw [hroutes] at hroute'
    obtain rfl := List.mem_singleton.mp hroute'
    exact hbound action rule b hrule hb
  owned m' hm' owner' howner' := by
    rw [hmodels] at hm'
    obtain rfl := List.mem_singleton.mp hm'
    obtain rfl : owner = owner' := Option.some.inj (howner.symm.trans howner')
    exact ⟨hother, htype⟩
  named c hc c' hc' _ := by
    -- there is only one collection
    rw [hmodels] at hc hc'
    exact (List.mem_singleton.mp hc).trans (List.mem_singleton.mp hc').symm

/-- Ann's cards can move to a database: it answers her as memory does, up to the
    change that comes after the card is gone, and after her changes it lists the
    card as they left it. -/
theorem cards_move :
    ∃ cfg route conn, Config.ofText Config.cards = .ok cfg ∧ Portable cfg ∧
      Connection.database (cfg.catalog.models.map Model.collection) = .ok conn ∧
      (talk conn (anns route) Supply.still).1.map Response.status = [201, 200, 200, 204, 404] ∧
      ∃ m ∈ cfg.catalog.models, ∃ card,
        listing conn.driver m.collection (talk conn ((anns route).take 3) Supply.still).2 =
          .ok [card] ∧
        card.get? "text" = some (.str "hi") ∧ card.get? "ink" = some (.str "blue") := by
  have htest : okAnd (Config.ofDecl Config.cardsDecl) (fun cfg => cfg.onlyAnd fun m route =>
      (decide (m.owner = some "by") &&
        decide ((m.field? "by").map Field.type = some .objectId) &&
        (Action.all.all fun action => (route.rule? action).all fun rule => rule.binding.all fun b =>
          decide ((route.model.field? b.field).map Field.type = some .objectId)) &&
        okAnd (Sql.Database.empty.ensureTables [m.collection]) fun _ => true) &&
      (decide ((talk .memory (anns route) Supply.still).2.supply.issued = 1) &&
        decide ((talk .memory (anns route) Supply.still).1.map Response.status =
          [201, 200, 200, 204, 404]) &&
        okAnd (listing Connection.memory.driver m.collection
          (talk .memory ((anns route).take 3) Supply.still).2) fun cards =>
            decide (cards.map (fun card => (card.get? "text", card.get? "ink")) =
              [(some (.str "hi"), some (.str "blue"))]))) = true := by
    decide +kernel
  obtain ⟨cfg, hdecl, htest⟩ := okAnd_iff.mp htest
  have hcfg : Config.ofText Config.cards = .ok cfg := Config.ofText_cards.trans hdecl
  obtain ⟨m, route, hmodels, hroutes, htest⟩ := Config.onlyAnd_iff.mp htest
  simp only [Bool.and_eq_true, decide_eq_true_eq, List.all_eq_true] at htest
  obtain ⟨⟨⟨⟨howner, htype⟩, hbindings⟩, hdatabase⟩, ⟨hissued, hstatus⟩, hlisted⟩ := htest
  obtain ⟨db, htables, -⟩ := okAnd_iff.mp hdatabase
  have hbound : ∀ action rule b, route.rule? action = some rule → rule.binding = some b →
      (route.model.field? b.field).map Field.type = some .objectId := by
    intro action rule b hrule hb
    have hall := hbindings action (by cases action <;> decide)
    rw [hrule, Option.all_some, hb, Option.all_some] at hall
    exact of_decide_eq_true hall
  have hportable : Portable cfg :=
    portable_of_single hmodels hroutes howner (by decide) htype hbound
  have hdatabase : Connection.database (cfg.catalog.models.map Model.collection) =
      .ok ⟨Sql.Database, Sql.driver, db⟩ := by
    have htables : Sql.Database.empty.ensureTables (cfg.catalog.models.map Model.collection) =
        .ok db := by
      rw [hmodels]
      exact htables
    unfold Connection.database
    rw [htables]
  have hvisits : ∀ v ∈ anns route, v.route ∈ cfg.routes := by
    intro v hv
    rw [route_of_anns v hv, hroutes]
    exact List.mem_singleton.mpr rfl
  have hsame := storages_interchange hcfg hportable hdatabase hvisits Supply.still
    (Supply.distinct_of_one hissued)
  have hm : m ∈ cfg.catalog.models := by
    rw [hmodels]
    exact List.mem_singleton.mpr rfl
  obtain ⟨hresponses, -⟩ := hsame 5
  obtain ⟨-, hlistings⟩ := hsame 3
  refine ⟨cfg, route, _, hcfg, hportable, hdatabase, ?_, m, hm, ?_⟩
  · have hall : (anns route).take 5 = anns route := rfl
    rw [hall] at hresponses
    rw [← hresponses]
    exact hstatus
  · obtain ⟨cards, hcards, hvalues⟩ := okAnd_iff.mp hlisted
    obtain ⟨card, rest, rfl, hcard, hrest⟩ := List.map_eq_cons_iff.mp (of_decide_eq_true hvalues)
    obtain rfl := List.map_eq_nil_iff.mp hrest
    obtain ⟨htext, hink⟩ := Prod.mk.inj hcard
    exact ⟨card, (hlistings m hm).symm.trans hcards, htext, hink⟩

end RecordGate.Engine

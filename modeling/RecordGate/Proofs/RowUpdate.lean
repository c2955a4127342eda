import RecordGate.Proofs.Session
import RecordGate.Proofs.Tables

/-! # The row that an update writes

  An update of a table finds its row by a filter, merges the values into the
  record there, and writes the result to the row whose key is the identifier of
  the result.

  **Key idea.** In every state that calls can bring about, the key of a row is
  the identifier in its document and no key occurs twice (`Filed`). So the row
  that is written is the one that was found exactly if the values leave the
  identifier as it is.

  - `filed_replay`: tables stay filed, call after call.
  - `setDocument_iff`: which row gets the document.
  - `update_writes` says what an update leaves; `update_overwrites_other` is one
    that changes the identifier and destroys another record.
-/

namespace RecordGate.Storage.Sql

/-! ### Filed tables -/

/-- Every row of a table holds a record under its identifier, and no key occurs
    twice. -/
structure Filed (table : List Row) : Prop where
  /-- The rows hold records. -/
  holds : ∀ row ∈ table, ∃ r, row.Holds r
  /-- No key occurs twice. -/
  nodup : (table.map Row.key).Nodup

variable {filter values r d : Record} {table table' above below : List Row} {row : Row}
  {key collection : String}

theorem filed_nil : Filed [] := ⟨nofun, List.nodup_nil⟩

theorem Filed.sublist (h : Filed table) (hsub : table'.Sublist table) : Filed table' where
  holds row hrow := h.holds row (hsub.subset hrow)
  nodup := h.nodup.sublist (hsub.map Row.key)

/-- A record goes to the end under a key that is not taken. -/
theorem Filed.append (h : Filed table) (hid : r.get? idField = some (.str key))
    (hfree : ∀ row ∈ table, row.key ≠ key) : Filed (table ++ [⟨key, .json (.obj r)⟩]) := by
  constructor
  case holds =>
    intro row hrow
    rcases List.mem_append.mp hrow with hrow | hrow
    · exact h.holds row hrow
    · rw [List.mem_singleton.mp hrow]
      exact ⟨r, rfl, hid⟩
  case nodup =>
    rw [List.map_append, List.nodup_append]
    refine ⟨h.nodup, List.nodup_singleton _, ?_⟩
    intro k hk k' hk'
    obtain ⟨row, hrow, rfl⟩ := List.mem_map.mp hk
    rw [List.mem_singleton.mp hk']
    exact hfree row hrow

theorem keys_setDocument (key : String) (doc : Document) (table : List Row) :
    (setDocument key doc table).map Row.key = table.map Row.key := by
  unfold setDocument
  rw [List.map_map]
  refine List.map_congr_left fun row _ => ?_
  by_cases h : row.key = key <;> simp [h]

/-- A record is written to the row of its own identifier. -/
theorem Filed.setDocument (h : Filed table) (hid : r.get? idField = some (.str key)) :
    Filed (setDocument key (.json (.obj r)) table) where
  holds row hrow := by
    obtain ⟨old, hold, rfl⟩ := List.mem_map.mp hrow
    by_cases hkey : old.key = key
    · rw [if_pos hkey]
      exact ⟨r, rfl, by rw [hid, ← hkey]⟩
    · rw [if_neg hkey]
      exact h.holds old hold
  nodup := by
    rw [keys_setDocument]
    exact h.nodup

theorem recordKey_eq_ok : recordKey r = .ok key ↔ r.get? idField = some (.str key) := by
  unfold recordKey
  split
  next id hid => simp [hid]
  next hno =>
    refine iff_of_false nofun fun hid => ?_
    exact hno key hid

/-! ### Where a table is changed -/

/-- A row is the first that a filter accepts. -/
structure FirstRow (filter : Record) (table above : List Row) (row : Row) (below : List Row) :
    Prop where
  /-- Where it stands. -/
  split : table = above ++ row :: below
  /-- The filter accepts it. -/
  hit : row.document.accepts filter = .ok true
  /-- It accepts none before. -/
  miss : ∀ other ∈ above, other.document.accepts filter = .ok false

theorem firstRow_eq_some :
    firstRow filter table = .ok (some row) ↔
      ∃ above below, FirstRow filter table above row below := by
  constructor
  · intro h
    induction table with
    | nil => cases h
    | cons first rest ih =>
      obtain ⟨hit, haccepts, h⟩ := bind_eq_ok_iff.mp h
      cases hit with
      | true =>
        cases h
        exact ⟨[], rest, rfl, haccepts, nofun⟩
      | false =>
        obtain ⟨above, below, rfl, hrow, hmiss⟩ := ih h
        refine ⟨first :: above, below, rfl, hrow, ?_⟩
        intro other hother
        rcases List.mem_cons.mp hother with rfl | hother
        · exact haccepts
        · exact hmiss other hother
  · rintro ⟨above, below, rfl, hit, miss⟩
    induction above with
    | nil =>
      rw [List.nil_append, firstRow, hit]
      rfl
    | cons first above ih =>
      have hfirst := miss first List.mem_cons_self
      have hrest := ih fun other hother => miss other (List.mem_cons_of_mem _ hother)
      rw [List.cons_append, firstRow, hfirst]
      exact hrest

/-- An update writes what it merged to the row with the identifier of the
    result. -/
theorem updateRow_eq_some (h : updateRow filter values table = .ok (some (r, table'))) :
    ∃ above row below, ∃ d : Record, ∃ id, FirstRow filter table above row below ∧
      row.document = .json (.obj d) ∧ r = d.merge values ∧ r.get? idField = some (.str id) ∧
      table' = setDocument id (.json (.obj r)) table := by
  obtain ⟨found, hfound, h⟩ := bind_eq_ok_iff.mp h
  cases found with
  | none => cases h
  | some row =>
    obtain ⟨d, hd, h⟩ := bind_eq_ok_iff.mp h
    obtain ⟨id, hid, h⟩ := bind_eq_ok_iff.mp h
    cases h
    obtain ⟨above, below, hfirst⟩ := firstRow_eq_some.mp hfound
    have hdocument : row.document = .json (.obj d) := by
      unfold Document.record at hd
      split at hd
      next heq =>
        cases hd
        exact heq
      · cases hd
      · cases hd
    exact ⟨above, row, below, d, id, hfirst, hdocument, rfl, recordKey_eq_ok.mp hid, rfl⟩

/-- If the result has a text for its identifier, the update returns it. -/
theorem updateRow_of_first (hfirst : FirstRow filter table above row below)
    (hd : row.document = .json (.obj d)) {id : String}
    (hid : (d.merge values).get? idField = some (.str id)) :
    updateRow filter values table =
      .ok (some (d.merge values, setDocument id (.json (.obj (d.merge values))) table)) := by
  unfold updateRow
  rw [firstRow_eq_some.mpr ⟨above, below, hfirst⟩, ok_bind]
  dsimp only
  rw [hd]
  show (recordKey (d.merge values) >>= fun key =>
    pure (some (d.merge values, setDocument key (.json (.obj (d.merge values))) table))) = _
  rw [recordKey_eq_ok.mpr hid]
  rfl

/-- Writing to the key of a row changes its document alone. -/
theorem setDocument_at (hnodup : (table.map Row.key).Nodup) (hsplit : table = above ++ row :: below)
    (doc : Document) :
    setDocument row.key doc table = above ++ { row with document := doc } :: below := by
  rw [hsplit, List.map_append, List.map_cons, List.nodup_append, List.nodup_cons] at hnodup
  obtain ⟨-, ⟨hbelow, -⟩, habove⟩ := hnodup
  have hup : ∀ other ∈ above, other.key ≠ row.key := fun other hother =>
    habove _ (List.mem_map_of_mem hother) _ List.mem_cons_self
  have hdown : ∀ other ∈ below, other.key ≠ row.key := fun other hother hsame =>
    hbelow (hsame ▸ List.mem_map_of_mem hother)
  have habove' := setDocument_of_others (d := doc) hup
  have hbelow' := setDocument_of_others (d := doc) hdown
  unfold setDocument at habove' hbelow' ⊢
  rw [hsplit, List.map_append, List.map_cons, habove', hbelow', if_pos rfl]

/-- The row that was found gets the document, and it alone, exactly if the
    identifier is the one it had. -/
theorem setDocument_iff (h : Filed table) (hfirst : FirstRow filter table above row below)
    (hd : row.document = .json (.obj d)) {id : String} (hid : r.get? idField = some (.str id)) :
    (setDocument id (.json (.obj r)) table).map Row.document =
        above.map Row.document ++ .json (.obj r) :: below.map Row.document ↔
      r.get? idField = d.get? idField := by
  have hrow : row ∈ table := hfirst.split ▸ List.mem_append_right _ List.mem_cons_self
  -- what the row holds is identified by its key
  have hkey : d.get? idField = some (.str row.key) := by
    obtain ⟨d', hdocument, hkey⟩ := h.holds row hrow
    rw [hd] at hdocument
    cases hdocument
    exact hkey
  constructor
  · intro hdocuments
    by_cases hsame : row.key = id
    · rw [hkey, hid, hsame]
    · -- the row keeps its document, so that is already the new one
      have hat : (setDocument id (.json (.obj r)) table).map Row.document =
          (setDocument id (.json (.obj r)) above).map Row.document ++
            row.document :: (setDocument id (.json (.obj r)) below).map Row.document := by
        rw [hfirst.split]
        simp [setDocument, hsame]
      have hlength : ((setDocument id (.json (.obj r)) above).map Row.document).length =
          (above.map Row.document).length := by
        simp [setDocument]
      rw [hat] at hdocuments
      have hrows := (List.append_inj hdocuments hlength).2
      have hdoc : row.document = .json (.obj r) := (List.cons.inj hrows).1
      rw [hd] at hdoc
      cases hdoc
      rfl
  · intro hsame
    have hid' : row.key = id := by
      rw [hid, hkey] at hsame
      cases hsame
      rfl
    rw [← hid', setDocument_at h.nodup hfirst.split]
    simp

/-! ### Databases -/

/-- All tables of a database have a property. -/
def Database.All (P : List Row → Prop) (db : Database) : Prop :=
  ∀ name table, db.tables.get? name = some table → P table

/-- All tables of a database are filed. -/
def Database.Filed (db : Database) : Prop :=
  ∀ name table, db.tables.get? name = some table → Sql.Filed table

variable {db db' : Database} {w : World Database} {collections : List String}
  {P : List Row → Prop}

theorem Database.All.rows (h : db.All P) (hrows : db.rows? collection = .ok table) : P table :=
  h _ table (rows?_eq_ok.mp hrows).2

theorem Database.All.setRows (h : db.All P) (htable : P table) (collection : String) :
    (db.setRows collection table).All P := by
  intro name table' hget
  change (db.tables.put (tableKey collection) table).get? name = some table' at hget
  rw [Keyed.get?_put] at hget
  split at hget
  · cases hget
    exact htable
  · exact h name table' hget

theorem Database.Filed.rows (h : db.Filed) (hrows : db.rows? collection = .ok table) :
    Sql.Filed table :=
  Database.All.rows h hrows

theorem Database.Filed.setRows (h : db.Filed) (htable : Sql.Filed table) (collection : String) :
    (db.setRows collection table).Filed :=
  Database.All.setRows h htable collection

theorem insertRow_filed (h : Filed table) (hinsert : insertRow collection r table = .ok table') :
    Filed table' := by
  obtain ⟨id, hid, hinsert⟩ := bind_eq_ok_iff.mp hinsert
  split at hinsert
  · cases hinsert
  next hfree =>
    cases hinsert
    refine h.append (recordKey_eq_ok.mp hid) fun row hrow htaken => hfree ?_
    exact List.any_eq_true.mpr ⟨row, hrow, decide_eq_true htaken⟩

theorem updateRow_filed (h : Filed table)
    (hupdate : updateRow filter values table = .ok (some (r, table'))) : Filed table' := by
  obtain ⟨above, row, below, d, id, -, -, -, hid, rfl⟩ := updateRow_eq_some hupdate
  exact h.setDocument hid

theorem deleteRow_filed (h : Filed table) (hdelete : deleteRow filter table = .ok (some table')) :
    Filed table' := by
  obtain ⟨found, -, hdelete⟩ := bind_eq_ok_iff.mp hdelete
  cases found with
  | none => cases hdelete
  | some row =>
    cases hdelete
    exact h.sublist List.filter_sublist

/-- How a call changes the table that it is about. -/
inductive Change (supply : Supply) : Call → List Row → List Row → Prop
  | insert {collection : String} {values : Record} {table table' : List Row}
      (h : insertRow collection (withId values supply).1 table = .ok table') :
      Change supply (.insertOne collection values) table table'
  | update {collection : String} {filter values r : Record} {table table' : List Row}
      (h : updateRow filter values table = .ok (some (r, table'))) :
      Change supply (.updateOne collection filter values) table table'
  | delete {collection : String} {filter : Record} {table table' : List Row}
      (h : deleteRow filter table = .ok (some table')) :
      Change supply (.deleteOne collection filter) table table'

/-- A call changes nothing, or the table that it is about. -/
theorem answer_store (c : Call) (w : World Database) :
    (driver.answer c w).2.store = w.store ∨
      ∃ table table', w.store.rows? c.collection = .ok table ∧ Change w.supply c table table' ∧
        (driver.answer c w).2.store = w.store.setRows c.collection table' := by
  change (Database.answer c w).2.store = _ ∨ ∃ table table', _ ∧ _ ∧
    (Database.answer c w).2.store = _
  cases c with
  | findOne collection filter => exact .inl rfl
  | findAll collection filter => exact .inl rfl
  | insertOne collection values =>
    unfold Database.answer
    dsimp only
    split
    next rows hrows =>
      obtain ⟨table, htable, hinsert⟩ := bind_eq_ok_iff.mp hrows
      exact .inr ⟨table, rows, htable, .insert hinsert, rfl⟩
    · exact .inl rfl
  | updateOne collection filter values =>
    unfold Database.answer
    dsimp only
    split
    next r rows hrows =>
      obtain ⟨table, htable, hupdate⟩ := bind_eq_ok_iff.mp hrows
      exact .inr ⟨table, rows, htable, .update hupdate, rfl⟩
    · exact .inl rfl
    · exact .inl rfl
  | deleteOne collection filter =>
    unfold Database.answer
    dsimp only
    split
    next rows hrows =>
      obtain ⟨table, htable, hdelete⟩ := bind_eq_ok_iff.mp hrows
      exact .inr ⟨table, rows, htable, .delete hdelete, rfl⟩
    · exact .inl rfl
    · exact .inl rfl

theorem Change.filed {supply : Supply} {c : Call} (h : Change supply c table table')
    (htable : Filed table) : Filed table' := by
  cases h with
  | insert h => exact insertRow_filed htable h
  | update h => exact updateRow_filed htable h
  | delete h => exact deleteRow_filed htable h

/-- A call leaves filed tables behind. -/
theorem filed_answer (h : w.store.Filed) (c : Call) : (driver.answer c w).2.store.Filed := by
  rcases answer_store c w with hsame | ⟨table, table', htable, hchange, hstore⟩
  · rw [hsame]
    exact h
  · rw [hstore]
    exact h.setRows (hchange.filed (h.rows htable)) c.collection

/-- The world after some calls. -/
def replay : List Call → World Database → World Database
  | [], w => w
  | c :: rest, w => replay rest (driver.answer c w).2

/-- Tables stay filed, call after call. -/
theorem filed_replay (h : w.store.Filed) (calls : List Call) : (replay calls w).store.Filed := by
  induction calls generalizing w with
  | nil => exact h
  | cons c rest ih => exact ih (filed_answer h c)

theorem ensureTable_filed (h : db.Filed) (hdb : db.ensureTable collection = .ok db') :
    db'.Filed := by
  obtain ⟨⟨⟩, -, hdb⟩ := bind_eq_ok_iff.mp hdb
  split at hdb
  · cases hdb
    exact h
  · split at hdb
    · cases hdb
    · cases hdb
      exact h.setRows filed_nil collection

theorem ensureTables_filed (h : db.Filed) (hdb : db.ensureTables collections = .ok db') :
    db'.Filed := by
  induction collections generalizing db with
  | nil =>
    cases hdb
    exact h
  | cons collection rest ih =>
    obtain ⟨db₁, hfirst, hdb⟩ := bind_eq_ok_iff.mp hdb
    exact ih (ensureTable_filed h hfirst) hdb

theorem filed_empty : Database.empty.Filed := fun _ _ h => by cases h

/-! ### The update -/

/-- The documents of a collection in the order of insertion. -/
def documents (db : Database) (collection : String) : Except Error (List Document) :=
  (db.rows? collection).map (List.map Row.document)

theorem documents_setRows (h : db.rows? collection = .ok table) (table' : List Row) :
    documents (db.setRows collection table') collection = .ok (table'.map Row.document) := by
  unfold documents
  rw [rows?_setRows h, if_pos rfl]
  rfl

/-- What the driver answers to an update, and the world that it leaves. -/
def update (collection : String) (filter values : Record) (w : World Database) :
    Except Error (Option Record) × World Database :=
  driver.answer (.updateOne collection filter values) w

theorem update_eq (collection : String) (filter values : Record) (w : World Database) :
    update collection filter values w =
      match w.store.rows? collection >>= updateRow filter values with
      | .ok (some (r, rows)) => (.ok (some r), { w with store := w.store.setRows collection rows })
      | .ok none => (.ok none, w)
      | .error e => (.error e, w) := by
  show Database.answer (.updateOne collection filter values) w = _
  unfold Database.answer
  rfl

/-- What an update does to a database that was made for some collections and has
    answered any calls since.

    - If the filter accepts a row and what is merged there has a text for its
      identifier, the update returns it.
    - If it returns a record, this is the first record that the filter accepts
      with the values merged in. It is written to the row whose key is its
      identifier, if there is one, and every other row is kept. So the documents
      are the old ones with the found one replaced exactly if the identifier is
      the one it had.
    - Tables of other names are kept.
    - If it returns no record or fails, nothing is changed. -/
theorem update_writes (h : Database.empty.ensureTables collections = .ok db) (supply : Supply)
    (calls : List Call) (collection : String) (filter values : Record) :
    let w := replay calls ⟨supply, db⟩
    let run := update collection filter values w
    (∀ table above row below, ∀ d : Record, w.store.rows? collection = .ok table →
      FirstRow filter table above row below → row.document = .json (.obj d) →
      (∃ id, (d.merge values).get? idField = some (.str id)) →
      run.1 = .ok (some (d.merge values))) ∧
    (∀ r, run.1 = .ok (some r) → ∃ table above row below, ∃ d : Record, ∃ id,
      w.store.rows? collection = .ok table ∧ FirstRow filter table above row below ∧
      row.document = .json (.obj d) ∧ r = d.merge values ∧ r.get? idField = some (.str id) ∧
      run.2.store.rows? collection = .ok (setDocument id (.json (.obj r)) table) ∧
      (documents run.2.store collection =
          .ok (above.map Row.document ++ .json (.obj r) :: below.map Row.document) ↔
        r.get? idField = d.get? idField)) ∧
    (∀ other table, tableKey other ≠ tableKey collection →
      w.store.rows? other = .ok table → run.2.store.rows? other = .ok table) ∧
    ((run.1 = .ok none ∨ ∃ e, run.1 = .error e) → run.2 = w) := by
  intro w run
  have hfiled : w.store.Filed := filed_replay (ensureTables_filed filed_empty h) calls
  have hrun : run = _ := update_eq collection filter values w
  refine ⟨?_, ?_⟩
  · rintro table above row below d htable hfirst hd ⟨id, hid⟩
    rw [hrun, htable, ok_bind, updateRow_of_first hfirst hd hid]
  -- what is left is about the one way in which the update ended
  cases hresult : w.store.rows? collection >>= updateRow filter values with
  | error e =>
    rw [hresult] at hrun
    rw [hrun]
    exact ⟨nofun, fun _ _ _ hother => hother, fun _ => rfl⟩
  | ok written =>
    cases written with
    | none =>
      rw [hresult] at hrun
      rw [hrun]
      exact ⟨nofun, fun _ _ _ hother => hother, fun _ => rfl⟩
    | some hit =>
      obtain ⟨r, table'⟩ := hit
      rw [hresult] at hrun
      rw [hrun]
      obtain ⟨table, htable, hupdate⟩ := bind_eq_ok_iff.mp hresult
      refine ⟨?_, ?_, ?_⟩
      · intro r' hr'
        cases hr'
        obtain ⟨above, row, below, d, id, hfirst, hd, hr, hid, rfl⟩ := updateRow_eq_some hupdate
        refine ⟨table, above, row, below, d, id, htable, hfirst, hd, hr, hid, ?_, ?_⟩
        · rw [rows?_setRows htable, if_pos rfl]
        · rw [documents_setRows htable, Except.ok.injEq]
          exact setDocument_iff (hfiled.rows htable) hfirst hd hid
      · intro other rows hother hrows
        rw [rows?_setRows hrows, if_neg (Ne.symm hother)]
      · rintro (hnone | ⟨e, he⟩)
        · cases hnone
        · cases he

/-- A note with a title. -/
def note (id title : String) : Record := [(idField, .str id), ("title", .str title)]

/-- Two notes are stored. -/
def twoNotes : List Call :=
  [.insertOne "notes" (note "a" "one"), .insertOne "notes" (note "b" "two")]

/-- The filter for the first of them. -/
def byFirst : Record := [(idField, .str "a")]

/-- A new title replaces the document of the note that was found. -/
theorem note_retitled :
    ∃ db, Database.empty.ensureTables ["notes"] = .ok db ∧
      let w := replay twoNotes ⟨Supply.still, db⟩
      let run := update "notes" byFirst [("title", .str "three")] w
      ∃ r, run.1 = .ok (some r) ∧ ∃ table above row below, w.store.rows? "notes" = .ok table ∧
        FirstRow byFirst table above row below ∧
        documents run.2.store "notes" =
          .ok (above.map Row.document ++ .json (.obj r) :: below.map Row.document) := by
  have htest : okAnd (Database.empty.ensureTables ["notes"]) (fun db =>
      okAnd (update "notes" byFirst [("title", .str "three")]
        (replay twoNotes ⟨Supply.still, db⟩)).1 Option.isSome) = true := by decide +kernel
  obtain ⟨db, hdb, htest⟩ := okAnd_iff.mp htest
  obtain ⟨answer, hanswer, hsome⟩ := okAnd_iff.mp htest
  obtain ⟨r, rfl⟩ := Option.isSome_iff_exists.mp hsome
  have hwrites := update_writes hdb Supply.still twoNotes "notes" byFirst [("title", .str "three")]
  obtain ⟨table, above, row, below, d, id, htable, hfirst, -, rfl, -, -, hiff⟩ :=
    hwrites.2.1 r hanswer
  have hsame : (d.merge [("title", .str "three")]).get? idField = d.get? idField :=
    Record.get?_merge_of_none d (by decide)
  exact ⟨db, hdb, _, hanswer, table, above, row, below, htable, hfirst, hiff.mpr hsame⟩

/-- An update that changes the identifier to that of the other note destroys
    this one, and leaves the note that it found and returned changed. -/
theorem update_overwrites_other :
    ∃ db r, Database.empty.ensureTables ["notes"] = .ok db ∧
      let w := replay twoNotes ⟨Supply.still, db⟩
      let run := update "notes" byFirst (note "b" "three") w
      run.1 = .ok (some r) ∧
      documents w.store "notes" =
        .ok [.json (.obj (note "a" "one")), .json (.obj (note "b" "two"))] ∧
      documents run.2.store "notes" = .ok [.json (.obj (note "a" "one")), .json (.obj r)] ∧
      documents run.2.store "notes" ≠ .ok [.json (.obj r), .json (.obj (note "b" "two"))] := by
  have htest : okAnd (Database.empty.ensureTables ["notes"]) (fun db =>
      okAnd (update "notes" byFirst (note "b" "three")
        (replay twoNotes ⟨Supply.still, db⟩)).1 (fun answer => answer.any fun r =>
          decide (documents (replay twoNotes ⟨Supply.still, db⟩).store "notes" =
            .ok [.json (.obj (note "a" "one")), .json (.obj (note "b" "two"))]) &&
          decide (documents (update "notes" byFirst (note "b" "three")
            (replay twoNotes ⟨Supply.still, db⟩)).2.store "notes" =
              .ok [.json (.obj (note "a" "one")), .json (.obj r)]) &&
          decide (r ≠ note "a" "one"))) = true := by decide +kernel
  obtain ⟨db, hdb, htest⟩ := okAnd_iff.mp htest
  obtain ⟨answer, hanswer, htest⟩ := okAnd_iff.mp htest
  obtain ⟨r, rfl, hdocuments⟩ := (Option.any_eq_true _ _).mp htest
  simp only [Bool.and_eq_true, decide_eq_true_eq] at hdocuments
  obtain ⟨⟨hbefore, hafter⟩, hchanged⟩ := hdocuments
  refine ⟨db, r, hdb, hanswer, hbefore, hafter, ?_⟩
  intro hsame
  rw [hafter, Except.ok.injEq, List.cons.injEq, Document.json.injEq, Json.obj.injEq] at hsame
  exact hchanged hsame.1.symm

end RecordGate.Storage.Sql

import Mathlib.Data.List.Forall2
import RecordGate.Proofs.Collection
import RecordGate.Storage.Sql.Database

/-! # Tables and collections

  The rows of a table and the records of a collection, side by side.

  **Key idea.** A table keeps a list of records if, row by row, the document is
  the record and the key is its identifier (`Keeps`). As long as a filter wants
  nothing but identifiers (`WantsIds`), SQL and memory compare alike
  (`Row.Holds.accepts`). So each query of a table comes to what memory says of
  the records, and each change leaves a table that keeps the changed records.

  - `Keeps.findOne_eq` and `Keeps.findAll_eq`: the queries.
  - `Keeps.insertRow_free`, `Keeps.updateRow_hit` and `Keeps.deleteRow_hit`: the
    changes. They find rows by their keys, so the records have to be identified.
  - `ensureTables_blank`: a new database has an empty table for each
    collection.
-/

namespace RecordGate.Storage.Sql

/-! ### Identifiers in SQL -/

theorem digit_ne_bracket : ∀ n < 16, Hex.digit n ≠ '[' ∧ Hex.digit n ≠ '\x7b' := by decide

/-- The text of an identifier opens with a digit. -/
theorem toList_toHex (id : ObjectId) : ∃ n < 16, ∃ rest, id.toHex.toList = Hex.digit n :: rest := by
  obtain ⟨bytes, hlength⟩ := id
  cases bytes with
  | nil => cases hlength
  | cons b bytes =>
    have hb : b.toNat < 256 := b.toNat_lt
    exact ⟨b.toNat / 16, by omega, _, String.toList_ofList⟩

/-- An identifier is no array and no object, though SQL makes texts of these. -/
theorem ofJson_eq_text {v : Json} {id : ObjectId} :
    Value.ofJson v = .text id.toHex ↔ v = .str id.toHex := by
  obtain ⟨n, hn, rest, hopen⟩ := toList_toHex id
  obtain ⟨hbracket, hbrace⟩ := digit_ne_bracket n hn
  constructor
  · intro h
    cases v with
    | null => cases h
    | bool b => cases h
    | num n =>
      simp only [Value.ofJson] at h
      split at h <;> cases h
    | str s =>
      cases h
      rfl
    | arr items =>
      have htext : (Json.arr items).text = id.toHex := Value.text.inj h
      rw [← htext, Json.text, String.toList_append, String.toList_append] at hopen
      exact absurd (List.cons.inj hopen).1.symm hbracket
    | obj members =>
      have htext : (Json.obj members).text = id.toHex := Value.text.inj h
      rw [← htext, Json.text, String.toList_append, String.toList_append] at hopen
      exact absurd (List.cons.inj hopen).1.symm hbrace
  · rintro rfl
    rfl

theorem equal_text (v : Value) (s : String) : v.equal (.text s) = true ↔ v = .text s := by
  cases v <;> simp [Value.equal]

/-- SQL and memory agree on what equals an identifier. -/
theorem equal_identifier (v : Json) (id : ObjectId) :
    (Value.ofJson v).equal (.text id.toHex) = v.same (.str id.toHex) := by
  rw [Bool.eq_iff_iff, equal_text, ofJson_eq_text, Json.same_str]

/-- An identifier can stand between quotes. -/
theorem quotable {name : String} (h : Text.isIdent name = true) :
    name.toList.contains '"' = false := by
  have hquote : '"' ∉ name.toList := (Text.isIdent_iff.mp h).not_mem (by decide)
  simpa using hquote

/-! ### Rows that hold records -/

/-- A row holds a record under its identifier. -/
structure Row.Holds (row : Row) (r : Record) : Prop where
  /-- The document is the record. -/
  document : row.document = .json (.obj r)
  /-- The key is its identifier. -/
  key : r.get? idField = some (.str row.key)

/-- A table keeps a list of records, row by row. -/
abbrev Keeps (table : List Row) (rows : List Record) : Prop :=
  List.Forall₂ Row.Holds table rows

/-- A filter that wants an identifier under each of its names. -/
def WantsIds (filter : Record) : Prop :=
  ∀ entry ∈ filter, Text.isIdent entry.1 = true ∧ ∃ id : ObjectId, entry.2 = .str id.toHex

theorem wantsIds_nil : WantsIds [] := fun _ h => absurd h List.not_mem_nil

theorem WantsIds.insert {filter : Record} (h : WantsIds filter) {name : String}
    (hname : Text.isIdent name = true) (id : ObjectId) :
    WantsIds (Record.insert filter name (.str id.toHex)) := by
  intro entry hentry
  rcases Record.mem_insert hentry with rfl | hentry
  · exact ⟨hname, id, rfl⟩
  · exact h entry hentry

variable {filter values r : Record} {rows before after : List Record} {row : Row}
  {table above below : List Row}

/-- A document is searched as memory searches the record in it. -/
theorem Row.Holds.accepts (h : row.Holds r) (hfilter : WantsIds filter) :
    row.document.accepts filter = .ok (Storage.accepts filter r) := by
  induction filter with
  | nil => rfl
  | cons entry rest ih =>
    obtain ⟨name, wanted⟩ := entry
    obtain ⟨hname, id, rfl⟩ := hfilter _ List.mem_cons_self
    have ih := ih fun entry hentry => hfilter entry (List.mem_cons_of_mem _ hentry)
    rw [Document.accepts, h.document]
    simp only [Document.extract, quotable hname]
    cases hget : r.get? name with
    | none =>
      have hno : Storage.accepts ((name, .str id.toHex) :: rest) r = false := by
        simp [Storage.accepts, hget]
      rw [hno]
      rfl
    | some v =>
      have hfirst : Storage.accepts ((name, .str id.toHex) :: rest) r =
          (v.same (.str id.toHex) && Storage.accepts rest r) := by
        simp [Storage.accepts, hget]
      have hequal : (Value.ofJson v).equal (Value.ofJson (.str id.toHex)) =
          v.same (.str id.toHex) := equal_identifier v id
      rw [hfirst, ← h.document, ih]
      show (if (Value.ofJson v).equal (Value.ofJson (.str id.toHex)) then _ else _) = _
      rw [hequal]
      cases v.same (.str id.toHex) <;> rfl

/-! ### Queries -/

/-- What a table keeps around a row is what a collection has around the record
    in it. -/
structure Placed (table above : List Row) (row : Row) (below : List Row) (before : List Record)
    (r : Record) (after : List Record) : Prop where
  /-- Where the row stands. -/
  split : table = above ++ row :: below
  /-- What stands before it. -/
  before : Keeps above before
  /-- The row holds the record. -/
  holds : row.Holds r
  /-- What stands after it. -/
  after : Keeps below after

theorem Keeps.firstRow_missed (h : Keeps table rows) (hfilter : WantsIds filter)
    (hmissed : rows.find? (Storage.accepts filter) = none) : firstRow filter table = .ok none := by
  induction h with
  | nil => rfl
  | @cons row r table rows hrow _ ih =>
    rw [List.find?_cons] at hmissed
    split at hmissed
    · cases hmissed
    next hno =>
      rw [firstRow, hrow.accepts hfilter, hno, ok_bind]
      exact ih hmissed

/-- The first row that a filter accepts holds the first record that it
    accepts. -/
theorem Keeps.firstRow_hit (h : Keeps table rows) (hfilter : WantsIds filter)
    (hit : FirstHit filter rows before r after) :
    ∃ above row below, Placed table above row below before r after ∧
      firstRow filter table = .ok (some row) := by
  obtain ⟨rfl, hit, miss⟩ := hit
  -- the search goes on in both lists until the hit
  induction before generalizing table with
  | nil =>
    obtain ⟨row, below, hrow, hbelow, rfl⟩ := List.forall₂_cons_right_iff.mp h
    refine ⟨[], row, below, ⟨rfl, .nil, hrow, hbelow⟩, ?_⟩
    rw [firstRow, hrow.accepts hfilter, hit]
    rfl
  | cons first before ih =>
    obtain ⟨top, rest, htop, hrest, rfl⟩ := List.forall₂_cons_right_iff.mp h
    obtain ⟨above, row, below, ⟨rfl, habove, hrow, hbelow⟩, hfirst⟩ :=
      ih (fun x hx => miss x (List.mem_cons_of_mem _ hx)) hrest
    refine ⟨top :: above, row, below, ⟨rfl, .cons htop habove, hrow, hbelow⟩, ?_⟩
    have hno : Storage.accepts filter first = false := miss first List.mem_cons_self
    rw [firstRow, htop.accepts hfilter, hno, ok_bind]
    exact hfirst

/-- The first record is found as in memory. -/
theorem Keeps.findOne_eq (h : Keeps table rows) (hfilter : WantsIds filter) :
    findOne filter table = .ok (rows.find? (Storage.accepts filter)) := by
  unfold findOne
  rcases hit_or_missed filter rows with ⟨before, r, after, hit⟩ | hmissed
  · obtain ⟨above, row, below, hplaced, hfirst⟩ := h.firstRow_hit hfilter hit
    rw [hfirst, hit.find?, ok_bind]
    dsimp only
    rw [hplaced.holds.document]
    rfl
  · rw [h.firstRow_missed hfilter hmissed, hmissed]
    rfl

theorem Keeps.recordsOf_eq (h : Keeps table rows) : recordsOf table = .ok rows := by
  induction h with
  | nil => rfl
  | @cons row r table rows hrow _ ih =>
    rw [recordsOf, hrow.document, ih]
    rfl

theorem Keeps.exists_acceptedRows (h : Keeps table rows) (hfilter : WantsIds filter) :
    ∃ hits, acceptedRows filter table = .ok hits ∧
      Keeps hits (rows.filter (Storage.accepts filter)) := by
  induction h with
  | nil => exact ⟨[], rfl, .nil⟩
  | @cons row r table rows hrow _ ih =>
    obtain ⟨hits, hrest, hkeeps⟩ := ih
    rw [acceptedRows, hrow.accepts hfilter, hrest, ok_bind, ok_bind]
    cases hit : Storage.accepts filter r with
    | true =>
      rw [List.filter_cons_of_pos hit]
      exact ⟨row :: hits, rfl, .cons hrow hkeeps⟩
    | false =>
      have hno : ¬Storage.accepts filter r = true := by simp [hit]
      rw [List.filter_cons_of_neg hno]
      exact ⟨hits, rfl, hkeeps⟩

/-- All records are found as in memory, in the same order. -/
theorem Keeps.findAll_eq (h : Keeps table rows) (hfilter : WantsIds filter) :
    findAll filter table = .ok (rows.filter (Storage.accepts filter)) := by
  obtain ⟨hits, hrows, hkeeps⟩ := h.exists_acceptedRows hfilter
  rw [findAll, hrows, ok_bind, hkeeps.recordsOf_eq]

/-! ### Changes -/

/-- Every row of a table holds one of the records. -/
theorem Keeps.exists_record (h : Keeps table rows) (hrow : row ∈ table) :
    ∃ r ∈ rows, row.Holds r := by
  induction h with
  | nil => cases hrow
  | @cons first r table rows hfirst _ ih =>
    rcases List.mem_cons.mp hrow with rfl | hrow
    · exact ⟨r, List.mem_cons_self, hfirst⟩
    · obtain ⟨r', hr', hholds⟩ := ih hrow
      exact ⟨r', List.mem_cons_of_mem _ hr', hholds⟩

/-- Among identified records no other row has the key of a hit. -/
theorem Placed.others (h : Placed table above row below before r after) (hid : Identified rows)
    (hit : FirstHit filter rows before r after) :
    ∀ other ∈ above ++ below, other.key ≠ row.key := by
  intro other hother hsame
  have hkeeps : Keeps (above ++ below) (before ++ after) := List.rel_append h.before h.after
  obtain ⟨r', hr', hholds⟩ := hkeeps.exists_record hother
  have hids : r'.get? idField = r.get? idField := by
    rw [hholds.key, h.holds.key, hsame]
  exact hid.others hit r' hr' hids

theorem setDocument_of_others {key : String} {d : Document}
    (h : ∀ other ∈ table, other.key ≠ key) : setDocument key d table = table := by
  unfold setDocument
  conv_rhs => rw [← List.map_id table]
  refine List.map_congr_left fun other hother => ?_
  rw [if_neg (h other hother)]
  rfl

/-- A new record goes to the end. -/
theorem Keeps.insertRow_free (h : Keeps table rows) {id : String}
    (hid : r.get? idField = some (.str id))
    (hfree : ∀ other ∈ rows, other.get? idField ≠ some (.str id)) (collection : String) :
    ∃ table', insertRow collection r table = .ok table' ∧ Keeps table' (rows ++ [r]) := by
  have hkey : recordKey r = .ok id := by
    unfold recordKey
    rw [hid]
  have huntaken : (table.any fun row => decide (row.key = id)) = false := by
    rw [List.any_eq_false]
    intro row hrow htaken
    obtain ⟨other, hother, hholds⟩ := h.exists_record hrow
    refine hfree other hother ?_
    rw [hholds.key, of_decide_eq_true htaken]
  refine ⟨table ++ [⟨id, .json (.obj r)⟩], ?_, List.rel_append h (.cons ⟨rfl, hid⟩ .nil)⟩
  rw [insertRow, hkey, ok_bind, huntaken]
  rfl

/-- An update rewrites the document of the first hit where it stands. -/
theorem Keeps.updateRow_hit (h : Keeps table rows) (hfilter : WantsIds filter)
    (hid : Identified rows) (hit : FirstHit filter rows before r after)
    (hvalues : Record.get? values idField = none) :
    ∃ table', updateRow filter values table = .ok (some (r.merge values, table')) ∧
      Keeps table' (before ++ r.merge values :: after) := by
  obtain ⟨above, row, below, hplaced, hfirst⟩ := h.firstRow_hit hfilter hit
  have hothers := hplaced.others hid hit
  have hmerged : (r.merge values).get? idField = some (.str row.key) :=
    (Record.get?_merge_of_none r hvalues).trans hplaced.holds.key
  have hkey : recordKey (r.merge values) = .ok row.key := by
    unfold recordKey
    rw [hmerged]
  -- the key of the record is that of its row, and no other row has it
  have hset : setDocument row.key (.json (.obj (r.merge values))) table =
      above ++ { row with document := .json (.obj (r.merge values)) } :: below := by
    have habove := setDocument_of_others (d := .json (.obj (r.merge values)))
      fun other hother => hothers other (List.mem_append_left _ hother)
    have hbelow := setDocument_of_others (d := .json (.obj (r.merge values)))
      fun other hother => hothers other (List.mem_append_right _ hother)
    unfold setDocument at habove hbelow ⊢
    rw [hplaced.split, List.map_append, List.map_cons, habove, hbelow, if_pos rfl]
  have hholds : Row.Holds { row with document := .json (.obj (r.merge values)) }
      (r.merge values) := ⟨rfl, hmerged⟩
  refine ⟨_, ?_, List.rel_append hplaced.before (.cons hholds hplaced.after)⟩
  rw [updateRow, hfirst, ok_bind]
  dsimp only
  rw [hplaced.holds.document]
  show (recordKey (r.merge values) >>= fun key =>
    pure (some (r.merge values, setDocument key (.json (.obj (r.merge values))) table))) = _
  rw [hkey, ok_bind, hset]
  rfl

theorem Keeps.updateRow_missed (h : Keeps table rows) (hfilter : WantsIds filter)
    (hmissed : rows.find? (Storage.accepts filter) = none) :
    updateRow filter values table = .ok none := by
  rw [updateRow, h.firstRow_missed hfilter hmissed]
  rfl

/-- A delete takes the row of the first hit out. -/
theorem Keeps.deleteRow_hit (h : Keeps table rows) (hfilter : WantsIds filter)
    (hid : Identified rows) (hit : FirstHit filter rows before r after) :
    ∃ table', deleteRow filter table = .ok (some table') ∧ Keeps table' (before ++ after) := by
  obtain ⟨above, row, below, hplaced, hfirst⟩ := h.firstRow_hit hfilter hit
  have hothers := hplaced.others hid hit
  have hfilter' : (table.filter fun other => other.key ≠ row.key) = above ++ below := by
    rw [hplaced.split, List.filter_append, List.filter_cons_of_neg (by simp),
      ← List.filter_append]
    exact List.filter_eq_self.mpr fun other hother => decide_eq_true (hothers other hother)
  refine ⟨above ++ below, ?_, List.rel_append hplaced.before hplaced.after⟩
  rw [deleteRow, hfirst, ok_bind]
  show Except.ok (some (table.filter fun other => other.key ≠ row.key)) = _
  rw [hfilter']

theorem Keeps.deleteRow_missed (h : Keeps table rows) (hfilter : WantsIds filter)
    (hmissed : rows.find? (Storage.accepts filter) = none) :
    deleteRow filter table = .ok none := by
  rw [deleteRow, h.firstRow_missed hfilter hmissed]
  rfl

/-! ### Databases -/

variable {db db' : Database} {collection other : String}

theorem checkName_eq_ok : checkName collection = .ok () ↔ Text.isIdent collection = true := by
  unfold checkName
  split
  next h => simp [h]
  next h => simp [h]

/-- A table is found by its name, in whatever case it is written. -/
theorem rows?_eq_ok :
    db.rows? collection = .ok table ↔
      Text.isIdent collection = true ∧ db.tables.get? (tableKey collection) = some table := by
  unfold Database.rows?
  rw [bind_eq_ok_iff]
  constructor
  · rintro ⟨⟨⟩, hname, h⟩
    refine ⟨checkName_eq_ok.mp hname, ?_⟩
    split at h
    next rows hrows =>
      cases h
      exact hrows
    · cases h
  · rintro ⟨hname, hrows⟩
    refine ⟨(), checkName_eq_ok.mpr hname, ?_⟩
    rw [hrows]
    rfl

/-- A change of one table is a change of this table alone. -/
theorem rows?_setRows (h : db.rows? other = .ok table) (collection : String) (rows : List Row) :
    (db.setRows collection rows).rows? other =
      .ok (if tableKey collection = tableKey other then rows else table) := by
  obtain ⟨hname, htable⟩ := rows?_eq_ok.mp h
  refine rows?_eq_ok.mpr ⟨hname, ?_⟩
  show (db.tables.put (tableKey collection) rows).get? (tableKey other) = _
  rw [Keyed.get?_put, htable]
  split <;> rfl

/-- A database in which all tables are empty. -/
def Blank (db : Database) : Prop :=
  ∀ key table, db.tables.get? key = some table → table = []

theorem ensureTable_blank (hdb : Blank db) (h : db.ensureTable collection = .ok db') :
    Blank db' ∧ db'.rows? collection = .ok [] ∧
      ∀ other, db.rows? other = .ok [] → db'.rows? other = .ok [] := by
  obtain ⟨⟨⟩, hname, h⟩ := bind_eq_ok_iff.mp h
  have hname := checkName_eq_ok.mp hname
  split at h
  next hthere =>
    cases h
    obtain ⟨table, htable⟩ := Option.isSome_iff_exists.mp hthere
    rw [hdb _ table htable] at htable
    exact ⟨hdb, rows?_eq_ok.mpr ⟨hname, htable⟩, fun _ h => h⟩
  · split at h
    · cases h
    · cases h
      have hget : ∀ key, (db.tables.put (tableKey collection) []).get? key =
          if tableKey collection = key then some [] else db.tables.get? key :=
        fun key => Keyed.get?_put _ _ _ _
      refine ⟨?_, rows?_eq_ok.mpr ⟨hname, by rw [Database.setRows, hget, if_pos rfl]⟩, ?_⟩
      · intro key table htable
        rw [Database.setRows, hget] at htable
        split at htable
        · exact (Option.some.inj htable).symm
        · exact hdb key table htable
      · intro other hother
        rw [rows?_setRows hother]
        split <;> rfl

theorem ensureTables_of_blank {collections : List String} (hdb : Blank db)
    (h : db.ensureTables collections = .ok db') :
    (∀ other, db.rows? other = .ok [] → db'.rows? other = .ok []) ∧
      ∀ collection ∈ collections, db'.rows? collection = .ok [] := by
  induction collections generalizing db with
  | nil =>
    cases h
    exact ⟨fun _ h => h, fun _ h => absurd h List.not_mem_nil⟩
  | cons collection rest ih =>
    obtain ⟨db₁, hfirst, h⟩ := bind_eq_ok_iff.mp h
    obtain ⟨hblank, hempty, hkept⟩ := ensureTable_blank hdb hfirst
    obtain ⟨hkept', hrest⟩ := ih hblank h
    refine ⟨fun other hother => hkept' other (hkept other hother), ?_⟩
    intro other hother
    rcases List.mem_cons.mp hother with rfl | hother
    · exact hkept' _ hempty
    · exact hrest other hother

/-- In a new database every collection that it was made for has an empty
    table. -/
theorem ensureTables_blank {collections : List String}
    (h : Database.empty.ensureTables collections = .ok db) :
    ∀ collection ∈ collections, db.rows? collection = .ok [] :=
  (ensureTables_of_blank (fun _ _ h => by cases h) h).2

end RecordGate.Storage.Sql

import RecordGate.Proofs.JsonText
import RecordGate.Proofs.RowUpdate

/-! # Stored documents

  A row holds a text. What a call stores is the text of a record, and every later
  call reads this text again.

  **Key idea.** The identifier is kept twice, as the key of the row and inside the
  document, and only the document is read back. A text may be read as a value that is
  close to the one that was written: its doubles are rounded more than once, and SQL
  does not round as the reader here does. So the databases that calls can bring about
  (`Reached`) are closed under reading a document anew and under changing a double in
  it, and what every step preserves (`Intact`) has to say that each document can be
  written and read once more.

  - `Change.intact`, `Intact.replace`: what a step preserves.
  - `reached_intact`: what holds in every database that was reached.
  - `reached_tables` draws the consequences for deletes and for queries.
-/

namespace RecordGate

/-! ### Records that JSON can hold -/

section records
variable {r values : Record} {depth : Nat}

theorem Json.Fits.merge (hr : (Json.obj r).Fits depth) (hvalues : (Json.obj values).Fits depth) :
    (Json.obj (r.merge values)).Fits depth := by
  cases hr with
  | obj hsorted h =>
    cases hvalues with
    | obj _ h' =>
      refine .obj (hsorted.merge values) fun m hm => ?_
      rcases Record.mem_merge hm with hm | hm
      · exact h m hm
      · exact h' m hm

theorem Json.Fits.insertText (hr : (Json.obj r).Fits depth) (name s : String) :
    (Json.obj (r.insert name (.str s))).Fits depth := by
  cases hr with
  | obj hsorted h =>
    refine .obj (hsorted.insert name (.str s)) fun m hm => ?_
    rcases Record.mem_insert hm with rfl | hm
    · exact .str s
    · exact h m hm

/-- One double somewhere in a value is another one. -/
inductive Json.Redoubled : Json → Json → Prop
  | double (x : Float) {y : Float} (hy : y.isFinite = true) :
      Redoubled (.num (.float x)) (.num (.float y))
  | item {before after : List Json} {v v' : Json} (h : Redoubled v v') :
      Redoubled (.arr (before ++ v :: after)) (.arr (before ++ v' :: after))
  | member {before after : List (String × Json)} {name : String} {v v' : Json}
      (h : Redoubled v v') :
      Redoubled (.obj (before ++ (name, v) :: after)) (.obj (before ++ (name, v') :: after))

theorem Json.Redoubled.fits {v v' : Json} (h : v.Redoubled v') (hv : v.Fits depth) :
    v'.Fits depth := by
  induction h generalizing depth with
  | double x hy => exact .num hy
  | @item before after v v' h ih =>
    cases hv with
    | arr hitems =>
      refine .arr fun w hw => ?_
      rcases List.mem_append.mp hw with hw | hw
      · exact hitems w (List.mem_append_left _ hw)
      rcases List.mem_cons.mp hw with rfl | hw
      · exact ih (hitems v (List.mem_append_right _ List.mem_cons_self))
      · exact hitems w (List.mem_append_right _ (List.mem_cons_of_mem _ hw))
  | @member before after name v v' h ih =>
    cases hv with
    | obj hsorted hmembers =>
      refine .obj ?_ fun m hm => ?_
      · -- the names are the same
        unfold Record.Sorted at hsorted ⊢
        rw [← List.pairwise_map] at hsorted ⊢
        simpa using hsorted
      · rcases List.mem_append.mp hm with hm | hm
        · exact hmembers m (List.mem_append_left _ hm)
        rcases List.mem_cons.mp hm with rfl | hm
        · exact ih (hmembers (name, v) (List.mem_append_right _ List.mem_cons_self))
        · exact hmembers m (List.mem_append_right _ (List.mem_cons_of_mem _ hm))

/-- An object stays an object, with the same texts. -/
theorem Json.Redoubled.texts {v : Json} (h : (Json.obj r).Redoubled v) :
    ∃ r' : Record, v = .obj r' ∧
      ∀ name s, r.get? name = some (.str s) → r'.get? name = some (.str s) := by
  cases h with
  | @member before after name' v v' h =>
    refine ⟨_, rfl, fun name s hget => ?_⟩
    induction before with
    | nil =>
      rw [List.nil_append, Record.get?_cons] at hget ⊢
      split at hget
      · cases hget
        cases h
      next hne => rwa [if_neg hne]
    | cons first before ih =>
      rw [List.cons_append, Record.get?_cons] at hget ⊢
      split at hget
      next hname => rwa [if_pos hname]
      next hne =>
        rw [if_neg hne]
        exact ih hget

/-- A record that gets its identifier stays such a record. -/
theorem Storage.fits_withId (h : (Json.obj values).Fits depth) (supply : Supply) :
    (Json.obj (withId values supply).1).Fits depth := by
  unfold withId
  split
  · exact h
  · exact h.insertText idField _

end records

namespace Storage

/-- The record that a call brings has a text that can be read: it does not nest too
    deep. -/
def Call.Storable : Call → Prop
  | .insertOne _ values => (Json.obj values).Fits Json.Reader.maxDepth
  | .updateOne _ _ values => (Json.obj values).Fits Json.Reader.maxDepth
  | .findOne .. | .findAll .. | .deleteOne .. => True

namespace Sql

variable {db db' : Database} {table table' above below : List Row} {row : Row} {r : Record}
  {filter : Record} {collection : String} {collections : List String} {d : Document}

/-! ### Documents -/

/-- What a document becomes once it is read from its text. -/
def Document.reread : Document → Document
  | .json v => .ofText v.text
  | .corrupt => .corrupt

/-- A document that is a record and whose text can be read. -/
def Document.Legible (d : Document) : Prop :=
  ∃ r : Record, d = .json (.obj r) ∧ (Json.obj r).Fits Json.Reader.maxDepth

/-- The text of a record is read as its echo. -/
theorem ofText_record (h : (Json.obj r).Fits Json.Reader.maxDepth) :
    Document.ofText (Json.obj r).text = .json (.obj (r.mapValues Json.echo)) := by
  unfold Document.ofText
  rw [Json.ofText?_text h]
  show Document.json (.obj (Json.echoMembers r)) = _
  rw [Json.echoMembers_eq]

/-- The identifier is a text, so it is read as it was written. -/
theorem echo_identifier {id : String} (h : r.get? idField = some (.str id)) :
    (r.mapValues Json.echo).get? idField = some (.str id) := by
  rw [Record.get?_mapValues, h]
  rfl

/-! ### Tables that stay intact -/

/-- Every row holds a legible record under its identifier, and no key occurs twice. -/
structure Intact (table : List Row) : Prop where
  /-- The rows hold records under their identifiers. -/
  filed : Filed table
  /-- The documents can be read from their texts. -/
  legible : ∀ row ∈ table, row.document.Legible

theorem intact_nil : Intact [] := ⟨filed_nil, nofun⟩

/-- What a row of an intact table holds. -/
theorem Intact.holds (h : Intact table) (hrow : row ∈ table) :
    ∃ r, row.Holds r ∧ (Json.obj r).Fits Json.Reader.maxDepth := by
  obtain ⟨r, hholds⟩ := h.filed.holds row hrow
  obtain ⟨r', hdocument, hfits⟩ := h.legible row hrow
  rw [hholds.document] at hdocument
  cases hdocument
  exact ⟨r, hholds, hfits⟩

/-- A storable call leaves an intact table behind. -/
theorem Change.intact {supply : Supply} {c : Call} (hchange : Change supply c table table')
    (hc : c.Storable) (h : Intact table) : Intact table' := by
  refine ⟨hchange.filed h.filed, ?_⟩
  intro row hrow
  cases hchange with
  | @insert collection values _ _ hinsert =>
    obtain ⟨id, -, hinsert⟩ := bind_eq_ok_iff.mp hinsert
    split at hinsert
    · cases hinsert
    · cases hinsert
      rcases List.mem_append.mp hrow with hrow | hrow
      · exact h.legible row hrow
      · rw [List.mem_singleton.mp hrow]
        exact ⟨_, rfl, fits_withId hc supply⟩
  | update hupdate =>
    obtain ⟨above, found, below, d, id, hfirst, hd, rfl, -, rfl⟩ := updateRow_eq_some hupdate
    -- what was found is legible, so it stays legible with the values merged in
    have hfound : found ∈ table := hfirst.split ▸ List.mem_append_right _ List.mem_cons_self
    obtain ⟨d', hdocument, hfits⟩ := h.legible found hfound
    rw [hd] at hdocument
    cases hdocument
    obtain ⟨old, hold, rfl⟩ := List.mem_map.mp hrow
    by_cases hkey : old.key = id
    · rw [if_pos hkey]
      exact ⟨_, rfl, hfits.merge hc⟩
    · rw [if_neg hkey]
      exact h.legible old hold
  | delete hdelete =>
    obtain ⟨found, -, hdelete⟩ := bind_eq_ok_iff.mp hdelete
    cases found with
    | none => cases hdelete
    | some found =>
      cases hdelete
      exact h.legible row (List.mem_of_mem_filter hrow)

/-- A row may hold another legible record with the same identifier. -/
theorem Intact.replace (h : Intact (above ++ row :: below))
    (hid : r.get? idField = some (.str row.key)) (hfits : (Json.obj r).Fits Json.Reader.maxDepth) :
    Intact (above ++ { row with document := .json (.obj r) } :: below) := by
  -- every other row is one of the old ones, and the keys are the same
  have hothers : ∀ other, other ∈ above ++ { row with document := .json (.obj r) } :: below →
      other = { row with document := .json (.obj r) } ∨ other ∈ above ++ row :: below := by
    intro other hother
    simp only [List.mem_append, List.mem_cons] at hother ⊢
    tauto
  refine ⟨⟨?_, ?_⟩, ?_⟩
  · intro other hother
    rcases hothers other hother with rfl | hother
    · exact ⟨r, rfl, hid⟩
    · exact h.filed.holds other hother
  · have hnodup := h.filed.nodup
    rw [List.map_append, List.map_cons] at hnodup ⊢
    exact hnodup
  · intro other hother
    rcases hothers other hother with rfl | hother
    · exact ⟨r, rfl, hfits⟩
    · exact h.legible other hother

/-- Reading a document from its text changes no identifier and leaves it legible. -/
theorem Intact.reread (h : Intact (above ++ row :: below)) :
    Intact (above ++ { row with document := row.document.reread } :: below) := by
  obtain ⟨r, hholds, hfits⟩ := h.holds (List.mem_append_right _ List.mem_cons_self)
  have hecho := hfits.echo
  rw [Json.echo, Json.echoMembers_eq] at hecho
  rw [hholds.document, show (Document.json (.obj r)).reread = _ from ofText_record hfits]
  exact h.replace (echo_identifier hholds.key) hecho

/-- Another double in a document changes no identifier either. -/
theorem Intact.redouble (h : Intact (above ++ row :: below)) {v v' : Json}
    (hdocument : row.document = .json v) (hv : v.Redoubled v') :
    Intact (above ++ { row with document := .json v' } :: below) := by
  obtain ⟨r, hholds, hfits⟩ := h.holds (List.mem_append_right _ List.mem_cons_self)
  rw [hholds.document] at hdocument
  cases hdocument
  have hfits' := hv.fits hfits
  obtain ⟨r', rfl, htexts⟩ := hv.texts
  exact h.replace (htexts _ _ hholds.key) hfits'

/-! ### Databases that calls can bring about -/

/-- The databases that calls can bring about, failing ones included, from one that was
    made for some collections. A row keeps a text, which SQL and the program each read
    in their own way. So at any time a document may turn into what its text is read as,
    and a double in it into any other. -/
inductive Reached : Database → Prop
  | made {collections : List String} {db : Database}
      (h : Database.empty.ensureTables collections = .ok db) : Reached db
  | answered {db : Database} (h : Reached db) (supply : Supply) {c : Call} (hc : c.Storable) :
      Reached (driver.answer c ⟨supply, db⟩).2.store
  | reread {db : Database} {collection : String} {above below : List Row} {row : Row}
      (h : Reached db) (hrows : db.rows? collection = .ok (above ++ row :: below)) :
      Reached (db.setRows collection
        (above ++ { row with document := row.document.reread } :: below))
  | redoubled {db : Database} {collection : String} {above below : List Row} {row : Row}
      {v v' : Json} (h : Reached db)
      (hrows : db.rows? collection = .ok (above ++ row :: below))
      (hdocument : row.document = .json v) (hv : v.Redoubled v') :
      Reached (db.setRows collection (above ++ { row with document := .json v' } :: below))

theorem blank_ensureTables (hdb : Blank db) (h : db.ensureTables collections = .ok db') :
    Blank db' := by
  induction collections generalizing db with
  | nil =>
    cases h
    exact hdb
  | cons collection rest ih =>
    obtain ⟨db₁, hfirst, h⟩ := bind_eq_ok_iff.mp h
    exact ih (ensureTable_blank hdb hfirst).1 h

/-- Every table of a database that was reached is intact. -/
theorem reached_intact (h : Reached db) : db.All Intact := by
  -- one case for each way in which a database is reached; a failed call is one that
  -- leaves the store as it was
  induction h with
  | made h =>
    intro name table htable
    have hblank := blank_ensureTables (fun _ _ hnone => by cases hnone) h
    rw [hblank name table htable]
    exact intact_nil
  | @answered db _ supply c hc ih =>
    rcases answer_store c ⟨supply, db⟩ with hsame | ⟨table, table', htable, hchange, hstore⟩
    · rw [hsame]
      exact ih
    · rw [hstore]
      exact ih.setRows (hchange.intact hc (ih.rows htable)) c.collection
  | reread _ hrows ih => exact ih.setRows (ih.rows hrows).reread _
  | redoubled _ hrows hdocument hv ih =>
    exact ih.setRows ((ih.rows hrows).redouble hdocument hv) _

/-- Calls of storable records lead from such a database to another. -/
theorem reached_replay {w : World Database} (h : Reached w.store) {calls : List Call}
    (hcalls : ∀ c ∈ calls, c.Storable) : Reached (replay calls w).store := by
  induction calls generalizing w with
  | nil => exact h
  | cons c rest ih =>
    rw [List.forall_mem_cons] at hcalls
    exact ih (h.answered w.supply hcalls.1) hcalls.2

/-! ### Deletes -/

/-- A delete takes out the row that it found, since no other row has its key. -/
theorem filter_key (h : Filed table) (hsplit : table = above ++ row :: below) :
    (table.filter fun other => other.key ≠ row.key) = above ++ below := by
  have hnodup := h.nodup
  rw [hsplit, List.map_append, List.map_cons, List.nodup_append, List.nodup_cons] at hnodup
  obtain ⟨-, ⟨hbelow, -⟩, habove⟩ := hnodup
  rw [hsplit, List.filter_append, List.filter_cons_of_neg (by simp), ← List.filter_append,
    List.filter_eq_self]
  intro other hother
  rw [decide_eq_true_eq]
  rcases List.mem_append.mp hother with hother | hother
  · exact habove _ (List.mem_map_of_mem hother) _ List.mem_cons_self
  · exact fun hsame => hbelow (hsame ▸ List.mem_map_of_mem hother)

/-- What the driver answers to a delete, and the world that it leaves. -/
def delete (collection : String) (filter : Record) (w : World Database) :
    Except Error Bool × World Database :=
  driver.answer (.deleteOne collection filter) w

theorem delete_eq (collection : String) (filter : Record) (w : World Database) :
    delete collection filter w =
      match w.store.rows? collection >>= deleteRow filter with
      | .ok (some rows) => (.ok true, { w with store := w.store.setRows collection rows })
      | .ok none => (.ok false, w)
      | .error e => (.error e, w) := by
  show Database.answer (.deleteOne collection filter) w = _
  unfold Database.answer
  rfl

theorem deleteRow_of_first (h : Filed table) (hfirst : FirstRow filter table above row below) :
    deleteRow filter table = .ok (some (above ++ below)) := by
  unfold deleteRow
  rw [firstRow_eq_some.mpr ⟨above, below, hfirst⟩, ok_bind]
  show Except.ok (some (table.filter fun other => other.key ≠ row.key)) = _
  rw [filter_key h hfirst.split]

theorem deleteRow_eq_some (h : deleteRow filter table = .ok (some table')) :
    ∃ above row below, FirstRow filter table above row below := by
  obtain ⟨found, hfound, h⟩ := bind_eq_ok_iff.mp h
  cases found with
  | none => cases h
  | some row =>
    obtain ⟨above, below, hfirst⟩ := firstRow_eq_some.mp hfound
    exact ⟨above, row, below, hfirst⟩

/-- The first row that the filter accepts is taken out, and nothing else. -/
theorem delete_of_first (h : db.All Intact) (hrows : db.rows? collection = .ok table)
    (hfirst : FirstRow filter table above row below) (supply : Supply) :
    delete collection filter ⟨supply, db⟩ =
      (.ok true, ⟨supply, db.setRows collection (above ++ below)⟩) := by
  rw [delete_eq]
  dsimp only
  rw [hrows, ok_bind, deleteRow_of_first (h.rows hrows).filed hfirst]

/-- A delete that succeeds found a row. -/
theorem delete_eq_true {w : World Database} (h : (delete collection filter w).1 = .ok true) :
    ∃ table above row below, w.store.rows? collection = .ok table ∧
      FirstRow filter table above row below := by
  rw [delete_eq] at h
  split at h
  next rows hrows =>
    obtain ⟨table, htable, hdelete⟩ := bind_eq_ok_iff.mp hrows
    obtain ⟨above, row, below, hfirst⟩ := deleteRow_eq_some hdelete
    exact ⟨table, above, row, below, htable, hfirst⟩
  · cases h
  · cases h

/-- A delete that does not succeed changes nothing. -/
theorem delete_keeps {w : World Database} (h : (delete collection filter w).1 ≠ .ok true) :
    (delete collection filter w).2 = w := by
  rw [delete_eq] at h ⊢
  split at h
  · exact absurd rfl h
  · rfl
  · rfl

/-! ### Queries -/

/-- A failure over a name of a filter that does not fit between the quotes of a path. -/
def PathFault (filter : Record) (e : Error) : Prop :=
  ∃ name ∈ filter.names, '"' ∈ name.toList ∧
    e = refusal 1 ("bad JSON path: '$.\"" ++ name ++ "\"'")

variable {e : Error}

/-- A filter fails on a legible document over its names alone. -/
theorem accepts_eq_error (hd : d.Legible) (h : d.accepts filter = .error e) :
    PathFault filter e := by
  obtain ⟨r, rfl, -⟩ := hd
  induction filter with
  | nil => cases h
  | cons entry rest ih =>
    obtain ⟨name, wanted⟩ := entry
    rcases bind_eq_error_iff.mp h with hextract | ⟨v, -, h⟩
    · unfold Document.extract at hextract
      dsimp only at hextract
      split at hextract
      next hquote =>
        cases hextract
        exact ⟨name, List.mem_cons_self, by simpa using hquote, rfl⟩
      · split at hextract <;> cases hextract
    · split at h
      · obtain ⟨name', hname', hfault⟩ := ih h
        exact ⟨name', List.mem_cons_of_mem _ hname', hfault⟩
      · cases h

theorem firstRow_eq_error (h : ∀ row ∈ table, row.document.Legible)
    (hfirst : firstRow filter table = .error e) : PathFault filter e := by
  induction table with
  | nil => cases hfirst
  | cons top rest ih =>
    rw [List.forall_mem_cons] at h
    rcases bind_eq_error_iff.mp hfirst with haccepts | ⟨hit, -, hfirst⟩
    · exact accepts_eq_error h.1 haccepts
    · cases hit with
      | true => cases hfirst
      | false => exact ih h.2 hfirst

theorem acceptedRows_eq_error (h : ∀ row ∈ table, row.document.Legible)
    (hrows : acceptedRows filter table = .error e) : PathFault filter e := by
  induction table with
  | nil => cases hrows
  | cons top rest ih =>
    rw [List.forall_mem_cons] at h
    rcases bind_eq_error_iff.mp hrows with haccepts | ⟨hit, -, hrows⟩
    · exact accepts_eq_error h.1 haccepts
    · rcases bind_eq_error_iff.mp hrows with hrest | ⟨hits, -, hrows⟩
      · exact ih h.2 hrest
      · cases hrows

theorem acceptedRows_subset {hits : List Row} (h : acceptedRows filter table = .ok hits) :
    hits ⊆ table := by
  induction table generalizing hits with
  | nil =>
    cases h
    exact List.Subset.refl []
  | cons top rest ih =>
    obtain ⟨hit, -, h⟩ := bind_eq_ok_iff.mp h
    obtain ⟨others, hothers, h⟩ := bind_eq_ok_iff.mp h
    cases h
    have hrest : others ⊆ top :: rest := List.subset_cons_of_subset top (ih hothers)
    cases hit with
    | true => exact List.cons_subset.mpr ⟨List.mem_cons_self, hrest⟩
    | false => exact hrest

/-- Rows that each hold a record keep a list of records. -/
theorem exists_keeps (h : ∀ row ∈ table, ∃ r, row.Holds r) : ∃ records, Keeps table records := by
  induction table with
  | nil => exact ⟨[], .nil⟩
  | cons top rest ih =>
    rw [List.forall_mem_cons] at h
    obtain ⟨⟨r, hr⟩, hrest⟩ := h
    obtain ⟨records, hrecords⟩ := ih hrest
    exact ⟨r :: records, .cons hr hrecords⟩

/-- A row that was found is answered with the record that it holds. -/
theorem findOne_of_first (h : Intact table) (hfirst : FirstRow filter table above row below) :
    ∃ r, row.Holds r ∧ findOne filter table = .ok (some r) := by
  have hrow : row ∈ table := hfirst.split ▸ List.mem_append_right _ List.mem_cons_self
  obtain ⟨r, hholds⟩ := h.filed.holds row hrow
  refine ⟨r, hholds, ?_⟩
  unfold findOne
  rw [firstRow_eq_some.mpr ⟨above, below, hfirst⟩, ok_bind]
  dsimp only
  rw [hholds.document]
  rfl

/-- So are all rows that a filter accepts. -/
theorem findAll_of_accepted {hits : List Row} (h : Intact table)
    (hhits : acceptedRows filter table = .ok hits) :
    ∃ records, Keeps hits records ∧ findAll filter table = .ok records := by
  obtain ⟨records, hkeeps⟩ :=
    exists_keeps fun row hrow => h.filed.holds row (acceptedRows_subset hhits hrow)
  refine ⟨records, hkeeps, ?_⟩
  unfold findAll
  rw [hhits, ok_bind, hkeeps.recordsOf_eq]

theorem findOne_eq_error (h : Intact table) (hfind : findOne filter table = .error e) :
    PathFault filter e := by
  cases hfound : firstRow filter table with
  | error e' =>
    unfold findOne at hfind
    rw [hfound] at hfind
    cases hfind
    exact firstRow_eq_error h.legible hfound
  | ok found =>
    cases found with
    | none =>
      unfold findOne at hfind
      rw [hfound] at hfind
      cases hfind
    | some row =>
      obtain ⟨above, below, hfirst⟩ := firstRow_eq_some.mp hfound
      obtain ⟨r, -, hanswer⟩ := findOne_of_first h hfirst
      rw [hanswer] at hfind
      cases hfind

theorem findAll_eq_error (h : Intact table) (hfind : findAll filter table = .error e) :
    PathFault filter e := by
  rcases bind_eq_error_iff.mp hfind with haccepted | ⟨hits, haccepted, -⟩
  · exact acceptedRows_eq_error h.legible haccepted
  · obtain ⟨records, -, hanswer⟩ := findAll_of_accepted h haccepted
    rw [hanswer] at hfind
    cases hfind

/-! ### What was reached -/

/-- What holds in every database that calls of storable records can bring about.

    - Every row holds a record under its identifier, and so does what its text is
      read as. No key occurs twice.
    - A delete succeeds if the filter accepts a row. Then it takes out the first such
      row and leaves everything else; otherwise it changes nothing.
    - A query answers with what the accepted rows hold. It never fails over a document:
      either there is no such table, or a name in the filter does not fit into a path. -/
theorem reached_tables (h : Reached db) (supply : Supply) :
    (∀ collection table, db.rows? collection = .ok table →
      (∀ row ∈ table, ∃ r r' : Record, row.Holds r ∧
        Document.ofText (Json.obj r).text = .json (.obj r') ∧
        r'.get? idField = some (.str row.key)) ∧
      (table.map Row.key).Nodup) ∧
    (∀ collection filter,
      let w : World Database := ⟨supply, db⟩
      let run := delete collection filter w
      (∀ table above row below, db.rows? collection = .ok table →
        FirstRow filter table above row below → run.1 = .ok true) ∧
      (run.1 = .ok true → ∃ table above row below, db.rows? collection = .ok table ∧
        FirstRow filter table above row below ∧
        run.2 = ⟨supply, db.setRows collection (above ++ below)⟩) ∧
      (run.1 ≠ .ok true → run.2 = w)) ∧
    (∀ collection filter table, db.rows? collection = .ok table →
      (∀ above row below, FirstRow filter table above row below →
        ∃ r, row.Holds r ∧
          (driver.answer (.findOne collection filter) ⟨supply, db⟩).1 = .ok (some r)) ∧
      ∀ hits, acceptedRows filter table = .ok hits →
        ∃ records, Keeps hits records ∧
          (driver.answer (.findAll collection filter) ⟨supply, db⟩).1 = .ok records) ∧
    ∀ collection filter e,
      (driver.answer (.findOne collection filter) ⟨supply, db⟩).1 = .error e ∨
        (driver.answer (.findAll collection filter) ⟨supply, db⟩).1 = .error e →
      db.rows? collection = .error e ∨ PathFault filter e := by
  have hintact := reached_intact h
  have hone : ∀ collection filter,
      (driver.answer (.findOne collection filter) ⟨supply, db⟩).1 =
        (db.rows? collection >>= findOne filter) := fun _ _ => rfl
  have hall : ∀ collection filter,
      (driver.answer (.findAll collection filter) ⟨supply, db⟩).1 =
        (db.rows? collection >>= findAll filter) := fun _ _ => rfl
  refine ⟨?_, ?_, ?_, ?_⟩
  · intro collection table hrows
    have htable := hintact.rows hrows
    refine ⟨fun row hrow => ?_, htable.filed.nodup⟩
    obtain ⟨r, hholds, hfits⟩ := htable.holds hrow
    exact ⟨r, _, hholds, ofText_record hfits, echo_identifier hholds.key⟩
  · intro collection filter w run
    refine ⟨?_, ?_, delete_keeps⟩
    · intro table above row below hrows hfirst
      exact congrArg Prod.fst (delete_of_first hintact hrows hfirst supply)
    · intro htrue
      obtain ⟨table, above, row, below, hrows, hfirst⟩ := delete_eq_true htrue
      exact ⟨table, above, row, below, hrows, hfirst,
        congrArg Prod.snd (delete_of_first hintact hrows hfirst supply)⟩
  · intro collection filter table hrows
    rw [hone, hall, hrows, ok_bind, ok_bind]
    refine ⟨?_, ?_⟩
    · intro above row below hfirst
      exact findOne_of_first (hintact.rows hrows) hfirst
    · intro hits hhits
      exact findAll_of_accepted (hintact.rows hrows) hhits
  · intro collection filter e herror
    rw [hone, hall] at herror
    -- either the table is missing, or the search in its rows failed
    rcases herror with herror | herror <;>
      rcases bind_eq_error_iff.mp herror with hmissing | ⟨table, hrows, hfind⟩
    · exact .inl hmissing
    · exact .inr (findOne_eq_error (hintact.rows hrows) hfind)
    · exact .inl hmissing
    · exact .inr (findAll_eq_error (hintact.rows hrows) hfind)

theorem twoNotes_storable : ∀ c ∈ twoNotes, c.Storable := by
  have hnote : ∀ id title, (Json.obj (note id title)).Fits Json.Reader.maxDepth := by
    intro id title
    have hnames : idField < "title" := by decide +kernel
    refine .obj (by simpa [note, Record.Sorted] using hnames) fun m hm => ?_
    simp only [note, List.mem_cons, List.not_mem_nil, or_false] at hm
    rcases hm with rfl | rfl <;> exact .str _
  unfold twoNotes
  simp only [List.forall_mem_cons]
  exact ⟨hnote _ _, hnote _ _, nofun⟩

/-- Of two notes the first is removed. -/
theorem note_removed :
    ∃ db, Database.empty.ensureTables ["notes"] = .ok db ∧
      let w := replay twoNotes ⟨Supply.still, db⟩
      Reached w.store ∧ (delete "notes" byFirst w).1 = .ok true ∧
      ∃ table above row below, w.store.rows? "notes" = .ok table ∧
        FirstRow byFirst table above row below ∧
        (delete "notes" byFirst w).2 = ⟨w.supply, w.store.setRows "notes" (above ++ below)⟩ := by
  have htest : okAnd (Database.empty.ensureTables ["notes"]) (fun db =>
      okAnd (delete "notes" byFirst (replay twoNotes ⟨Supply.still, db⟩)).1 id) = true := by
    decide +kernel
  obtain ⟨db, hdb, htest⟩ := okAnd_iff.mp htest
  obtain ⟨answer, hanswer, rfl⟩ := okAnd_iff.mp htest
  have hreached := reached_replay (w := ⟨Supply.still, db⟩) (.made hdb) twoNotes_storable
  obtain ⟨-, htrue, -⟩ := (reached_tables hreached _).2.1 "notes" byFirst
  exact ⟨db, hdb, hreached, hanswer, htrue hanswer⟩

end Sql
end Storage
end RecordGate

import Mathlib.Data.List.Nodup
import RecordGate.Proofs.Offline
import RecordGate.Storage.Memory

/-! # Collections in memory

  What a filter selects in a list of records, and which lists the changes of a
  storage in memory keep in order.

  - `FirstHit`: the record that a filter selects, with those around it. All
    three calls about one record (`find?`, `updateFirst`, `deleteFirst`) act
    on it.
  - `Texts`: every record has a text for its identifier.
  - `Identified`: every record has a text for its identifier, and no two the
    same. There the identifier alone selects a record again
    (`Identified.firstHit_id`).
  - `Minted`: the identifiers are those of a supply, in the order in which
    they were handed out. This is what a collection looks like to which only
    the storage assigns identifiers.
-/

namespace RecordGate

/-- A text is equal to itself alone. -/
theorem Json.same_str (v : Json) (s : String) : v.same (.str s) = true ↔ v = .str s := by
  cases v <;> simp [Json.same]

/-- The next identifier is none of those that were handed out before. -/
theorem Supply.fresh_ne {s : Supply} {k : Nat} (hk : k < s.issued) (hs : s.fresh.2.Distinct) :
    s.fresh.1.toHex ≠ (s.ids k).toHex := by
  intro heq
  have hsame : s.issued = k :=
    hs _ (Nat.lt_succ_self _) k (Nat.lt_succ_of_lt hk) (ObjectId.toHex_injective heq)
  omega

namespace Storage

/-! ### Filters -/

theorem accepts_nil (r : Record) : accepts [] r = true := rfl

theorem accepts_singleton (k : String) (x : Json) (r : Record) :
    accepts [(k, x)] r = true ↔ ∃ v, r.get? k = some v ∧ v.same x = true := by
  simp only [accepts, List.all_cons, List.all_nil, Bool.and_true]
  cases r.get? k <;> simp

/-- A filter for a text finds exactly that text. -/
theorem accepts_text (k s : String) (r : Record) :
    accepts [(k, .str s)] r = true ↔ r.get? k = some (.str s) := by
  rw [accepts_singleton]
  constructor
  · rintro ⟨v, hv, hs⟩
    rw [hv, (Json.same_str v s).mp hs]
  · intro h
    exact ⟨_, h, (Json.same_str _ s).mpr rfl⟩

/-- A second condition is added to the first, or takes its place if it is
    about the same name. -/
theorem accepts_insert (k j : String) (x y : Json) (r : Record) :
    accepts (Record.insert [(k, x)] j y) r = true ↔
      (k = j ∨ accepts [(k, x)] r = true) ∧ accepts [(j, y)] r = true := by
  by_cases hkj : k = j
  · simp [Record.insert, hkj]
  · by_cases hlt : j < k
    · simp [Record.insert, hkj, hlt, accepts, and_comm]
    · simp [Record.insert, hkj, hlt, accepts]

/-! ### The first hit -/

/-- The first record of a list that a filter accepts, with the records before
    and after it. -/
structure FirstHit (filter : Record) (rows before : List Record) (row : Record)
    (after : List Record) : Prop where
  /-- Where the record stands. -/
  split : rows = before ++ row :: after
  /-- The filter accepts the record. -/
  hit : accepts filter row = true
  /-- The filter accepts none before it. -/
  miss : ∀ r ∈ before, accepts filter r = false

variable {filter values row : Record} {rows before after : List Record}

theorem FirstHit.mem (h : FirstHit filter rows before row after) : row ∈ rows := by
  rw [h.split]
  exact List.mem_append_right _ List.mem_cons_self

/-- What stands around the first hit is in the list. -/
theorem FirstHit.mem_rest (h : FirstHit filter rows before row after) {r : Record}
    (hr : r ∈ before ++ after) : r ∈ rows := by
  rw [h.split]
  exact ((List.sublist_cons_self row after).append_left before).subset hr

/-- After a record was replaced, another one stands around it. -/
theorem mem_replaced {row' r : Record} (h : r ∈ before ++ row' :: after) :
    r = row' ∨ r ∈ before ++ after := by
  rcases List.mem_append.mp h with h | h
  · exact .inr (List.mem_append_left _ h)
  · exact (List.mem_cons.mp h).imp_right (List.mem_append_right _)

theorem find?_eq_some_iff :
    rows.find? (accepts filter) = some row ↔ ∃ before after, FirstHit filter rows before row after := by
  rw [List.find?_eq_some_iff_append]
  constructor
  · rintro ⟨hit, before, after, hsplit, hmiss⟩
    exact ⟨before, after, hsplit, hit, fun r hr => by simpa using hmiss r hr⟩
  · rintro ⟨before, after, h⟩
    exact ⟨h.hit, before, after, h.split, fun r hr => by simp [h.miss r hr]⟩

theorem FirstHit.find? (h : FirstHit filter rows before row after) :
    rows.find? (accepts filter) = some row :=
  find?_eq_some_iff.mpr ⟨before, after, h⟩

/-- There is only one first hit. -/
theorem FirstHit.unique {before' after' : List Record} {row' : Record}
    (h : FirstHit filter rows before row after) (h' : FirstHit filter rows before' row' after') :
    before' = before ∧ row' = row ∧ after' = after := by
  obtain ⟨rfl, hit, miss⟩ := h
  -- both walk the list together, since neither stops before a hit nor passes one
  induction before generalizing before' with
  | nil =>
    match before', h' with
    | [], ⟨hsplit, _, _⟩ =>
      cases hsplit
      exact ⟨rfl, rfl, rfl⟩
    | first :: _, ⟨hsplit, _, miss'⟩ =>
      cases hsplit
      rw [miss' _ List.mem_cons_self] at hit
      cases hit
  | cons r before ih =>
    match before', h' with
    | [], ⟨hsplit, hit', _⟩ =>
      cases hsplit
      rw [miss _ List.mem_cons_self] at hit'
      cases hit'
    | first :: rest, ⟨hsplit, hit', miss'⟩ =>
      rw [List.cons_append, List.cons_append, List.cons.injEq] at hsplit
      obtain ⟨rfl, hsplit⟩ := hsplit
      obtain ⟨rfl, hrest⟩ := ih (fun x hx => miss x (List.mem_cons_of_mem _ hx))
        ⟨hsplit, hit', fun x hx => miss' x (List.mem_cons_of_mem _ hx)⟩
      exact ⟨rfl, hrest⟩

/-- If a filter accepts some record of a list, it has a first hit. -/
theorem exists_firstHit (hmem : row ∈ rows) (hit : accepts filter row = true) :
    ∃ before first after, FirstHit filter rows before first after := by
  cases hfind : rows.find? (accepts filter) with
  | none => exact absurd hit (List.find?_eq_none.mp hfind row hmem)
  | some first =>
    obtain ⟨before, after, h⟩ := find?_eq_some_iff.mp hfind
    exact ⟨before, first, after, h⟩

/-- An update replaces the first hit where it stands. -/
theorem FirstHit.updateFirst (h : FirstHit filter rows before row after) (values : Record) :
    Memory.updateFirst filter values rows =
      some (row.merge values, before ++ row.merge values :: after) := by
  obtain ⟨rfl, hit, miss⟩ := h
  induction before with
  | nil => simp [Memory.updateFirst, hit]
  | cons r before ih =>
    have hr : accepts filter r = false := miss r List.mem_cons_self
    have hrest := ih fun x hx => miss x (List.mem_cons_of_mem _ hx)
    simp [Memory.updateFirst, hr, hrest]

/-- A delete takes the first hit out. -/
theorem FirstHit.deleteFirst (h : FirstHit filter rows before row after) :
    Memory.deleteFirst filter rows = some (before ++ after) := by
  obtain ⟨rfl, hit, miss⟩ := h
  induction before with
  | nil => simp [Memory.deleteFirst, hit]
  | cons r before ih =>
    have hr : accepts filter r = false := miss r List.mem_cons_self
    have hrest := ih fun x hx => miss x (List.mem_cons_of_mem _ hx)
    simp [Memory.deleteFirst, hr, hrest]

/-- How the storage answers about the first hit, and what it leaves. -/
theorem FirstHit.answer_updateOne {collection : String} {w : World Memory}
    (h : FirstHit filter (w.store.rows collection) before row after) (values : Record) :
    Memory.answer (.updateOne collection filter values) w = (some (row.merge values),
      { w with store := w.store.setRows collection (before ++ row.merge values :: after) }) := by
  rw [Memory.answer, h.updateFirst values]
  rfl

theorem FirstHit.answer_deleteOne {collection : String} {w : World Memory}
    (h : FirstHit filter (w.store.rows collection) before row after) :
    Memory.answer (.deleteOne collection filter) w =
      (true, { w with store := w.store.setRows collection (before ++ after) }) := by
  rw [Memory.answer, h.deleteFirst]
  rfl

/-- A filter has a first hit, or it accepts no record. -/
theorem hit_or_missed (filter : Record) (rows : List Record) :
    (∃ before row after, FirstHit filter rows before row after) ∨
      rows.find? (accepts filter) = none := by
  cases hfind : rows.find? (accepts filter) with
  | none => exact .inr rfl
  | some row =>
    obtain ⟨before, after, hit⟩ := find?_eq_some_iff.mp hfind
    exact .inl ⟨before, row, after, hit⟩

/-- Without a hit nothing is changed. -/
theorem answer_updateOne_missed {collection : String} {w : World Memory}
    (h : (w.store.rows collection).find? (accepts filter) = none) (values : Record) :
    Memory.answer (.updateOne collection filter values) w = (none, w) := by
  have hnone : Memory.updateFirst filter values (w.store.rows collection) = none := by
    generalize w.store.rows collection = rows at h
    induction rows with
    | nil => rfl
    | cons row rest ih =>
      rw [List.find?_cons] at h
      split at h
      · cases h
      next hmiss => simp [Memory.updateFirst, hmiss, ih h]
  rw [Memory.answer, hnone]
  rfl

theorem answer_deleteOne_missed {collection : String} {w : World Memory}
    (h : (w.store.rows collection).find? (accepts filter) = none) :
    Memory.answer (.deleteOne collection filter) w = (false, w) := by
  have hnone : Memory.deleteFirst filter (w.store.rows collection) = none := by
    generalize w.store.rows collection = rows at h
    induction rows with
    | nil => rfl
    | cons row rest ih =>
      rw [List.find?_cons] at h
      split at h
      · cases h
      next hmiss => simp [Memory.deleteFirst, hmiss, ih h]
  rw [Memory.answer, hnone]
  rfl

/-- Leaving out records that are not the first hit does not change it. -/
theorem FirstHit.restrict (h : FirstHit filter rows before row after) {p : Record → Bool}
    (hp : p row = true) :
    FirstHit filter (rows.filter p) (before.filter p) row (after.filter p) where
  split := by rw [h.split, List.filter_append, List.filter_cons_of_pos hp]
  hit := h.hit
  miss r hr := h.miss r (List.mem_filter.mp hr).1

/-- What holds of the changed collection and held of the others holds of all
    after a change. -/
theorem rows_setRows_of {P : List Record → Prop} {memory : Memory} {changed other : String}
    (hchanged : changed = other → P rows) (hold : P (memory.rows other)) :
    P ((memory.setRows changed rows).rows other) := by
  rw [Memory.rows_setRows]
  split
  next h => exact hchanged h
  · exact hold

/-! ### Texts for identifiers -/

/-- Every record has a text for its identifier. -/
def Texts (rows : List Record) : Prop :=
  ∀ r ∈ rows, ∃ s, r.get? idField = some (.str s)

theorem texts_nil : Texts [] := fun r hr => by cases hr

theorem Texts.sublist {rows' : List Record} (h : Texts rows) (hsub : rows'.Sublist rows) :
    Texts rows' :=
  fun r hr => h r (hsub.subset hr)

theorem Texts.append (h : Texts rows) {id : String} (hid : row.get? idField = some (.str id)) :
    Texts (rows ++ [row]) := by
  intro r hr
  rcases List.mem_append.mp hr with hr | hr
  · exact h r hr
  · rw [List.mem_singleton.mp hr]
    exact ⟨id, hid⟩

theorem Texts.replace {row' : Record} (h : Texts (before ++ row :: after))
    (hid : row'.get? idField = row.get? idField) : Texts (before ++ row' :: after) := by
  intro r hr
  rcases List.mem_append.mp hr with hr | hr
  · exact h r (List.mem_append_left _ hr)
  · rcases List.mem_cons.mp hr with rfl | hr
    · rw [hid]
      exact h row (List.mem_append_right _ List.mem_cons_self)
    · exact h r (List.mem_append_right _ (List.mem_cons_of_mem _ hr))

/-- The identifier of a stored record selects some record. -/
theorem Texts.exists_hit (h : Texts rows) (hmem : row ∈ rows) :
    ∃ id before first after, row.get? idField = some (.str id) ∧
      FirstHit [(idField, .str id)] rows before first after := by
  obtain ⟨id, hid⟩ := h row hmem
  obtain ⟨before, first, after, hit⟩ :=
    exists_firstHit hmem ((accepts_text idField id row).mpr hid)
  exact ⟨id, before, first, after, hid, hit⟩

/-! ### Identified records -/

/-- Every record has a text for its identifier, and no two have the same. -/
structure Identified (rows : List Record) : Prop where
  /-- The identifiers are texts. -/
  text : Texts rows
  /-- No two are the same. -/
  nodup : (rows.map (Record.get? · idField)).Nodup

/-- Among identified records, the identifier of a selected record alone
    selects it again, whatever filter selected it. -/
theorem Identified.firstHit_id (hid : Identified rows)
    (h : FirstHit filter rows before row after) {s : String}
    (hs : row.get? idField = some (.str s)) :
    FirstHit [(idField, .str s)] rows before row after where
  split := h.split
  hit := (accepts_text idField s row).mpr hs
  miss r hr := by
    -- a record before the selected one has another identifier
    have hnodup := hid.nodup
    rw [h.split, List.map_append, List.map_cons, List.nodup_append] at hnodup
    have hne : r.get? idField ≠ row.get? idField :=
      hnodup.2.2 _ (List.mem_map_of_mem hr) _ List.mem_cons_self
    cases hacc : accepts [(idField, .str s)] r with
    | false => rfl
    | true => exact absurd (((accepts_text idField s r).mp hacc).trans hs.symm) hne

/-- Among identified records, those with one identifier are the same. -/
theorem Identified.eq_of_id {row' : Record} (hid : Identified rows) (hrow : row ∈ rows)
    (hrow' : row' ∈ rows) (hsame : row.get? idField = row'.get? idField) : row = row' :=
  List.inj_on_of_nodup_map hid.nodup hrow hrow' hsame

/-- Among identified records, no other has the identifier of a hit. -/
theorem Identified.others (hid : Identified rows) (h : FirstHit filter rows before row after) :
    ∀ r ∈ before ++ after, r.get? idField ≠ row.get? idField := by
  have hnodup := hid.nodup
  rw [h.split, (List.perm_middle.map (Record.get? · idField)).nodup_iff, List.map_cons,
    List.nodup_cons] at hnodup
  intro r hr hsame
  exact hnodup.1 (hsame ▸ List.mem_map_of_mem hr)

/-! ### Minted identifiers -/

/-- The identifiers of the records are those that a supply handed out, in the
    order in which it did. -/
def Minted (supply : Supply) (rows : List Record) : Prop :=
  ∃ ks : List Nat, ks.Pairwise (· < ·) ∧ (∀ k ∈ ks, k < supply.issued) ∧
    rows.map (Record.get? · idField) = ks.map fun k => some (.str (supply.ids k).toHex)

variable {s t : Supply}

theorem minted_nil (s : Supply) : Minted s [] := ⟨[], .nil, by simp, rfl⟩

/-- The identifier of a minted record was handed out. -/
theorem Minted.issued (h : Minted s rows) (hrow : row ∈ rows) :
    ∃ k < s.issued, row.get? idField = some (.str (s.ids k).toHex) := by
  obtain ⟨ks, -, hbound, hmap⟩ := h
  have hid : row.get? idField ∈ rows.map (Record.get? · idField) := List.mem_map_of_mem hrow
  rw [hmap] at hid
  obtain ⟨k, hk, hrow⟩ := List.mem_map.mp hid
  exact ⟨k, hbound k hk, hrow.symm⟩

/-- No minted record has the identifier that comes next. -/
theorem Minted.fresh_ne (h : Minted s rows) (hs : s.fresh.2.Distinct) :
    ∀ r ∈ rows, r.get? idField ≠ some (.str s.fresh.1.toHex) := by
  intro r hr hsame
  obtain ⟨k, hk, hid⟩ := h.issued hr
  rw [hid, Option.some.injEq, Json.str.injEq] at hsame
  exact Supply.fresh_ne hk hs hsame.symm

/-- If no identifier was handed out twice, minted records are identified. -/
theorem Minted.identified (h : Minted s rows) (hs : s.Distinct) : Identified rows := by
  obtain ⟨ks, hlt, hbound, hmap⟩ := h
  constructor
  · intro r hr
    have hid : r.get? idField ∈ rows.map (Record.get? · idField) := List.mem_map_of_mem hr
    rw [hmap] at hid
    obtain ⟨k, -, hk⟩ := List.mem_map.mp hid
    exact ⟨_, hk.symm⟩
  · -- equal texts come from equal identifiers, and those are from one draw
    rw [hmap]
    refine List.pairwise_map.mpr (hlt.imp_of_mem ?_)
    intro j k hj hk hjk heq
    simp only [Option.some.injEq, Json.str.injEq] at heq
    have := hs j (hbound j hj) k (hbound k hk) (ObjectId.toHex_injective heq)
    omega

/-- What was handed out stays so. -/
theorem Minted.later (h : Minted s rows) (hst : s.Later t) : Minted t rows := by
  obtain ⟨ks, hlt, hbound, hmap⟩ := h
  refine ⟨ks, hlt, fun k hk => Nat.lt_of_lt_of_le (hbound k hk) hst.issued, ?_⟩
  rw [hst.ids]
  exact hmap

/-- Removing records keeps the rest minted. -/
theorem Minted.sublist {rows' : List Record} (h : Minted s rows) (hsub : rows'.Sublist rows) :
    Minted s rows' := by
  obtain ⟨ks, hlt, hbound, hmap⟩ := h
  -- a part of the identifiers comes from a part of the draws
  have hids := hsub.map (Record.get? · idField)
  rw [hmap] at hids
  obtain ⟨js, hjs, hmap'⟩ := List.sublist_map_iff.mp hids
  exact ⟨js, hlt.sublist hjs, fun j hj => hbound j (hjs.subset hj), hmap'⟩

/-- Changing a record apart from its identifier keeps the records minted. -/
theorem Minted.replace {row' : Record} (h : Minted s (before ++ row :: after))
    (hid : row'.get? idField = row.get? idField) : Minted s (before ++ row' :: after) := by
  obtain ⟨ks, hlt, hbound, hmap⟩ := h
  refine ⟨ks, hlt, hbound, ?_⟩
  rw [← hmap]
  simp [hid]

/-- An update that leaves the identifier keeps the records minted. -/
theorem Minted.updated (h : Minted s rows) (hit : FirstHit filter rows before row after)
    (hvalues : Record.get? values idField = none) :
    Minted s (before ++ row.merge values :: after) := by
  rw [hit.split] at h
  exact h.replace (Record.get?_merge_of_none row hvalues)

theorem Minted.deleted (h : Minted s rows) (hit : FirstHit filter rows before row after) :
    Minted s (before ++ after) := by
  rw [hit.split] at h
  exact h.sublist ((List.sublist_cons_self _ _).append_left _)

/-- A record with the next identifier of the supply goes to the end. -/
theorem Minted.append (h : Minted s rows)
    (hid : row.get? idField = some (.str s.fresh.1.toHex)) : Minted s.fresh.2 (rows ++ [row]) := by
  obtain ⟨ks, hlt, hbound, hmap⟩ := h
  -- the new one is drawn after all others, so the order stays strict
  refine ⟨ks ++ [s.issued], ?_, ?_, ?_⟩
  · rw [List.pairwise_append]
    refine ⟨hlt, List.pairwise_singleton _ _, ?_⟩
    intro k hk j hj
    rw [List.mem_singleton.mp hj]
    exact hbound k hk
  · intro k hk
    rcases List.mem_append.mp hk with hk | hk
    · exact Nat.lt_succ_of_lt (hbound k hk)
    · rw [List.mem_singleton.mp hk]
      exact Nat.lt_succ_self _
  · rw [List.map_append, List.map_append, hmap]
    simp [hid, Supply.fresh]

end Storage

end RecordGate

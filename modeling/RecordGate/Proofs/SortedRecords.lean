import Mathlib.Data.String.Basic
import RecordGate.Json.Record

/-! # Sorted records

  Every operation keeps the names of a record in order, so a record is known by
  what it has under each name.

  - `Sorted.insert`, `Sorted.filter`, `Sorted.mapValues`: what keeps the order.
  - `get?_merge_of_some`: what a merge puts in.
  - `Sorted.ext`: records with the same values are the same.
  - `ofList_eq_self`: a sorted list of pairs is a record already.
-/

namespace RecordGate.Record

variable {r r' values : Record} {k : String} {v : Json}

theorem sorted_nil : Sorted [] := List.Pairwise.nil

theorem Sorted.filter (h : r.Sorted) (test : String × Json → Bool) : Sorted (r.filter test) :=
  List.Pairwise.filter test h

theorem Sorted.mapValues (h : r.Sorted) (f : Json → Json) : (r.mapValues f).Sorted :=
  List.pairwise_map.mpr h

theorem Sorted.insert (h : r.Sorted) (k : String) (v : Json) : (r.insert k v).Sorted := by
  induction r with
  | nil => exact List.pairwise_singleton _ _
  | cons entry rest ih =>
    obtain ⟨j, x⟩ := entry
    obtain ⟨hfirst, hrest⟩ := List.pairwise_cons.mp h
    unfold Record.insert
    by_cases hjk : j = k
    · rw [if_pos hjk]
      subst hjk
      exact List.pairwise_cons.mpr ⟨hfirst, hrest⟩
    · rw [if_neg hjk]
      by_cases hlt : k < j
      · rw [if_pos hlt]
        refine List.pairwise_cons.mpr ⟨fun entry hentry => ?_, h⟩
        rcases List.mem_cons.mp hentry with rfl | hentry
        · exact hlt
        · exact lt_trans hlt (hfirst entry hentry)
      · rw [if_neg hlt]
        have hjk : j < k := lt_of_le_of_ne (not_lt.mp hlt) hjk
        refine List.pairwise_cons.mpr ⟨fun entry hentry => ?_, ih hrest⟩
        rcases mem_insert hentry with rfl | hentry
        · exact hjk
        · exact hfirst entry hentry

theorem get?_eq_none (h : ∀ entry ∈ r, entry.1 ≠ k) : r.get? k = none := by
  induction r with
  | nil => rfl
  | cons entry rest ih =>
    obtain ⟨j, x⟩ := entry
    have hj : j ≠ k := h (j, x) List.mem_cons_self
    rw [get?_cons, if_neg hj]
    exact ih fun entry hentry => h entry (List.mem_cons_of_mem _ hentry)

/-- A merge puts every value of a sorted record under its name. -/
theorem get?_merge_of_some (hsorted : Sorted values) (h : get? values k = some v) (r : Record) :
    (r.merge values).get? k = some v := by
  induction values generalizing r with
  | nil => cases h
  | cons entry rest ih =>
    obtain ⟨j, x⟩ := entry
    obtain ⟨hfirst, hrest⟩ := List.pairwise_cons.mp hsorted
    rw [get?_cons] at h
    by_cases hjk : j = k
    · -- no later value has the name
      rw [if_pos hjk, Option.some.injEq] at h
      subst hjk h
      have hnone : get? rest j = none :=
        get?_eq_none fun entry hentry => ne_of_gt (hfirst entry hentry)
      show ((r.insert j x).merge rest).get? j = some x
      rw [get?_merge_of_none _ hnone, get?_insert, if_pos rfl]
    · rw [if_neg hjk] at h
      exact ih hrest h (r.insert j x)

/-- A record has its first value under its first name. -/
theorem get?_head (j : String) (x : Json) (rest : Record) : get? ((j, x) :: rest) j = some x := by
  rw [get?_cons, if_pos rfl]

/-- No name of a sorted record comes before its first one. -/
theorem Sorted.get?_of_lt {rest : Record} {j : String} {x : Json}
    (h : Sorted ((j, x) :: rest)) (hlt : k < j) : get? ((j, x) :: rest) k = none := by
  obtain ⟨hfirst, -⟩ := List.pairwise_cons.mp h
  apply get?_eq_none
  intro entry hentry
  rcases List.mem_cons.mp hentry with rfl | hentry
  · exact ne_of_gt hlt
  · exact ne_of_gt (lt_trans hlt (hfirst entry hentry))

/-- Sorted records with the same value under every name are the same. -/
theorem Sorted.ext (hr : r.Sorted) (hr' : r'.Sorted) (h : ∀ k, r.get? k = r'.get? k) : r = r' := by
  -- the first names must agree, since neither record has a name before its own
  induction r generalizing r' with
  | nil =>
    cases r' with
    | nil => rfl
    | cons entry rest =>
      obtain ⟨j, x⟩ := entry
      have hhead := h j
      rw [get?_head] at hhead
      cases hhead
  | cons entry rest ih =>
    obtain ⟨j, x⟩ := entry
    cases r' with
    | nil =>
      have hhead := h j
      rw [get?_head] at hhead
      cases hhead
    | cons entry' rest' =>
      obtain ⟨j', x'⟩ := entry'
      have hsame : j = j' := by
        by_contra hne
        rcases lt_or_gt_of_ne hne with hlt | hlt
        · have hhead := h j
          rw [hr'.get?_of_lt hlt, get?_head] at hhead
          cases hhead
        · have hhead := h j'
          rw [hr.get?_of_lt hlt, get?_head] at hhead
          cases hhead
      subst hsame
      obtain ⟨hfirst, hrest⟩ := List.pairwise_cons.mp hr
      obtain ⟨hfirst', hrest'⟩ := List.pairwise_cons.mp hr'
      have hvalue : x = x' := by simpa [get?_head] using h j
      subst hvalue
      have htails : rest = rest' := by
        apply ih hrest hrest'
        intro k
        by_cases hk : j = k
        · subst hk
          rw [get?_eq_none fun entry hentry => ne_of_gt (hfirst entry hentry),
            get?_eq_none fun entry hentry => ne_of_gt (hfirst' entry hentry)]
        · have htail := h k
          rwa [get?_cons, if_neg hk, get?_cons, if_neg hk] at htail
      rw [htails]

/-! ### Records of pairs -/

theorem Sorted.merge (h : r.Sorted) (pairs : List (String × Json)) : (r.merge pairs).Sorted := by
  induction pairs generalizing r with
  | nil => exact h
  | cons entry rest ih => exact ih (h.insert entry.1 entry.2)

theorem sorted_ofList (pairs : List (String × Json)) : (ofList pairs).Sorted :=
  sorted_nil.merge pairs

/-- A merge holds nothing but what was there and what was merged. -/
theorem mem_merge {entry : String × Json} {pairs : List (String × Json)}
    (h : entry ∈ r.merge pairs) : entry ∈ r ∨ entry ∈ pairs := by
  induction pairs generalizing r with
  | nil => exact .inl h
  | cons first rest ih =>
    obtain ⟨j, x⟩ := first
    rcases ih (r := r.insert j x) h with hentry | hentry
    · rcases mem_insert hentry with rfl | hentry
      · exact .inr List.mem_cons_self
      · exact .inl hentry
    · exact .inr (List.mem_cons_of_mem _ hentry)

theorem mem_of_mem_ofList {entry : String × Json} {pairs : List (String × Json)}
    (h : entry ∈ ofList pairs) : entry ∈ pairs :=
  (mem_merge h).resolve_left List.not_mem_nil

/-- No name of a sorted record is repeated. -/
theorem Sorted.nodup (h : r.Sorted) : (names r).Nodup :=
  List.pairwise_map.mpr (h.imp ne_of_lt)

theorem mem_names_insert {name : String} :
    name ∈ names (r.insert k v) ↔ name = k ∨ name ∈ names r := by
  induction r with
  | nil => simp [names, Record.insert]
  | cons entry rest ih =>
    obtain ⟨j, x⟩ := entry
    simp only [names] at ih
    by_cases hjk : j = k
    · simp [names, Record.insert, hjk]
    · by_cases hlt : k < j
      · simp [names, Record.insert, hjk, hlt]
      · simp only [names, Record.insert, if_neg hjk, if_neg hlt, List.map_cons, List.mem_cons, ih]
        exact or_left_comm

/-- The names after a merge. -/
theorem mem_names_merge {name : String} {pairs : List (String × Json)} :
    name ∈ names (r.merge pairs) ↔ name ∈ names r ∨ name ∈ names pairs := by
  induction pairs generalizing r with
  | nil => simp [names, Record.merge]
  | cons first rest ih =>
    show name ∈ names ((r.insert first.1 first.2).merge rest) ↔ _
    rw [ih, mem_names_insert]
    simp only [names, List.map_cons, List.mem_cons]
    tauto

/-- A sorted list of pairs is a record already. -/
theorem ofList_eq_self (h : r.Sorted) : ofList r = r := by
  apply (sorted_ofList r).ext h
  intro k
  cases hk : r.get? k with
  | some v => exact get?_merge_of_some h hk []
  | none => exact get?_merge_of_none [] hk

end RecordGate.Record

import RecordGate.Json.Value

/-! # Records

  A record maps names to values. It is a list of pairs sorted by name, and
  every operation here keeps it sorted and free of repeated names.

  - `get?_insert`, `get?_erase`, `get?_keep` and `get?_mapValues` describe the
    changes through `get?`, and `get?_merge_of_none` what a merge leaves alone.
-/

namespace RecordGate.Record

/-- Names in strictly increasing order. -/
def Sorted (r : Record) : Prop :=
  r.Pairwise fun a b => a.1 < b.1

/-- The value under a name. -/
def get? : Record → String → Option Json
  | [], _ => none
  | (k, v) :: rest, name => if k = name then some v else get? rest name

/-- Whether a name has a value, `null` included. -/
def contains (r : Record) (name : String) : Bool :=
  (r.get? name).isSome

/-- Puts a value under a name, in place of an older one. -/
def insert : Record → String → Json → Record
  | [], name, value => [(name, value)]
  | (k, v) :: rest, name, value =>
    if k = name then (name, value) :: rest
    else if name < k then (name, value) :: (k, v) :: rest
    else (k, v) :: insert rest name value

/-- Takes a name out. -/
def erase (r : Record) (name : String) : Record :=
  r.filter fun (k, _) => k ≠ name

/-- Keeps the names that a test accepts. -/
def keep (r : Record) (test : String → Bool) : Record :=
  r.filter fun (k, _) => test k

/-- Puts every pair in, in order: of a repeated name the last value stays. -/
def merge (r : Record) (values : List (String × Json)) : Record :=
  values.foldl (fun acc (k, v) => acc.insert k v) r

/-- The record of a list of pairs; of a repeated name the last value stays. -/
def ofList (pairs : List (String × Json)) : Record :=
  merge [] pairs

/-- The names in order. -/
def names (r : Record) : List String :=
  r.map (·.1)

/-- Applies a function to every value. -/
def mapValues (r : Record) (f : Json → Json) : Record :=
  r.map fun (k, v) => (k, f v)

/-! ### Laws -/

@[simp] theorem get?_nil (name : String) : get? [] name = none := rfl

theorem get?_cons (k : String) (v : Json) (rest : Record) (name : String) :
    get? ((k, v) :: rest) name = if k = name then some v else get? rest name := rfl

/-- A value that was put in is found, and no other name is touched. -/
theorem get?_insert (r : Record) (name other : String) (value : Json) :
    (r.insert name value).get? other = if name = other then some value else r.get? other := by
  induction r with
  | nil => rfl
  | cons kv rest ih =>
    obtain ⟨k, v⟩ := kv
    simp only [insert]
    split
    next h =>
      subst h
      simp only [get?_cons]
      split <;> rfl
    next h =>
      split
      next => rfl
      next =>
        simp only [get?_cons, ih]
        by_cases hk : k = other
        · have : name ≠ other := fun hn => h (hk.trans hn.symm)
          simp [hk, this]
        · simp [hk]

/-- Putting a value in adds nothing but this. -/
theorem mem_insert {r : Record} {name : String} {value : Json} {entry : String × Json}
    (h : entry ∈ r.insert name value) : entry = (name, value) ∨ entry ∈ r := by
  induction r with
  | nil => exact .inl (List.mem_singleton.mp h)
  | cons kv rest ih =>
    obtain ⟨k, v⟩ := kv
    simp only [insert] at h
    split at h
    · exact (List.mem_cons.mp h).imp_right (List.mem_cons_of_mem _)
    · split at h
      · exact List.mem_cons.mp h
      · rcases List.mem_cons.mp h with h | h
        · exact .inr (h ▸ List.mem_cons_self)
        · exact (ih h).imp_right (List.mem_cons_of_mem _)

/-- A name that was taken out is gone, and no other name is touched. -/
theorem get?_erase (r : Record) (name other : String) :
    (r.erase name).get? other = if other = name then none else r.get? other := by
  induction r with
  | nil => simp [erase]
  | cons kv rest ih =>
    obtain ⟨k, v⟩ := kv
    simp only [erase] at ih
    by_cases hk : k = name
    · subst hk
      simp only [erase, ne_eq, not_true_eq_false, decide_false, Bool.false_eq_true,
        not_false_eq_true, List.filter_cons_of_neg, ih, get?_cons]
      by_cases ho : other = k
      · simp [ho]
      · simp [ho, Ne.symm ho]
    · simp only [erase, ne_eq, hk, not_false_eq_true, decide_true, List.filter_cons_of_pos,
        get?_cons, ih]
      by_cases ho : k = other
      · subst ho
        simp [hk]
      · simp [ho]

/-- A name survives exactly if the test accepts it. -/
theorem get?_keep (r : Record) (test : String → Bool) (name : String) :
    (r.keep test).get? name = if test name then r.get? name else none := by
  induction r with
  | nil => simp [keep]
  | cons kv rest ih =>
    obtain ⟨k, v⟩ := kv
    simp only [keep] at ih
    by_cases hk : k = name
    · subst hk
      cases ht : test k <;> simp [keep, get?_cons, ht, ih]
    · cases ht : test k <;> simp [keep, get?_cons, ht, hk, ih]

theorem get?_mapValues (r : Record) (f : Json → Json) (name : String) :
    (r.mapValues f).get? name = (r.get? name).map f := by
  induction r with
  | nil => rfl
  | cons kv rest ih =>
    obtain ⟨k, v⟩ := kv
    simp only [mapValues] at ih
    simp only [mapValues, List.map_cons, get?_cons, ih]
    split <;> rfl

/-- A name without a value among the merged ones is not touched. -/
theorem get?_merge_of_none (r : Record) {values : List (String × Json)} {name : String}
    (h : get? values name = none) : (r.merge values).get? name = r.get? name := by
  induction values generalizing r with
  | nil => rfl
  | cons kv rest ih =>
    obtain ⟨k, v⟩ := kv
    rw [get?_cons] at h
    split at h
    · cases h
    next hk =>
      have hstep : (r.insert k v).get? name = r.get? name := by
        rw [get?_insert, if_neg hk]
      exact (ih (r.insert k v) h).trans hstep

end RecordGate.Record

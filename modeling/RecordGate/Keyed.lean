/-! # Ordered maps

  Models, fields and rules are looked up by name and listed in the order in
  which they were first written. They are lists of pairs in which no name
  occurs twice; writing a name again replaces its value where it stands.

  - `get?_put` describes a change through `get?`, and `ofList_nodup` is why no
    name occurs twice.
  - `get?_eq_some` reads `get?` off the pairs, if no name occurs twice; such
    pairs are their own map (`ofList_of_nodup`).
-/

namespace RecordGate

/-- Among elements of which at most one passes a test, a search finds that one. -/
theorem find?_of_unique {α : Type} {test : α → Bool} {xs : List α} {x : α}
    (hone : ∀ y ∈ xs, ∀ z ∈ xs, test y = true → test z = true → y = z) :
    xs.find? test = some x ↔ x ∈ xs ∧ test x = true := by
  constructor
  · intro h
    exact ⟨List.mem_of_find?_eq_some h, List.find?_some h⟩
  · rintro ⟨hx, htest⟩
    cases hfound : xs.find? test with
    | none => exact absurd htest (List.find?_eq_none.mp hfound x hx)
    | some y =>
      have hy := List.mem_of_find?_eq_some hfound
      rw [hone y hy x hx (List.find?_some hfound) htest]

/-- Names with values, in the order in which the names were first written. -/
abbrev Keyed (α : Type) := List (String × α)

namespace Keyed

variable {α β : Type}

/-- The value under a name. -/
def get? : Keyed α → String → Option α
  | [], _ => none
  | (k, v) :: rest, name => if k = name then some v else get? rest name

/-- Writes a value: in place of an older one, else at the end. -/
def put : Keyed α → String → α → Keyed α
  | [], name, value => [(name, value)]
  | (k, v) :: rest, name, value =>
    if k = name then (name, value) :: rest else (k, v) :: put rest name value

/-- Writes pairs one after the other. -/
def ofList (pairs : List (String × α)) : Keyed α :=
  pairs.foldl (fun acc (k, v) => put acc k v) []

/-- Whether a name is there. -/
def contains (m : Keyed α) (name : String) : Bool :=
  (m.get? name).isSome

@[simp] theorem get?_nil (name : String) : get? ([] : Keyed α) name = none := rfl

theorem get?_cons (k : String) (v : α) (rest : Keyed α) (name : String) :
    get? ((k, v) :: rest) name = if k = name then some v else get? rest name := rfl

/-- A value that was written is found, and no other name is touched. -/
theorem get?_put (m : Keyed α) (name other : String) (value : α) :
    (m.put name value).get? other = if name = other then some value else m.get? other := by
  induction m with
  | nil => rfl
  | cons kv rest ih =>
    obtain ⟨k, v⟩ := kv
    simp only [put]
    split
    next h =>
      subst h
      simp only [get?_cons]
      split <;> rfl
    next h =>
      simp only [get?_cons, ih]
      by_cases hk : k = other
      · have : name ≠ other := fun hn => h (hk.trans hn.symm)
        simp [hk, this]
      · simp [hk]

/-- Writing a name adds no name but this one. -/
theorem mem_of_mem_put {m : Keyed α} {name : String} {value : α} {entry : String × α}
    (h : entry ∈ m.put name value) : entry = (name, value) ∨ entry ∈ m := by
  induction m with
  | nil => exact .inl (List.mem_singleton.mp h)
  | cons kv rest ih =>
    obtain ⟨k, v⟩ := kv
    simp only [put] at h
    split at h
    · rcases List.mem_cons.mp h with h | h
      · exact .inl h
      · exact .inr (List.mem_cons_of_mem _ h)
    · rcases List.mem_cons.mp h with h | h
      · exact .inr (h ▸ List.mem_cons_self)
      · exact (ih h).imp_right (List.mem_cons_of_mem _)

/-- No name occurs twice after writing one. -/
theorem put_nodup {m : Keyed α} (h : (m.map Prod.fst).Nodup) (name : String) (value : α) :
    ((m.put name value).map Prod.fst).Nodup := by
  induction m with
  | nil => simp [put]
  | cons kv rest ih =>
    obtain ⟨k, v⟩ := kv
    rw [List.map_cons, List.nodup_cons] at h
    simp only [put]
    split
    next hk => exact List.nodup_cons.mpr ⟨hk ▸ h.1, h.2⟩
    next hk =>
      refine List.nodup_cons.mpr ⟨fun hmem => ?_, ih h.2⟩
      obtain ⟨entry, hentry, hname⟩ := List.mem_map.mp hmem
      rcases mem_of_mem_put hentry with rfl | hold
      · exact hk hname.symm
      · exact h.1 (List.mem_map.mpr ⟨entry, hold, hname⟩)

/-- No name occurs twice in what is made of a list of pairs. -/
theorem ofList_nodup (pairs : List (String × α)) : ((ofList pairs).map Prod.fst).Nodup := by
  have hfold : ∀ acc : Keyed α, (acc.map Prod.fst).Nodup →
      ((pairs.foldl (fun acc (k, v) => put acc k v) acc).map Prod.fst).Nodup := by
    induction pairs with
    | nil => exact fun acc h => h
    | cons kv rest ih => exact fun acc h => ih _ (put_nodup h kv.1 kv.2)
  exact hfold [] .nil

/-- Every pair there comes from the list. -/
theorem mem_of_mem_ofList {pairs : List (String × α)} {entry : String × α}
    (h : entry ∈ ofList pairs) : entry ∈ pairs := by
  have hfold : ∀ acc : Keyed α, entry ∈ pairs.foldl (fun acc (k, v) => put acc k v) acc →
      entry ∈ acc ∨ entry ∈ pairs := by
    clear h
    induction pairs with
    | nil => exact fun acc h => .inl h
    | cons kv rest ih =>
      intro acc h
      rcases ih _ h with h | h
      · rcases mem_of_mem_put h with rfl | h
        · exact .inr List.mem_cons_self
        · exact .inl h
      · exact .inr (List.mem_cons_of_mem _ h)
  rcases hfold [] h with h | h
  · cases h
  · exact h

/-- If no name occurs twice, the value under a name is the one it is paired
    with. -/
theorem get?_eq_some {m : Keyed α} (hnodup : (m.map Prod.fst).Nodup) {name : String} {value : α} :
    m.get? name = some value ↔ (name, value) ∈ m := by
  induction m with
  | nil => simp
  | cons kv rest ih =>
    obtain ⟨k, v⟩ := kv
    obtain ⟨hnew, hrest⟩ := List.nodup_cons.mp hnodup
    rw [get?_cons, List.mem_cons]
    split
    next hk =>
      -- the name is the first one's, so it is nowhere later
      subst hk
      have hgone : (k, value) ∉ rest := fun h => hnew (List.mem_map.mpr ⟨_, h, rfl⟩)
      simp [hgone, eq_comm]
    next hk =>
      rw [ih hrest]
      exact (or_iff_right fun hsame => hk (congrArg Prod.fst hsame).symm).symm

/-- A name that is not there is written at the end. -/
theorem put_of_not_mem {m : Keyed α} {name : String} (h : name ∉ m.map Prod.fst) (value : α) :
    m.put name value = m ++ [(name, value)] := by
  induction m with
  | nil => rfl
  | cons kv rest ih =>
    obtain ⟨k, v⟩ := kv
    rw [List.map_cons, List.mem_cons, not_or] at h
    rw [put, if_neg (Ne.symm h.1), ih h.2, List.cons_append]

/-- Pairs in which no name occurs twice are the map that is made of them. -/
theorem ofList_of_nodup {pairs : List (String × α)} (h : (pairs.map Prod.fst).Nodup) :
    ofList pairs = pairs := by
  have hfold : ∀ acc : Keyed α, ((acc ++ pairs).map Prod.fst).Nodup →
      pairs.foldl (fun acc (k, v) => put acc k v) acc = acc ++ pairs := by
    clear h
    induction pairs with
    | nil => exact fun acc _ => (List.append_nil acc).symm
    | cons kv rest ih =>
      obtain ⟨k, v⟩ := kv
      intro acc h
      have hnew : k ∉ acc.map Prod.fst := by
        rw [List.map_append, List.nodup_append] at h
        exact fun hk => h.2.2 k hk k List.mem_cons_self rfl
      show rest.foldl _ (acc.put k v) = _
      rw [put_of_not_mem hnew, ih _ (by simpa using h), List.append_assoc]
      rfl
  exact hfold [] h

end Keyed

end RecordGate

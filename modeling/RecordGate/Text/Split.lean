/-! # Cutting texts

  - `splitOn` cuts at every occurrence of a character and keeps empty pieces;
    `intercalate_splitOn` puts them together again, and `splitOn_eq_cons` says
    which pieces they are.
  - `cutAt` cuts at the first occurrence only (`cutAt_eq_some`).
  - `cutAfter?` cuts behind the first occurrence of a word.
-/

namespace RecordGate.Text

/-- The pieces between the occurrences of a character; there is always one
    more piece than occurrences. -/
def splitOn (sep : Char) : List Char → List (List Char)
  | [] => [[]]
  | c :: cs =>
    match splitOn sep cs with
    | [] => [[]]
    | piece :: pieces => if c = sep then [] :: piece :: pieces else (c :: piece) :: pieces

theorem splitOn_ne_nil (sep : Char) (cs : List Char) : splitOn sep cs ≠ [] := by
  cases cs with
  | nil => exact List.cons_ne_nil _ _
  | cons c cs =>
    unfold splitOn
    split
    · exact List.cons_ne_nil _ _
    · split <;> exact List.cons_ne_nil _ _

theorem splitOn_cons (sep c : Char) (cs : List Char) :
    ∃ piece pieces, splitOn sep cs = piece :: pieces ∧
      splitOn sep (c :: cs) = if c = sep then [] :: piece :: pieces else (c :: piece) :: pieces := by
  obtain ⟨piece, pieces, hsplit⟩ := List.exists_cons_of_ne_nil (splitOn_ne_nil sep cs)
  refine ⟨piece, pieces, hsplit, ?_⟩
  rw [splitOn, hsplit]

/-- A text is cut on both sides of an occurrence. -/
theorem splitOn_append (sep : Char) (cs rest : List Char) :
    splitOn sep (cs ++ sep :: rest) = splitOn sep cs ++ splitOn sep rest := by
  induction cs with
  | nil =>
    obtain ⟨piece, pieces, hsplit, hcons⟩ := splitOn_cons sep sep rest
    rw [List.nil_append, hcons, if_pos rfl, hsplit]
    rfl
  | cons c cs ih =>
    obtain ⟨piece, pieces, hsplit, hcons⟩ := splitOn_cons sep c cs
    obtain ⟨piece', pieces', hsplit', hcons'⟩ := splitOn_cons sep c (cs ++ sep :: rest)
    rw [ih, hsplit, List.cons_append, List.cons.injEq] at hsplit'
    obtain ⟨rfl, rfl⟩ := hsplit'
    rw [List.cons_append, hcons', hcons]
    by_cases hc : c = sep
    · rw [if_pos hc, if_pos hc]
      rfl
    · rw [if_neg hc, if_neg hc]
      rfl

/-- A text without an occurrence is one piece. -/
theorem splitOn_of_not_mem {sep : Char} {cs : List Char} (h : sep ∉ cs) :
    splitOn sep cs = [cs] := by
  induction cs with
  | nil => rfl
  | cons c cs ih =>
    obtain ⟨piece, pieces, hsplit, hcons⟩ := splitOn_cons sep c cs
    have hc : c ≠ sep := fun hc => h (hc ▸ List.mem_cons_self)
    rw [ih fun hrest => h (List.mem_cons_of_mem _ hrest), List.cons.injEq] at hsplit
    obtain ⟨rfl, rfl⟩ := hsplit
    rw [hcons, if_neg hc]

/-- The pieces, put together again, are the text. -/
theorem intercalate_splitOn (sep : Char) (cs : List Char) :
    [sep].intercalate (splitOn sep cs) = cs := by
  induction cs with
  | nil => rfl
  | cons c cs ih =>
    obtain ⟨piece, pieces, hsplit, hcons⟩ := splitOn_cons sep c cs
    rw [hsplit] at ih
    rw [hcons]
    by_cases hc : c = sep
    · rw [if_pos hc, List.intercalate_cons_cons, ih, hc]
      rfl
    · rw [if_neg hc]
      cases pieces with
      | nil =>
        rw [List.intercalate_singleton] at ih ⊢
        rw [ih]
      | cons next pieces =>
        rw [List.intercalate_cons_cons] at ih ⊢
        rw [← ih]
        rfl

theorem splitOn_inj {sep : Char} {cs ds : List Char} (h : splitOn sep cs = splitOn sep ds) :
    cs = ds := by
  rw [← intercalate_splitOn sep cs, h, intercalate_splitOn]

/-- The characters of a piece are characters of the text. -/
theorem mem_of_mem_splitOn {sep c : Char} {cs piece : List Char} (h : piece ∈ splitOn sep cs)
    (hc : c ∈ piece) : c ∈ cs := by
  induction cs generalizing piece with
  | nil =>
    rw [List.mem_singleton.mp h] at hc
    exact hc
  | cons d cs ih =>
    obtain ⟨first, pieces, hsplit, hcons⟩ := splitOn_cons sep d cs
    rw [hsplit] at ih
    rw [hcons] at h
    by_cases hd : d = sep
    · rw [if_pos hd] at h
      rcases List.mem_cons.mp h with rfl | h
      · cases hc
      · exact List.mem_cons_of_mem _ (ih h hc)
    · rw [if_neg hd] at h
      rcases List.mem_cons.mp h with rfl | h
      · rcases List.mem_cons.mp hc with rfl | hc
        · exact List.mem_cons_self
        · exact List.mem_cons_of_mem _ (ih List.mem_cons_self hc)
      · exact List.mem_cons_of_mem _ (ih (List.mem_cons_of_mem _ h) hc)

/-- No piece has an occurrence in it. -/
theorem not_mem_of_mem_splitOn {sep : Char} {cs piece : List Char} (h : piece ∈ splitOn sep cs) :
    sep ∉ piece := by
  induction cs generalizing piece with
  | nil =>
    rw [List.mem_singleton.mp h]
    exact List.not_mem_nil
  | cons c cs ih =>
    obtain ⟨first, pieces, hsplit, hcons⟩ := splitOn_cons sep c cs
    rw [hsplit] at ih
    rw [hcons] at h
    by_cases hc : c = sep
    · rw [if_pos hc] at h
      rcases List.mem_cons.mp h with rfl | h
      · exact List.not_mem_nil
      · exact ih h
    · rw [if_neg hc] at h
      rcases List.mem_cons.mp h with rfl | h
      · intro hmem
        rcases List.mem_cons.mp hmem with hsame | hmem
        · exact hc hsame.symm
        · exact ih List.mem_cons_self hmem
      · exact ih (List.mem_cons_of_mem _ h)

theorem intercalate_cons (sep : Char) (first : List Char) (rest : List (List Char)) :
    [sep].intercalate (first :: rest) = first ++ rest.flatMap (sep :: ·) := by
  induction rest generalizing first with
  | nil => simp
  | cons next rest ih =>
    rw [List.intercalate_cons_cons, ih, List.flatMap_cons]
    simp

/-- The pieces of a text are the ones it is put together from, if none of them
    has an occurrence in it. -/
theorem splitOn_eq_cons {sep : Char} {cs first : List Char} {rest : List (List Char)} :
    splitOn sep cs = first :: rest ↔
      cs = first ++ rest.flatMap (sep :: ·) ∧ ∀ piece ∈ first :: rest, sep ∉ piece := by
  constructor
  · intro h
    refine ⟨?_, fun piece hpiece => not_mem_of_mem_splitOn (h ▸ hpiece)⟩
    rw [← intercalate_cons, ← h, intercalate_splitOn]
  · rintro ⟨rfl, hpieces⟩
    induction rest generalizing first with
    | nil =>
      rw [List.flatMap_nil, List.append_nil]
      exact splitOn_of_not_mem (hpieces first List.mem_cons_self)
    | cons next rest ih =>
      have hfirst := splitOn_of_not_mem (hpieces first List.mem_cons_self)
      rw [List.flatMap_cons, List.cons_append, splitOn_append, hfirst,
        ih fun piece hpiece => hpieces piece (List.mem_cons_of_mem _ hpiece)]
      rfl

/-- What precedes and what follows the first occurrence of a character. -/
def cutAt (sep : Char) : List Char → Option (List Char × List Char)
  | [] => none
  | c :: cs =>
    if c = sep then some ([], cs)
    else (cutAt sep cs).map fun (before, after) => (c :: before, after)

/-- The cut is at an occurrence, and there is none before it. -/
theorem cutAt_eq_some {sep : Char} {cs before after : List Char} :
    cutAt sep cs = some (before, after) ↔ cs = before ++ sep :: after ∧ sep ∉ before := by
  induction cs generalizing before with
  | nil => simp [cutAt]
  | cons c cs ih =>
    unfold cutAt
    by_cases hc : c = sep
    · subst hc
      rw [if_pos rfl]
      cases before with
      | nil => simp
      | cons b before => simp +contextual
    · rw [if_neg hc, Option.map_eq_some_iff]
      constructor
      · rintro ⟨⟨before', after'⟩, hcut, hpair⟩
        cases hpair
        obtain ⟨rfl, hsep⟩ := ih.mp hcut
        refine ⟨rfl, fun hmem => ?_⟩
        rcases List.mem_cons.mp hmem with hsame | hmem
        · exact hc hsame.symm
        · exact hsep hmem
      · rintro ⟨heq, hsep⟩
        cases before with
        | nil => exact absurd (List.cons.inj heq).1 hc
        | cons b before =>
          cases heq
          exact ⟨(before, after), ih.mpr ⟨rfl, fun hmem => hsep (List.mem_cons_of_mem _ hmem)⟩, rfl⟩

/-- The rest of a text that opens with another one. -/
def dropStart? : (start text : List Char) → Option (List Char)
  | [], cs => some cs
  | _ :: _, [] => none
  | a :: start, c :: cs => if a = c then dropStart? start cs else none

theorem dropStart?_eq_some {start text rest : List Char} :
    dropStart? start text = some rest ↔ text = start ++ rest := by
  induction start generalizing text with
  | nil => simp [dropStart?]
  | cons a start ih =>
    cases text with
    | nil => simp [dropStart?]
    | cons c cs =>
      unfold dropStart?
      by_cases hac : a = c
      · subst hac
        rw [if_pos rfl, ih, List.cons_append, List.cons.injEq]
        simp
      · rw [if_neg hac, List.cons_append, List.cons.injEq]
        simp [Ne.symm hac]

/-- A text up to the end of the first occurrence of a word, and the rest. -/
def cutAfter? (word : List Char) : List Char → Option (List Char × List Char)
  | [] => none
  | c :: cs =>
    match dropStart? word (c :: cs) with
    | some rest => some (word, rest)
    | none => (cutAfter? word cs).map fun (before, rest) => (c :: before, rest)

end RecordGate.Text

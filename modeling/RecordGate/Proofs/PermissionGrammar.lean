import RecordGate.Permission.Expr
import RecordGate.Proofs.Offline

/-! # The grammar of permissions

  ```text
  permission := blanks path blanks "=" blanks path blanks
  path       := "@" ident ("." ident)*
  ident      := [A-Za-z_] [A-Za-z0-9_]*
  ```

  The reader cuts at the first `=`, trims, drops the `@` and splits at the
  dots; the grammar knows nothing of this. They agree because neither `=` nor
  a dot nor a blank is in an identifier, so every cut is the grammar's.

  A path grows from its root: what is read first is the innermost. Its written
  form is over its last field, and the grammar over its segments; `render_toList`
  is the induction that relates the two.

  - `Path.Spelled` and `Expr.Spelled`: the grammar.
  - `Path.spelled_iff`: what it says of a path is that it is made of
    identifiers and the text is the written form.
  - `Expr.parse_exact`: reading is the grammar, and writing its inverse.
-/

namespace RecordGate

open Text

/-- The text of a path. -/
structure Path.Spelled (cs : List Char) (p : Path) : Prop where
  /-- The root is an identifier. -/
  root : Identifier p.root.toList
  /-- So is every segment. -/
  segments : ∀ s ∈ p.segments, Identifier s.toList
  /-- `@` stands before the root, and a dot before every segment. -/
  text : cs = '@' :: (p.root.toList ++ p.segments.flatMap fun s => '.' :: s.toList)

/-- The text of a permission, and what it is without the blanks around its
    paths. -/
inductive Expr.Spelled : (source compact : List Char) → Expr → Prop where
  | intro {w₁ p₁ w₂ w₃ p₂ w₄ : List Char} {e : Expr} (hw₁ : Blanks w₁) (hw₂ : Blanks w₂)
      (hw₃ : Blanks w₃) (hw₄ : Blanks w₄) (hleft : Path.Spelled p₁ e.left)
      (hright : Path.Spelled p₂ e.right) :
      Spelled (w₁ ++ p₁ ++ w₂ ++ '=' :: (w₃ ++ p₂ ++ w₄)) (p₁ ++ '=' :: p₂) e

/-! ### Characters -/

theorem Text.isBlank_word {c : Char} (h : IsLetter c ∨ IsDigit c) : isBlank c = false := by
  simp only [IsLetter, IsDigit, Char.le_def, UInt32.le_iff_toNat_le] at h
  rcases h with (⟨hlow, hhigh⟩ | ⟨hlow, hhigh⟩ | rfl) | ⟨hlow, hhigh⟩
  case inl.inr.inr => rfl
  -- a letter or a digit lies between the blanks below `!` and those above `~`
  all_goals
    have hlow' : 0x30 ≤ c.toNat := Nat.le_trans (by decide) hlow
    have hhigh' : c.toNat ≤ 0x7A := Nat.le_trans hhigh (by decide)
    simp only [isBlank, Bool.or_eq_false_iff, Bool.and_eq_false_iff, decide_eq_false_iff_not]
    omega

theorem Text.Blanks.not_mem_equals {w : List Char} (h : Blanks w) : '=' ∉ w := by
  intro hmem
  cases h '=' hmem

/-! ### Paths -/

namespace Path

variable {cs body : List Char} {p : Path}

/-- The written form is the root behind the `@` and every segment behind a dot. -/
theorem render_toList (p : Path) :
    p.render.toList = '@' :: (p.root.toList ++ p.segments.flatMap fun s => '.' :: s.toList) := by
  induction p with
  | base name =>
    show ("@" ++ name).toList = '@' :: (name.toList ++ [])
    rw [String.toList_append, List.append_nil]
    rfl
  | field parent name ih =>
    -- the last field is written last, behind all that is written of its parent
    rw [render, String.toList_append, String.toList_append, ih, root, segments,
      List.flatMap_append]
    simp

/-- A path is spelled by its written form alone, if it is made of identifiers. -/
theorem spelled_iff : Spelled cs p ↔ p.WellFormed ∧ cs = p.render.toList := by
  rw [render_toList]
  constructor
  · rintro ⟨hroot, hsegments, htext⟩
    exact ⟨⟨isIdent_iff.mpr hroot, fun s hs => isIdent_iff.mpr (hsegments s hs)⟩, htext⟩
  · rintro ⟨⟨hroot, hsegments⟩, htext⟩
    exact ⟨isIdent_iff.mp hroot, fun s hs => isIdent_iff.mp (hsegments s hs), htext⟩

theorem Spelled.mem (h : Spelled cs p) {c : Char} (hc : c ∈ cs) :
    c = '@' ∨ c = '.' ∨ IsLetter c ∨ IsDigit c := by
  rw [h.text] at hc
  rcases List.mem_cons.mp hc with rfl | hc
  · exact .inl rfl
  rcases List.mem_append.mp hc with hc | hc
  · exact .inr (.inr (h.root.mem hc))
  obtain ⟨s, hs, hc⟩ := List.mem_flatMap.mp hc
  rcases List.mem_cons.mp hc with rfl | hc
  · exact .inr (.inl rfl)
  · exact .inr (.inr ((h.segments s hs).mem hc))

theorem Spelled.not_blank (h : Spelled cs p) : ∀ c ∈ cs, isBlank c = false := by
  intro c hc
  rcases h.mem hc with rfl | rfl | hword
  · rfl
  · rfl
  · exact isBlank_word hword

theorem Spelled.not_mem_equals (h : Spelled cs p) : '=' ∉ cs :=
  fun hc => absurd (h.mem hc) (by decide)

/-- Fields are read one after the other, each from an identifier, and become the
    last segments. -/
theorem readFields_eq_ok {pieces : List (List Char)} {q : Path} :
    readFields q pieces = .ok p ↔ (∀ piece ∈ pieces, Identifier piece) ∧
      p.root = q.root ∧ p.segments = q.segments ++ pieces.map String.ofList := by
  induction pieces generalizing q with
  | nil =>
    rw [readFields, List.map_nil, List.append_nil]
    constructor
    · intro h
      cases h
      exact ⟨List.forall_mem_nil _, rfl, rfl⟩
    · rintro ⟨-, hroot, hsegments⟩
      rw [Path.ext hroot hsegments]
  | cons piece pieces ih =>
    unfold readFields
    rw [List.forall_mem_cons]
    by_cases hpiece : isIdentChars piece = true
    · have hident : Identifier piece := isIdentChars_iff.mp hpiece
      rw [if_pos hpiece, ih]
      simp [hident, root, segments]
    · rw [if_neg hpiece]
      constructor
      · intro h
        cases h
      · rintro ⟨⟨hident, -⟩, -⟩
        exact absurd (isIdentChars_iff.mpr hident) hpiece

/-- The dots of a path are where its text is split. -/
theorem Spelled.splitOn (h : Spelled ('@' :: body) p) :
    splitOn '.' body = p.root.toList :: p.segments.map String.toList := by
  have hbody : body = p.root.toList ++ p.segments.flatMap fun s => '.' :: s.toList :=
    (List.cons.inj h.text).2
  refine splitOn_eq_cons.mpr ⟨?_, ?_⟩
  · rw [hbody, List.flatMap_map]
  · rw [List.forall_mem_cons, List.forall_mem_map]
    exact ⟨h.root.not_mem (by decide), fun s hs => (h.segments s hs).not_mem (by decide)⟩

/-- What follows the `@` is read by the grammar. -/
theorem readBody_eq_ok : readBody body = .ok p ↔ Spelled ('@' :: body) p := by
  constructor
  · intro h
    unfold readBody at h
    split at h
    · cases h
    next root pieces hsplit =>
      obtain ⟨hbody, -⟩ := splitOn_eq_cons.mp hsplit
      split at h
      next hroot =>
        obtain ⟨hpieces, hname, hnames⟩ := readFields_eq_ok.mp h
        simp only [Path.root, Path.segments, List.nil_append] at hname hnames
        refine ⟨?_, ?_, ?_⟩
        · rw [hname, String.toList_ofList]
          exact isIdentChars_iff.mp hroot
        · rw [hnames, List.forall_mem_map]
          intro piece hpiece
          rw [String.toList_ofList]
          exact hpieces piece hpiece
        · rw [hname, hnames, hbody, List.flatMap_map]
          simp only [String.toList_ofList]
      · cases h
  · intro h
    have hroot : isIdentChars p.root.toList = true := isIdentChars_iff.mpr h.root
    have hfields : readFields (base p.root) (p.segments.map String.toList) = .ok p := by
      refine readFields_eq_ok.mpr ⟨List.forall_mem_map.mpr h.segments, rfl, ?_⟩
      simp [segments, Function.comp_def]
    unfold readBody
    rw [h.splitOn]
    dsimp only
    rw [if_pos hroot, String.ofList_toList]
    exact hfields

/-- A path is read with blanks around it. -/
theorem readChars_eq_ok :
    readChars cs = .ok p ↔
      ∃ before text after, Blanks before ∧ Blanks after ∧ Spelled text p ∧
        cs = before ++ text ++ after := by
  unfold readChars
  constructor
  · intro h
    split at h
    next body htrim =>
      obtain ⟨before, after, hbefore, hafter, hcs⟩ := exists_trimChars cs
      exact ⟨before, _, after, hbefore, hafter, readBody_eq_ok.mp h, htrim ▸ hcs⟩
    · cases h
  · rintro ⟨before, text, after, hbefore, hafter, htext, rfl⟩
    rw [trimChars_append hbefore hafter htext.not_blank]
    obtain ⟨body, rfl⟩ : ∃ body, text = '@' :: body := ⟨_, htext.text⟩
    exact readBody_eq_ok.mpr htext

end Path

/-! ### Permissions -/

namespace Expr

variable {source : String} {compact : List Char} {e e' : Expr}

/-- What a permission that was read comes from, in the order of the steps. -/
theorem parse_eq_ok :
    parse source = .ok e ↔
      ∃ left right, source.toList = left ++ '=' :: right ∧ '=' ∉ left ∧ '=' ∉ right ∧
        Path.readChars left = .ok e.left ∧ Path.readChars right = .ok e.right := by
  constructor
  · intro h
    unfold parse at h
    dsimp only at h
    split at h
    · cases h
    next left right hcut =>
      obtain ⟨htext, hleft⟩ := cutAt_eq_some.mp hcut
      split at h
      · cases h
      next hright =>
        split at h
        · cases h
        next l hl =>
          split at h
          · cases h
          next r hr =>
            cases h
            exact ⟨left, right, htext, hleft, by simpa using hright, hl, hr⟩
  · rintro ⟨left, right, htext, hleft, hright, hl, hr⟩
    unfold parse
    rw [cutAt_eq_some.mpr ⟨htext, hleft⟩]
    simp [hright, hl, hr]

/-- Reading accepts the grammar, and nothing else. -/
theorem parse_eq_ok_iff_spelled :
    parse source = .ok e ↔ ∃ compact, Spelled source.toList compact e := by
  rw [parse_eq_ok]
  constructor
  · rintro ⟨left, right, htext, -, -, hl, hr⟩
    obtain ⟨w₁, p₁, w₂, hw₁, hw₂, hp₁, rfl⟩ := Path.readChars_eq_ok.mp hl
    obtain ⟨w₃, p₂, w₄, hw₃, hw₄, hp₂, rfl⟩ := Path.readChars_eq_ok.mp hr
    rw [htext]
    exact ⟨_, .intro hw₁ hw₂ hw₃ hw₄ hp₁ hp₂⟩
  · rintro ⟨compact, hspelled⟩
    generalize hcs : source.toList = cs at hspelled
    cases hspelled with
    | intro hw₁ hw₂ hw₃ hw₄ hp₁ hp₂ =>
      refine ⟨_, _, rfl, ?_, ?_, Path.readChars_eq_ok.mpr ⟨_, _, _, hw₁, hw₂, hp₁, rfl⟩,
        Path.readChars_eq_ok.mpr ⟨_, _, _, hw₃, hw₄, hp₂, rfl⟩⟩
      · simp [hw₁.not_mem_equals, hw₂.not_mem_equals, hp₁.not_mem_equals]
      · simp [hw₃.not_mem_equals, hw₄.not_mem_equals, hp₂.not_mem_equals]

/-- The written form is the text without the blanks around the paths. -/
theorem Spelled.render {cs : List Char} (h : Spelled cs compact e) :
    e.render.toList = compact := by
  cases h with
  | intro _ _ _ _ hleft hright =>
    rw [(Path.spelled_iff.mp hleft).2, (Path.spelled_iff.mp hright).2]
    simp [Expr.render]

theorem Spelled.wellFormed {cs : List Char} (h : Spelled cs compact e) : e.WellFormed := by
  cases h with
  | intro _ _ _ _ hleft hright =>
    exact ⟨(Path.spelled_iff.mp hleft).1, (Path.spelled_iff.mp hright).1⟩

/-- A permission made of identifiers is read back from its written form. -/
theorem parse_render (h : e.WellFormed) : parse e.render = .ok e := by
  have hnone : Blanks [] := fun c hc => nomatch hc
  have hleft := Path.spelled_iff.mpr ⟨h.1, rfl⟩
  have hright := Path.spelled_iff.mpr ⟨h.2, rfl⟩
  refine parse_eq_ok_iff_spelled.mpr ⟨e.left.render.toList ++ '=' :: e.right.render.toList, ?_⟩
  have hspelled := Spelled.intro hnone hnone hnone hnone hleft hright
  simpa [Expr.render] using hspelled

theorem parse_error {error : Error} (h : parse source = .error error) :
    ∃ reason, error = .invalidExpression source reason := by
  unfold parse at h
  dsimp only at h
  split at h
  · cases h
    exact ⟨_, rfl⟩
  · split at h
    · cases h
      exact ⟨_, rfl⟩
    · split at h
      · cases h
        exact ⟨_, rfl⟩
      · split at h
        · cases h
          exact ⟨_, rfl⟩
        · cases h

/-- Reading accepts exactly the grammar, and writing is its inverse:

    - a text is read as a permission iff the grammar spells it so, and any
      other text is refused as an invalid expression;
    - the written form of what was read is the text without the blanks around
      the two paths, and is read as the same permission;
    - every permission made of identifiers is what its written form is read
      as, so no two of them are written alike. -/
theorem parse_exact (source : String) :
    (∀ e, parse source = .ok e ↔ ∃ compact, Spelled source.toList compact e) ∧
      ((∀ e compact, ¬Spelled source.toList compact e) →
        ∃ reason, parse source = .error (.invalidExpression source reason)) ∧
      (∀ e compact, Spelled source.toList compact e →
        e.render.toList = compact ∧ parse e.render = .ok e) ∧
      (∀ e : Expr, e.WellFormed → parse e.render = .ok e) ∧
      ∀ e e' : Expr, e.WellFormed → e'.WellFormed → e.render = e'.render → e = e' := by
  refine ⟨fun e => parse_eq_ok_iff_spelled, ?_, ?_, fun e => parse_render, ?_⟩
  · intro hnone
    cases hparse : parse source with
    | ok e =>
      obtain ⟨compact, hspelled⟩ := parse_eq_ok_iff_spelled.mp hparse
      exact absurd hspelled (hnone e compact)
    | error error =>
      obtain ⟨reason, rfl⟩ := parse_error hparse
      exact ⟨reason, rfl⟩
  · exact fun e compact hspelled => ⟨hspelled.render, parse_render hspelled.wellFormed⟩
  · intro e e' he he' hsame
    have hread := parse_render he
    rw [hsame, parse_render he'] at hread
    exact (Except.ok.inj hread).symm

/-- A permission with blanks around both paths, one of them not ASCII. -/
theorem parse_spaced :
    parse " @note.by =\u3000@req_user._id" =
        .ok ⟨.field (.base "note") "by", .field (.base "req_user") "_id"⟩ ∧
      parse "@note.by=@req_user._id" =
        .ok ⟨.field (.base "note") "by", .field (.base "req_user") "_id"⟩ := by
  have hleft : Path.Spelled "@note.by".toList (.field (.base "note") "by") :=
    Path.spelled_iff.mpr ⟨⟨by decide, by decide⟩, rfl⟩
  have hright : Path.Spelled "@req_user._id".toList (.field (.base "req_user") "_id") :=
    Path.spelled_iff.mpr ⟨⟨by decide, by decide⟩, rfl⟩
  have hspace : Blanks [' '] := List.forall_mem_singleton.mpr (by decide)
  have hwide : Blanks ['\u3000'] := List.forall_mem_singleton.mpr (by decide)
  have hspelled := @Spelled.intro [' '] "@note.by".toList [' '] ['\u3000']
    "@req_user._id".toList [] ⟨.field (.base "note") "by", .field (.base "req_user") "_id"⟩
    hspace hspace hwide (List.forall_mem_nil _) hleft hright
  have hexact := parse_exact " @note.by =\u3000@req_user._id"
  exact ⟨(hexact.1 _).mpr ⟨_, hspelled⟩, (hexact.2.2.1 _ _ hspelled).2⟩

end Expr

end RecordGate

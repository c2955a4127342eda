import RecordGate.Proofs.DateText
import RecordGate.Proofs.IdentifierText

/-! # Coercing twice

  What coercion returns is in the stored form of its type, and coercing it again
  returns it unchanged, but for one kind of value: a date whose year does not
  have four digits is written with a sign, and a sign is not read.

  - `coerce_stored_date`: what becomes of the text of an instant.
  - `coerce_again` says when a second coercion leaves the value as it is, and
    that it is refused otherwise; `coerce_again_refused` is such a value.
-/

namespace RecordGate

namespace Shape

variable {name : String} {type : FieldType} {v w : Json} {t : Time.Instant}

theorem identifier_toHex (name : String) (id : ObjectId) :
    identifier name id.toHex = .ok (.str id.toHex) := by
  have hread := ObjectId.parse_toHex id
  unfold identifier
  rw [ObjectId.trim_of_parse hread, hread]

theorem identifierItems_again {items stored : List Json}
    (h : identifierItems name items = .ok stored) : identifierItems name stored = .ok stored := by
  induction items generalizing stored with
  | nil =>
    cases h
    rfl
  | cons item rest ih =>
    obtain ⟨first, hfirst, h⟩ := bind_eq_ok_iff.mp h
    obtain ⟨others, hothers, h⟩ := bind_eq_ok_iff.mp h
    cases h
    unfold identifierItem at hfirst
    split at hfirst
    · obtain ⟨id, rfl⟩ := identifier_eq_ok hfirst
      show (identifier name id.toHex >>= fun item => identifierItems name others >>= fun rest =>
        .ok (item :: rest)) = _
      rw [identifier_toHex, ih hothers]
      rfl
    · cases hfirst

/-! ### Dates -/

theorem trimChars_stored (t : Time.Instant) : Text.trimChars t.stored.toList = t.stored.toList := by
  have hblank : ∀ c ∈ t.stored.toList, Text.isBlank c = false := fun c hc =>
    Time.isBlank_of_isMark (Time.marked_stored t c hc)
  apply Text.trimChars_eq_self
  · intro c hc
    exact hblank c (List.mem_of_mem_head? hc)
  · intro c hc
    exact hblank c (List.mem_of_mem_getLast? hc)

theorem instantOf?_stored (ht : t.Shown) (hyear : Time.Plain t.date.year) :
    instantOf? t.stored = some t.cut := by
  unfold instantOf?
  dsimp only
  rw [trimChars_stored, Time.strict?_stored ht hyear]

theorem instantOf?_far (hyear : ¬ Time.Plain t.date.year) : instantOf? t.stored = none := by
  unfold instantOf?
  dsimp only
  rw [trimChars_stored, Time.strict?_far hyear]
  exact Time.date?_far hyear

/-- What the text of an instant is coerced to: itself, if its year has four
    digits. -/
theorem coerce_stored_date (ht : t.Shown) :
    coerce name .date (.str t.stored) =
      if Time.Plain t.date.year then .ok (.str t.stored)
      else .error (notA name t.stored "a date") := by
  unfold coerce coercePresent
  dsimp only
  by_cases hyear : Time.Plain t.date.year
  · rw [instantOf?_stored ht hyear, if_pos hyear]
    dsimp only
    rw [Time.stored_cut]
  · rw [instantOf?_far hyear, if_neg hyear]

theorem instantOf?_shown {text : String} (h : instantOf? text = some t) : t.Shown := by
  unfold instantOf? at h
  dsimp only at h
  split at h
  next t' hstrict =>
    cases h
    exact Time.strict?_shown hstrict
  · exact Time.date?_shown h

/-- A date that was coerced is the text of an instant. -/
theorem coercePresent_date (h : coercePresent name .date v = .ok w) :
    ∃ t : Time.Instant, t.Shown ∧ w = .str t.stored := by
  unfold coercePresent at h
  split at h
  case h_8 =>
    split at h
    next t ht =>
      cases h
      exact ⟨t, instantOf?_shown ht, rfl⟩
    · cases h
  case h_9 =>
    split at h
    next t ht =>
      cases h
      obtain ⟨millis, -, hmillis⟩ := Option.bind_eq_some_iff.mp ht
      exact ⟨t, Time.ofMillis?_shown hmillis, rfl⟩
    · cases h
  case h_13 => cases h
  all_goals contradiction

/-! ### All types -/

/-- A value of any other type is coerced to itself once it was coerced. -/
theorem coercePresent_again (htype : type ≠ .date) (h : coercePresent name type v = .ok w) :
    coerce name type w = .ok w := by
  unfold coercePresent at h
  split at h
  case h_8 => exact absurd rfl htype
  case h_9 => exact absurd rfl htype
  case h_10 =>
    obtain ⟨id, rfl⟩ := identifier_eq_ok h
    exact identifier_toHex name id
  case h_12 items =>
    cases hitems : identifierItems name items with
    | ok stored =>
      rw [hitems] at h
      cases h
      show (identifierItems name stored).map Json.arr = _
      rw [identifierItems_again hitems]
      rfl
    | error e =>
      rw [hitems] at h
      cases h
  case h_13 => cases h
  -- what is left is taken as it stands, or read from a text
  all_goals try split at h
  all_goals cases h
  all_goals rfl

/-- A date whose year does not have four digits. -/
def Far (w : Json) : Prop :=
  ∃ t : Time.Instant, w = .str t.stored ∧ ¬ Time.Plain t.date.year

/-- The text of an instant has a sign exactly if its year needs one, so texts
    that are the same agree on it. -/
theorem far_stored (ht : t.Shown) : Far (.str t.stored) ↔ ¬ Time.Plain t.date.year := by
  constructor
  · rintro ⟨t', hsame, hfar⟩ hplain
    have htext : t.stored = t'.stored := Json.str.inj hsame
    have hread := instantOf?_stored ht hplain
    rw [htext, instantOf?_far hfar] at hread
    cases hread
  · intro hfar
    exact ⟨t, rfl, hfar⟩

/-- Coercing a value again returns the same value, unless it is a date whose
    year does not have four digits: that is refused. -/
theorem coerce_again (h : coerce name type v = .ok w) :
    (coerce name type w = .ok w ↔ ¬ (type = .date ∧ Far w)) ∧
    (type = .date ∧ Far w → ∃ text, w = .str text ∧
      coerce name type w = .error (notA name text "a date")) := by
  by_cases hdate : type = .date
  · subst hdate
    unfold coerce at h
    split at h
    · cases h
      refine ⟨iff_of_true rfl ?_, ?_⟩
      · rintro ⟨-, t, hnull, -⟩
        cases hnull
      · rintro ⟨-, t, hnull, -⟩
        cases hnull
    · obtain ⟨t, ht, rfl⟩ := coercePresent_date h
      rw [coerce_stored_date ht, far_stored ht]
      by_cases hyear : Time.Plain t.date.year
      · simp [hyear]
      · simp [hyear]
  · refine ⟨iff_of_true ?_ fun hfar => hdate hfar.1, fun hfar => absurd hfar.1 hdate⟩
    unfold coerce at h
    split at h
    · cases h
      rfl
    · exact coercePresent_again hdate h

/-- What the milliseconds of a leap day are coerced to is coerced to itself. -/
theorem leap_day_again :
    coerce "at" .date (.num (.int 1709164800000)) = .ok (.str "2024-02-29T00:00:00.000Z") ∧
      coerce "at" .date (.str "2024-02-29T00:00:00.000Z") =
        .ok (.str "2024-02-29T00:00:00.000Z") := by
  have hfirst : coerce "at" .date (.num (.int 1709164800000)) =
      .ok (.str "2024-02-29T00:00:00.000Z") := by decide +kernel
  have ht : (⟨1709164800, 0⟩ : Time.Instant).Shown := ⟨by decide, by decide⟩
  have htext : "2024-02-29T00:00:00.000Z" = (⟨1709164800, 0⟩ : Time.Instant).stored := by
    decide +kernel
  refine ⟨hfirst, (coerce_again hfirst).1.mpr ?_⟩
  rintro ⟨-, hfar⟩
  rw [htext, far_stored ht] at hfar
  exact hfar (by decide +kernel)

/-- The first instant of the year 10000 is coerced from its milliseconds, and
    the result is refused. -/
theorem coerce_again_refused :
    ¬ ∀ name type v w, coerce name type v = .ok w → coerce name type w = .ok w := by
  intro h
  have hfirst : coerce "at" .date (.num (.int 253402300800000)) =
      .ok (.str "+10000-01-01T00:00:00.000Z") := by decide +kernel
  have hsecond : coerce "at" .date (.str "+10000-01-01T00:00:00.000Z") ≠
      .ok (.str "+10000-01-01T00:00:00.000Z") := by decide +kernel
  exact hsecond (h _ _ _ _ hfirst)

end Shape

end RecordGate

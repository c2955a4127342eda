import Mathlib.Data.List.Induction
import Mathlib.Data.List.TakeWhile
import Mathlib.Tactic.Ring
import RecordGate.Proofs.DayNumbers
import RecordGate.Proofs.StoredForm

/-! # Dates read back

  The text of an instant is read as that instant, cut to the millisecond, as
  long as its year has four digits. A year with a sign is read by no reader of
  stored dates.

  - `number_run`: a run of digits is read as the number that it writes.
  - `strict?_stored`, `stored_cut`: the text reads back, and is written again.
  - `strict?_far`, `date?_far`: what becomes of a year with a sign.
-/

namespace RecordGate.Time

/-! ### Runs of digits -/

/-- A run of digits that writes a number. -/
structure Run (ds : List Char) (n : Nat) : Prop where
  /-- They are digits. -/
  digits : ∀ c ∈ ds, Decimal.isDigit c = true
  /-- They write the number. -/
  value : Decimal.ofDigits ds = n

variable {ds cs rest : List Char} {n width least most : Nat}

theorem ofDigits_eq (cs : List Char) : Decimal.ofDigits cs = Nat.ofDigitChars 10 cs 0 := by
  unfold Decimal.ofDigits Nat.ofDigitChars
  congr 1
  funext acc c
  rw [Nat.mul_comm]
  rfl

theorem isDigit_iff {c : Char} : Decimal.isDigit c = true ↔ c.isDigit = true := by
  simp [Decimal.isDigit, Char.isDigit, Char.le_def]

theorem toList_padded (width n : Nat) : (padded width n).toList =
    List.replicate (width - (Nat.toDigits 10 n).length) '0' ++ Nat.toDigits 10 n := by
  unfold padded Decimal.natText Decimal.zeros
  simp

/-- A number is written in digits, with or without zeros in front. -/
theorem run_padded (width n : Nat) : Run (padded width n).toList n := by
  rw [toList_padded]
  constructor
  case digits =>
    intro c hc
    rw [isDigit_iff]
    rcases List.mem_append.mp hc with hc | hc
    · rw [List.eq_of_mem_replicate hc]
      rfl
    · exact Nat.isDigit_of_mem_toDigits (by decide) (by decide) hc
  case value =>
    rw [ofDigits_eq, Nat.ofDigitChars_append, Nat.ofDigitChars_replicate_zero, Nat.mul_zero,
      Nat.ofDigitChars_toDigits (by decide) (by decide)]

theorem length_padded (hwidth : 0 < width) (hn : n < 10 ^ width) :
    (padded width n).toList.length = width := by
  have hlength := (Nat.length_toDigits_le_iff (by decide) hwidth).mpr hn
  rw [toList_padded, List.length_append, List.length_replicate]
  omega

theorem length_padded_pos (width n : Nat) : 1 ≤ (padded width n).toList.length := by
  have hlength := @Nat.length_toDigits_pos 10 n
  rw [toList_padded, List.length_append]
  omega

/-- Nothing but a digit continues a number. -/
def Stops (rest : List Char) : Prop :=
  ∀ c, rest.head? = some c → Decimal.isDigit c = false

theorem takeWhile_stops (h : Stops rest) (count : Nat) :
    (rest.take count).takeWhile Decimal.isDigit = [] := by
  cases rest with
  | nil => simp
  | cons c rest =>
    have hc := h c rfl
    cases count <;> simp [hc]

theorem spanDigits_run (h : ∀ c ∈ ds, Decimal.isDigit c = true) (hstops : Stops rest) :
    Decimal.spanDigits (ds ++ rest) = (ds, rest) := by
  have hend : rest.takeWhile Decimal.isDigit = [] := by
    have htake := takeWhile_stops hstops rest.length
    rwa [List.take_length] at htake
  have hdrop : rest.dropWhile Decimal.isDigit = rest := by
    have happend := List.takeWhile_append_dropWhile (p := Decimal.isDigit) (l := rest)
    rwa [hend] at happend
  unfold Decimal.spanDigits
  rw [List.takeWhile_append_of_pos h, List.dropWhile_append_of_pos h, hend, hdrop, List.append_nil]

/-- A run of digits is read as its number, if it is long enough and either all
    that may be read or all that there is. -/
theorem number_run (h : Run ds n) (hleast : least ≤ ds.length) (hmost : ds.length ≤ most)
    (hend : ds.length = most ∨ Stops rest) :
    number least most (ds ++ rest) = some (n, rest) := by
  have htail : (rest.take (most - ds.length)).takeWhile Decimal.isDigit = [] := by
    rcases hend with hfull | hstops
    · rw [hfull, Nat.sub_self]
      rfl
    · exact takeWhile_stops hstops _
  have htaken : ((ds ++ rest).take most).takeWhile Decimal.isDigit = ds := by
    rw [List.take_append, List.take_of_length_le hmost, List.takeWhile_append_of_pos h.digits,
      htail, List.append_nil]
  unfold number
  rw [htaken, if_neg (by omega), h.value, List.drop_left]

theorem number_padded (hwidth : 0 < width) (hn : n < 10 ^ width) :
    number width width ((padded width n).toList ++ rest) = some (n, rest) := by
  have hlength := length_padded hwidth hn
  exact number_run (run_padded width n) hlength.ge hlength.le (.inl hlength)

/-- What is no digit is no number. -/
theorem number_none (hleast : 0 < least) (hstops : Stops cs) : number least most cs = none := by
  unfold number
  rw [takeWhile_stops hstops most]
  exact if_pos hleast

/-! ### Instants as they are made -/

/-- The date of an instant in UTC. -/
def Instant.date (t : Instant) : Date :=
  Date.ofDays (t.seconds / 86400)

/-- The time of day of an instant, where a leap second is the 61st. -/
def Instant.clock (t : Instant) : Clock where
  hour := (t.seconds % 86400).toNat / 3600
  minute := (t.seconds % 86400).toNat / 60 % 60
  second := (t.seconds % 86400).toNat % 60 + if 1000000000 ≤ t.nanos then 1 else 0
  nanos := if 1000000000 ≤ t.nanos then t.nanos - 1000000000 else t.nanos

/-- An instant without what is less than a millisecond. -/
def Instant.cut (t : Instant) : Instant :=
  { t with nanos := t.nanos / 1000000 * 1000000 }

/-- The years that are written with four digits and no sign. -/
def Plain (year : Int) : Prop :=
  0 ≤ year ∧ year ≤ 9999

instance (year : Int) : Decidable (Plain year) :=
  inferInstanceAs (Decidable (_ ∧ _))

/-- An instant that a clock shows: a leap second is the 61st of a minute. -/
structure Instant.Shown (t : Instant) : Prop where
  /-- A second has a thousand million nanoseconds, a leap second as many more. -/
  nanos : t.nanos < 2000000000
  /-- A leap second is at the end of a minute. -/
  leap : 1000000000 ≤ t.nanos → t.seconds % 60 = 59

variable {t : Instant} {date : Date} {clock : Clock} {offset : Int}

theorem ofMillis?_shown {millis : Int} (h : Instant.ofMillis? millis = some t) : t.Shown := by
  unfold Instant.ofMillis? at h
  dsimp only at h
  split at h
  · cases h
    constructor <;> dsimp only <;> omega
  · cases h

theorem ofParts?_shown (hnanos : clock.nanos < 1000000000) (hoffset : offset % 60 = 0)
    (h : Instant.ofParts? date clock offset = some t) : t.Shown := by
  unfold Instant.ofParts? at h
  dsimp only at h
  by_cases hleap : clock.second = 60
  · rw [if_pos hleap] at h
    dsimp only at h
    split at h
    · cases h
      constructor <;> dsimp only <;> omega
    · cases h
  · rw [if_neg hleap] at h
    dsimp only at h
    split at h
    · cases h
      constructor <;> dsimp only <;> omega
    · cases h

/-- A run of digits writes less than the power of ten with its length. -/
theorem ofDigits_lt (h : ∀ c ∈ ds, Decimal.isDigit c = true) :
    Decimal.ofDigits ds < 10 ^ ds.length := by
  induction ds using List.reverseRecOn with
  | nil => decide
  | append_singleton ds c ih =>
    have hc := h c (List.mem_append_right _ List.mem_cons_self)
    have hds := ih fun d hd => h d (List.mem_append_left _ hd)
    have hvalue : Decimal.digitValue c < 10 := by
      simp only [Decimal.isDigit, Bool.and_eq_true, decide_eq_true_eq, Char.le_def,
        UInt32.le_iff_toNat_le] at hc
      have hnine : c.val.toNat ≤ 57 := hc.2
      have hdef : Decimal.digitValue c = c.val.toNat - 48 := rfl
      omega
    have hfold : Decimal.ofDigits (ds ++ [c]) =
        Decimal.ofDigits ds * 10 + Decimal.digitValue c := by
      simp [Decimal.ofDigits]
    rw [hfold, List.length_append, List.length_singleton, pow_succ]
    omega

/-- A fraction of a second is below one second. -/
theorem fraction_lt {nanos : Nat} (h : fraction cs = some (nanos, rest)) : nanos < 1000000000 := by
  unfold fraction at h
  dsimp only at h
  split at h
  · cases h
  · cases h
    generalize hkept : (Decimal.spanDigits cs).1.take 9 = kept
    have hlength : kept.length ≤ 9 := by
      rw [← hkept]
      exact List.length_take_le _ _
    have hdigits : ∀ c ∈ kept, Decimal.isDigit c = true := by
      intro c hc
      rw [← hkept] at hc
      exact List.mem_takeWhile_imp (List.mem_of_mem_take hc)
    have hlt := ofDigits_lt hdigits
    calc Decimal.ofDigits kept * Nat.pow 10 (9 - kept.length)
        < 10 ^ kept.length * Nat.pow 10 (9 - kept.length) :=
          Nat.mul_lt_mul_of_pos_right hlt (Nat.pow_pos (by decide))
      _ = 10 ^ 9 := by
          show 10 ^ kept.length * 10 ^ (9 - kept.length) = 10 ^ 9
          rw [← pow_add, Nat.add_sub_cancel' hlength]

theorem optionalFraction_lt {nanos : Nat} (h : optionalFraction cs = some (nanos, rest)) :
    nanos < 1000000000 := by
  unfold optionalFraction at h
  split at h
  · exact fraction_lt h
  · cases h
    decide

/-- An offset is a count of whole minutes. -/
theorem offset_minutes {separator : List Char → Option (List Char)} {seconds : Int}
    (h : Time.offset separator cs = some (seconds, rest)) : seconds % 60 = 0 := by
  unfold Time.offset at h
  split at h
  · cases h
    rfl
  · cases h
    rfl
  · obtain ⟨⟨sign, _⟩, -, h⟩ := Option.bind_eq_some_iff.mp h
    obtain ⟨⟨hours, _⟩, -, h⟩ := Option.bind_eq_some_iff.mp h
    obtain ⟨_, -, h⟩ := Option.bind_eq_some_iff.mp h
    obtain ⟨⟨minutes, _⟩, -, h⟩ := Option.bind_eq_some_iff.mp h
    dsimp only at h
    split at h
    · cases h
      have hminutes : (hours : Int) * 3600 + minutes * 60 = 60 * (hours * 60 + minutes) := by ring
      rw [hminutes, mul_left_comm]
      exact Int.mul_emod_right _ _
    · cases h

theorem fixedClock_nanos (h : fixedClock cs = some (clock, rest)) : clock.nanos < 1000000000 := by
  unfold fixedClock at h
  obtain ⟨⟨hour, _⟩, -, h⟩ := Option.bind_eq_some_iff.mp h
  obtain ⟨_, -, h⟩ := Option.bind_eq_some_iff.mp h
  obtain ⟨⟨minute, _⟩, -, h⟩ := Option.bind_eq_some_iff.mp h
  obtain ⟨_, -, h⟩ := Option.bind_eq_some_iff.mp h
  obtain ⟨⟨second, _⟩, -, h⟩ := Option.bind_eq_some_iff.mp h
  obtain ⟨⟨nanos, _⟩, hfraction, h⟩ := Option.bind_eq_some_iff.mp h
  obtain ⟨c, hchecked, h⟩ := Option.bind_eq_some_iff.mp h
  cases h
  unfold checkedClock at hchecked
  split at hchecked
  · cases hchecked
    exact optionalFraction_lt hfraction
  · cases hchecked

theorem strict?_shown (h : strict? cs = some t) : t.Shown := by
  unfold strict? at h
  obtain ⟨⟨date, _⟩, -, h⟩ := Option.bind_eq_some_iff.mp h
  obtain ⟨_, -, h⟩ := Option.bind_eq_some_iff.mp h
  obtain ⟨⟨clock, _⟩, hclock, h⟩ := Option.bind_eq_some_iff.mp h
  obtain ⟨⟨seconds, _⟩, hoffset, h⟩ := Option.bind_eq_some_iff.mp h
  dsimp only at h
  split at h
  · exact ofParts?_shown (fixedClock_nanos hclock) (offset_minutes hoffset) h
  · cases h

theorem date?_shown (h : date? cs = some t) : t.Shown := by
  unfold date? at h
  obtain ⟨⟨date, _⟩, -, h⟩ := Option.bind_eq_some_iff.mp h
  dsimp only at h
  split at h
  · exact ofParts?_shown (by decide) (by decide) h
  · cases h

/-! ### Reading back -/

/-- The characters of a stored instant. -/
theorem toList_stored (t : Instant) :
    t.stored.toList = (yearText t.date.year).toList ++ '-' :: ((padded 2 t.date.month).toList ++
      '-' :: ((padded 2 t.date.day).toList ++ 'T' :: ((padded 2 t.clock.hour).toList ++
      ':' :: ((padded 2 t.clock.minute).toList ++ ':' :: ((padded 2 t.clock.second).toList ++
      '.' :: ((padded 3 (t.clock.nanos / 1000000)).toList ++ ['Z'])))))) := by
  unfold Instant.stored Instant.render Instant.date Instant.clock Fraction.text Offset.text
  simp

/-- A date that exists is read back from its digits. -/
theorem fixedDate_text (hvalid : date.valid = true) (hyear : Plain date.year) :
    fixedDate ((yearText date.year).toList ++ '-' :: ((padded 2 date.month).toList ++
      '-' :: ((padded 2 date.day).toList ++ rest))) = some (date, rest) := by
  obtain ⟨hmonth, hday⟩ : date.month < 10 ^ 2 ∧ date.day < 10 ^ 2 := by
    have hlength : daysInMonth date.year date.month ≤ 31 := by
      unfold daysInMonth
      split_ifs <;> decide
    simp only [Date.valid, Bool.and_eq_true, decide_eq_true_eq] at hvalid
    omega
  obtain ⟨hlow, hhigh⟩ := hyear
  have htext : yearText date.year = padded 4 date.year.toNat := by
    unfold yearText
    rw [if_pos (by simp [hlow, hhigh])]
  have hback : (date.year.toNat : Int) = date.year := Int.toNat_of_nonneg hlow
  unfold fixedDate checkedDate
  rw [htext, number_padded (by decide) (by omega)]
  simp only [Option.bind_eq_bind, Option.bind_some, char, if_true]
  rw [number_padded (by decide) hmonth]
  simp only [Option.bind_some, if_true]
  rw [number_padded (by decide) hday]
  simp only [Option.bind_some, hback, hvalid, if_true]

/-- A time of day is read back from its digits, with three of the fraction. -/
theorem fixedClock_text (hhour : clock.hour < 24) (hminute : clock.minute < 60)
    (hsecond : clock.second ≤ 60) (hnanos : clock.nanos < 1000000000) :
    fixedClock ((padded 2 clock.hour).toList ++ ':' :: ((padded 2 clock.minute).toList ++
      ':' :: ((padded 2 clock.second).toList ++ '.' ::
      ((padded 3 (clock.nanos / 1000000)).toList ++ ['Z'])))) =
      some ({ clock with nanos := clock.nanos / 1000000 * 1000000 }, ['Z']) := by
  have hrun := run_padded 3 (clock.nanos / 1000000)
  have hlength : (padded 3 (clock.nanos / 1000000)).toList.length = 3 :=
    length_padded (by decide) (by omega)
  have hstops : Stops ['Z'] := by
    intro c hc
    cases hc
    decide
  have hfraction : fraction ((padded 3 (clock.nanos / 1000000)).toList ++ ['Z']) =
      some (clock.nanos / 1000000 * 1000000, ['Z']) := by
    unfold fraction
    rw [spanDigits_run hrun.digits hstops]
    dsimp only
    rw [List.take_of_length_le (by omega), hlength, hrun.value, if_neg]
    intro hempty
    rw [List.isEmpty_iff.mp hempty] at hlength
    cases hlength
  unfold fixedClock checkedClock
  rw [number_padded (by decide) (by omega)]
  simp only [Option.bind_eq_bind, Option.bind_some, char, if_true]
  rw [number_padded (by decide) (by omega)]
  simp only [Option.bind_some, if_true]
  rw [number_padded (by decide) (by omega)]
  simp only [Option.bind_some, optionalFraction, hfraction]
  simp [hhour, hminute, hsecond]

/-- What is cut off is not written. -/
theorem stored_cut (t : Instant) : t.cut.stored = t.stored := by
  apply String.toList_inj.mp
  have hdate : t.cut.date = t.date := rfl
  have hleap : 1000000000 ≤ t.nanos / 1000000 * 1000000 ↔ 1000000000 ≤ t.nanos := by omega
  have hclock : t.cut.clock.hour = t.clock.hour ∧ t.cut.clock.minute = t.clock.minute ∧
      t.cut.clock.second = t.clock.second ∧
      t.cut.clock.nanos / 1000000 = t.clock.nanos / 1000000 := by
    refine ⟨rfl, rfl, ?_, ?_⟩
    · simp only [Instant.clock, Instant.cut, hleap]
    · simp only [Instant.clock, Instant.cut, hleap]
      split <;> omega
  obtain ⟨hhour, hminute, hsecond, hnanos⟩ := hclock
  rw [toList_stored, toList_stored, hdate, hhour, hminute, hsecond, hnanos]

/-- A date and a time of day in UTC make the instant that has them. -/
theorem ofParts?_clock (h : t.Shown) (hyear : minYear ≤ t.date.year ∧ t.date.year ≤ maxYear) :
    Instant.ofParts? t.date { t.clock with nanos := t.clock.nanos / 1000000 * 1000000 } 0 =
      some t.cut := by
  obtain ⟨hnanos, hleap⟩ := h
  have hdays : t.date.toDays = t.seconds / 86400 := toDays_ofDays _
  have hinYear : (minYear ≤ t.date.year && t.date.year ≤ maxYear) = true := by
    simp [hyear.1, hyear.2]
  have hseconds : ∀ second : Nat, second = (t.seconds % 86400).toNat % 60 →
      t.date.toDays * 86400 +
        ((t.clock.hour : Int) * 3600 + t.clock.minute * 60 + second) - 0 = t.seconds := by
    rintro second rfl
    simp only [hdays, Instant.clock]
    omega
  unfold Instant.ofParts?
  by_cases hlong : 1000000000 ≤ t.nanos
  · have hend : (t.seconds % 86400).toNat % 60 = 59 := by omega
    have hsecond : t.clock.second = 60 := by
      simp only [Instant.clock, if_pos hlong, hend]
    have hrest : t.clock.nanos / 1000000 * 1000000 + 1000000000 = t.cut.nanos := by
      simp only [Instant.clock, Instant.cut, if_pos hlong]
      omega
    dsimp only
    rw [if_pos hsecond]
    dsimp only
    rw [hseconds 59 hend.symm, hrest]
    exact if_pos hinYear
  · have hsecond : t.clock.second = (t.seconds % 86400).toNat % 60 := by
      simp only [Instant.clock, if_neg hlong, Nat.add_zero]
    have hrest : t.clock.nanos / 1000000 * 1000000 + 0 = t.cut.nanos := by
      simp only [Instant.clock, Instant.cut, if_neg hlong, Nat.add_zero]
    have hshort : ¬ t.clock.second = 60 := by omega
    dsimp only
    rw [if_neg hshort]
    dsimp only
    rw [hseconds _ hsecond, hrest]
    exact if_pos hinYear

/-- The text of an instant is read as that instant. -/
theorem strict?_stored (h : t.Shown) (hyear : Plain t.date.year) :
    strict? t.stored.toList = some t.cut := by
  obtain ⟨hlow, hhigh⟩ := hyear
  have hsupported : minYear ≤ t.date.year ∧ t.date.year ≤ maxYear := by
    unfold minYear maxYear
    omega
  have hvalid : t.date.valid = true := valid_ofDays hsupported.1 hsupported.2
  have hclock : t.clock.hour < 24 ∧ t.clock.minute < 60 ∧ t.clock.second ≤ 60 ∧
      t.clock.nanos < 1000000000 := by
    have hnanos := h.nanos
    refine ⟨?_, ?_, ?_, ?_⟩ <;> simp only [Instant.clock]
    · omega
    · omega
    · split <;> omega
    · split <;> omega
  obtain ⟨hhour, hminute, hsecond, hnanos⟩ := hclock
  rw [toList_stored]
  unfold strict?
  rw [fixedDate_text hvalid ⟨hlow, hhigh⟩]
  simp only [Option.bind_eq_bind, Option.bind_some, dateTimeMark, decide_true, Bool.true_or,
    if_true]
  rw [fixedClock_text hhour hminute hsecond hnanos]
  simp only [Option.bind_some, Time.offset, List.isEmpty_nil, if_true]
  exact ofParts?_clock h hsupported

/-! ### Years with a sign -/

/-- A year that is not plain is written with a sign in front. -/
theorem yearText_far {year : Int} (h : ¬ Plain year) :
    ∃ sign, (sign = '-' ∨ sign = '+') ∧
      (yearText year).toList = sign :: (padded 4 year.natAbs).toList := by
  unfold yearText
  have hplain : ¬ (decide (0 ≤ year) && decide (year ≤ 9999)) = true := by simpa [Plain] using h
  rw [if_neg hplain]
  by_cases hnegative : year < 0
  · exact ⟨'-', .inl rfl, by simp [hnegative]⟩
  · exact ⟨'+', .inr rfl, by simp [hnegative]⟩

theorem stops_cons {c : Char} (h : Decimal.isDigit c = false) (rest : List Char) :
    Stops (c :: rest) := by
  intro d hd
  cases hd
  exact h

/-- RFC 3339 has no sign before the year. -/
theorem strict?_far (h : ¬ Plain t.date.year) : strict? t.stored.toList = none := by
  obtain ⟨sign, hsign, htext⟩ := yearText_far h
  have hdigit : Decimal.isDigit sign = false := by
    rcases hsign with rfl | rfl <;> decide
  rw [toList_stored, htext]
  unfold strict? fixedDate
  rw [List.cons_append, number_none (by decide) (stops_cons hdigit _)]
  rfl

/-- A number of two digits is read loosely, too. -/
theorem looseTwo_padded (hn : n < 100) :
    looseTwo ((padded 2 n).toList ++ rest) = some (n, rest) := by
  have hlength : (padded 2 n).toList.length = 2 := length_padded (by decide) hn
  have hrun := run_padded 2 n
  unfold looseTwo
  rw [Text.trimStart_eq_self]
  · exact number_run hrun (by omega) (by omega) (.inl hlength)
  · -- it opens with a digit
    intro c hc
    cases htext : (padded 2 n).toList with
    | nil => simp [htext] at hlength
    | cons d ds =>
      rw [htext, List.cons_append, List.head?_cons, Option.some.injEq] at hc
      subst hc
      have hd := hrun.digits d (by rw [htext]; exact List.mem_cons_self)
      exact isBlank_of_isMark (by unfold isMark; rw [isDigit_iff.mp hd]; rfl)

/-- After a date with a sign before its year there is more than a bare date. -/
theorem date?_far (h : ¬ Plain t.date.year) : date? t.stored.toList = none := by
  obtain ⟨sign, hsign, htext⟩ := yearText_far h
  obtain ⟨⟨-, hmonth⟩, -, hday⟩ := ofDays_bounds (t.seconds / 86400)
  have hlength : daysInMonth t.date.year t.date.month ≤ 31 := by
    unfold daysInMonth
    split_ifs <;> decide
  have hyear : ∀ rest, ∃ year : Int, looseYear (sign :: ((padded 4 t.date.year.natAbs).toList ++
      '-' :: rest)) = some (year, '-' :: rest) := by
    intro rest
    have hblank : Text.isBlank sign = false := by
      rcases hsign with rfl | rfl <;> decide
    have hnumber := @number_run (padded 4 t.date.year.natAbs).toList ('-' :: rest) _ 1
      ((padded 4 t.date.year.natAbs).toList ++ '-' :: rest).length (run_padded 4 _)
      (length_padded_pos _ _) (by simp) (.inr (stops_cons (by decide) _))
    unfold looseYear
    rw [Text.trimStart_eq_self (by simpa using hblank)]
    rcases hsign with rfl | rfl
    · exact ⟨_, by simp only [hnumber]; rfl⟩
    · exact ⟨_, by simp only [hnumber]; rfl⟩
  obtain ⟨clock, hclock⟩ : ∃ clock, t.stored.toList =
      sign :: ((padded 4 t.date.year.natAbs).toList ++ '-' :: ((padded 2 t.date.month).toList ++
        '-' :: ((padded 2 t.date.day).toList ++ 'T' :: clock))) :=
    ⟨_, by rw [toList_stored, htext, List.cons_append]⟩
  obtain ⟨year, hread⟩ := hyear ((padded 2 t.date.month).toList ++ '-' ::
    ((padded 2 t.date.day).toList ++ 'T' :: clock))
  unfold date? looseDate
  rw [hclock, hread]
  simp only [Option.bind_eq_bind, Option.bind_some, id_eq, char, if_true]
  rw [looseTwo_padded (show t.date.month < 100 from by unfold Instant.date; omega)]
  simp only [Option.bind_some, if_true]
  rw [looseTwo_padded (show t.date.day < 100 from by unfold Instant.date at hlength ⊢; omega)]
  cases hchecked : checkedDate year t.date.month t.date.day <;> simp [hchecked]

end RecordGate.Time

import Mathlib.Tactic.IntervalCases
import RecordGate.Time.Instant

/-! # Day numbers and dates

  Every day number is that of the date made from it, and this date exists.

  **Key idea.** An era is four centuries, a century 25 cycles of four years,
  and a cycle four years, where the last of each kind may be a day longer or
  shorter (`EraDay`). Placed like this, the divisions by which a date is made
  from a day number come out as the count of full years (`yearOfEra_eq`).

  - `toDays_ofDays`: the day number of the date of a day number is that number.
  - `ofDays_bounds`, `valid_ofDays`: the date exists.
-/

namespace RecordGate.Time

/-- The place of a day in its era. -/
structure EraDay (dayOfEra : Int) where
  /-- The full centuries before it. -/
  century : Int
  /-- The full cycles of four years since. -/
  cycle : Int
  /-- The full years since. -/
  year : Int
  /-- The days since. -/
  day : Int
  century_range : 0 ≤ century ∧ century ≤ 3
  cycle_range : 0 ≤ cycle ∧ cycle ≤ 24
  year_range : 0 ≤ year ∧ year ≤ 3
  day_range : 0 ≤ day ∧ day ≤ 365
  /-- A year has a last day of its own at the end of a cycle, but at the end of a
      century only if that ends the era. -/
  leap : day = 365 → year = 3 ∧ (cycle = 24 → century = 3)
  sum : dayOfEra = 36524 * century + 1461 * cycle + 365 * year + day

variable {days : Int}

/-- Every day of an era has a place. -/
theorem exists_eraDay {dayOfEra : Int} (hfirst : 0 ≤ dayOfEra) (hlast : dayOfEra < 146097) :
    Nonempty (EraDay dayOfEra) := by
  obtain ⟨c, hc, hc'⟩ : ∃ c, (0 ≤ c ∧ c ≤ 3) ∧ 36524 * c ≤ dayOfEra ∧
      (dayOfEra < 36524 * (c + 1) ∨ c = 3) :=
    ⟨min (dayOfEra / 36524) 3, by omega, by omega⟩
  obtain ⟨q, hq, hq'⟩ : ∃ q, (0 ≤ q ∧ q ≤ 24) ∧ 36524 * c + 1461 * q ≤ dayOfEra ∧
      dayOfEra < 36524 * c + 1461 * (q + 1) :=
    ⟨(dayOfEra - 36524 * c) / 1461, by omega, by omega⟩
  obtain ⟨y, hy, hy'⟩ : ∃ y, (0 ≤ y ∧ y ≤ 3) ∧ 36524 * c + 1461 * q + 365 * y ≤ dayOfEra ∧
      (dayOfEra < 36524 * c + 1461 * q + 365 * (y + 1) ∨ y = 3) :=
    ⟨min ((dayOfEra - 36524 * c - 1461 * q) / 365) 3, by omega, by omega⟩
  exact ⟨⟨c, q, y, dayOfEra - (36524 * c + 1461 * q + 365 * y), hc, hq, hy, by omega, by omega,
    by omega⟩⟩

/-- The day of an era in the era of a day number. -/
theorem eraDay (days : Int) : Nonempty (EraDay ((days + 719468) % 146097)) :=
  exists_eraDay (by omega) (by omega)

/-- The corrections for leap days leave the full years of the era. -/
theorem yearOfEra_eq {d : Int} (h : EraDay d) :
    (d - d / 1460 + d / 36524 - d / 146096) / 365 = 100 * h.century + 4 * h.cycle + h.year := by
  obtain ⟨c, q, y, k, hc, hq, hy, hk, hleap, hd⟩ := h
  dsimp only
  -- only the last day of the era is in a fifth century or in another era
  have hera : d / 146096 = if d = 146096 then 1 else 0 := by split <;> omega
  have hcentury : d / 36524 = if d = 146096 then 4 else c := by split <;> omega
  have hcycle : d / 1460 = 25 * c + q + (if 1460 ≤ 24 * c + q + 365 * y + k then 1 else 0) := by
    split <;> omega
  rw [hera, hcentury, hcycle]
  split <;> split <;> omega

/-- The date of a day, from its place in its era; months are counted from
    March. -/
theorem ofDays_eq (h : EraDay ((days + 719468) % 146097)) :
    Date.ofDays days =
      let month := (5 * h.day + 2) / 153
      let civil := if month < 10 then month + 3 else month - 9
      ⟨100 * h.century + 4 * h.cycle + h.year + (days + 719468) / 146097 * 400 +
          (if civil ≤ 2 then 1 else 0),
        civil.toNat, (h.day - (153 * month + 2) / 5 + 1).toNat⟩ := by
  have hcentury := h.century_range
  have hcycle := h.cycle_range
  have hyear := h.year_range
  have hday : (days + 719468) % 146097 - (365 * (100 * h.century + 4 * h.cycle + h.year) +
      (100 * h.century + 4 * h.cycle + h.year) / 4 -
      (100 * h.century + 4 * h.cycle + h.year) / 100) = h.day := by
    have hsum := h.sum
    omega
  unfold Date.ofDays
  dsimp only
  rw [yearOfEra_eq h, hday]

/-- The day number of a date, from its year and its month counted from March. -/
theorem toDays_eq {d : Date} {year : Int} (era month : Int) (hyear : 0 ≤ year ∧ year < 400)
    (hdate : (if d.month ≤ 2 then d.year - 1 else d.year) = year + era * 400)
    (hmonth : ((d.month : Int) + 9) % 12 = month) :
    d.toDays = era * 146097 +
      (year * 365 + year / 4 - year / 100 + ((153 * month + 2) / 5 + d.day - 1)) - 719468 := by
  have hera : (year + era * 400) / 400 = era := by omega
  have hyearOfEra : (year + era * 400) % 400 = year := by omega
  unfold Date.toDays
  rw [hdate, hmonth]
  dsimp only
  rw [hera, hyearOfEra]

/-- The day number of the date of a day number is that number. -/
theorem toDays_ofDays (days : Int) : (Date.ofDays days).toDays = days := by
  obtain ⟨h⟩ := eraDay days
  have hcentury := h.century_range
  have hcycle := h.cycle_range
  have hyear := h.year_range
  have hday := h.day_range
  have hsum := h.sum
  -- which month of the year it is, and how far into it
  have hmonth : 0 ≤ (5 * h.day + 2) / 153 ∧ (5 * h.day + 2) / 153 ≤ 11 := by omega
  have hinto : (153 * ((5 * h.day + 2) / 153) + 2) / 5 ≤ h.day := by omega
  rw [ofDays_eq h]
  dsimp only
  generalize (5 * h.day + 2) / 153 = month at hmonth hinto ⊢
  generalize hyearOfEra : 100 * h.century + 4 * h.cycle + h.year = year
  have hrange : 0 ≤ year ∧ year < 400 := by omega
  have hfourth : year / 4 = 25 * h.century + h.cycle := by omega
  have hhundredth : year / 100 = h.century := by omega
  rw [toDays_eq ((days + 719468) / 146097) month hrange]
  · rw [hfourth, hhundredth]
    dsimp only
    omega
  · dsimp only
    split <;> split <;> split <;> omega
  · dsimp only
    split <;> omega

/-! ### Dates that exist -/

/-- If a year counted from March has a 366th day, the year in which it ends is a
    leap year. -/
theorem isLeap_of_day {d : Int} (h : EraDay d) (hday : h.day = 365) (era : Int) :
    isLeap (100 * h.century + 4 * h.cycle + h.year + era * 400 + 1) = true := by
  obtain ⟨hyear, hcentury⟩ := h.leap hday
  have hcycle := h.cycle_range
  have hrange := h.century_range
  rw [hyear]
  unfold isLeap
  simp only [Bool.and_eq_true, Bool.or_eq_true, decide_eq_true_eq]
  omega

theorem le_daysInMonth_february (year : Int) : 28 ≤ daysInMonth year 2 := by
  cases hleap : isLeap year <;> simp [daysInMonth, hleap]

/-- The date of a day number has a month of the year and a day of this month. -/
theorem ofDays_bounds (days : Int) :
    (1 ≤ (Date.ofDays days).month ∧ (Date.ofDays days).month ≤ 12) ∧
    1 ≤ (Date.ofDays days).day ∧
    (Date.ofDays days).day ≤ daysInMonth (Date.ofDays days).year (Date.ofDays days).month := by
  obtain ⟨h⟩ := eraDay days
  have hday := h.day_range
  have hleap := isLeap_of_day h
  rw [ofDays_eq h]
  dsimp only
  have hmonth : 0 ≤ (5 * h.day + 2) / 153 ∧ (5 * h.day + 2) / 153 ≤ 11 := by omega
  have hinto : 153 * ((5 * h.day + 2) / 153) ≤ 5 * h.day + 2 ∧
      5 * h.day + 2 < 153 * ((5 * h.day + 2) / 153) + 153 := by omega
  generalize (5 * h.day + 2) / 153 = month at hmonth hinto ⊢
  refine ⟨by split <;> omega, by omega, ?_⟩
  by_cases hfebruary : month = 11
  · subst hfebruary
    by_cases hend : h.day = 365
    · simp [daysInMonth, hleap hend, hend]
    · exact le_trans (by omega) (le_daysInMonth_february _)
  · obtain ⟨hfirst, hlast⟩ : 0 ≤ month ∧ month ≤ 10 := by omega
    interval_cases month <;> simp [daysInMonth] <;> omega

/-- A date with a year that is supported exists. -/
theorem valid_ofDays (hmin : minYear ≤ (Date.ofDays days).year)
    (hmax : (Date.ofDays days).year ≤ maxYear) : (Date.ofDays days).valid = true := by
  obtain ⟨⟨hfirst, hlast⟩, hday, hlength⟩ := ofDays_bounds days
  simp [Date.valid, hmin, hmax, hfirst, hlast, hday, hlength]

end RecordGate.Time

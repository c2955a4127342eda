import Mathlib.Algebra.Order.Field.Power
import Mathlib.Algebra.Order.Floor.Semiring
import Mathlib.Data.Rat.Cast.Order
import Mathlib.Tactic.Linarith
import Mathlib.Tactic.NormNum
import Mathlib.Tactic.Positivity
import Mathlib.Tactic.Ring
import RecordGate.Decimal.Shortest

/-! # The size of shortest decimals

  The shortest decimal of a double has few digits and is not above the double by
  more than half a unit of its last place.

  **Key idea.** The power of ten of the leading digit is known (`leading_le`,
  `lt_leading`), so on the grid with `count` further digits the double has one
  neighbour on either side below `10^(count+1)`. What `Binary.covers` accepts is not
  above the interval.

  - `search_bounds`: what the search returns on any grid.
  - `shortest_bounds`: the same without trailing zeros.
-/

namespace RecordGate.Decimal

variable {n : Nat}

/-! ### Fractions -/

/-- The number that a fraction stands for. -/
def Ratio.value (r : Ratio) : ℚ :=
  r.num / r.den

/-- The denominator is positive. -/
def Ratio.Proper (r : Ratio) : Prop :=
  0 < r.den

namespace Ratio

variable {r : Ratio}

theorem proper_ofBinary (n : Nat) (e : Int) : (ofBinary n e).Proper := by
  unfold ofBinary Proper
  split
  · exact Nat.one_pos
  · exact Nat.two_pow_pos _

theorem value_ofBinary (n : Nat) (e : Int) : (ofBinary n e).value = n * 2 ^ e := by
  unfold ofBinary value
  by_cases he : 0 ≤ e
  · obtain ⟨k, rfl⟩ := Int.eq_ofNat_of_zero_le he
    rw [if_pos he]
    simp
  · obtain ⟨k, hk⟩ := Int.eq_ofNat_of_zero_le (show 0 ≤ -e by omega)
    obtain rfl : e = -(k : Int) := by omega
    rw [if_neg he]
    simp [zpow_neg, div_eq_mul_inv]

theorem Proper.shift (h : r.Proper) (e : Int) : (r.shift e).Proper := by
  unfold Ratio.shift Proper
  split
  · exact Nat.mul_pos h (Nat.pow_pos (by decide))
  · exact h

theorem value_shift (r : Ratio) (e : Int) : (r.shift e).value = r.value / 10 ^ e := by
  unfold Ratio.shift value
  by_cases he : 0 ≤ e
  · obtain ⟨k, rfl⟩ := Int.eq_ofNat_of_zero_le he
    rw [if_pos he]
    simp [div_div]
  · obtain ⟨k, hk⟩ := Int.eq_ofNat_of_zero_le (show 0 ≤ -e by omega)
    obtain rfl : e = -(k : Int) := by omega
    rw [if_neg he]
    simp [zpow_neg, div_eq_mul_inv, mul_right_comm]

/-- A whole number that is not above a fraction. -/
theorem le_value (h : r.Proper) {n : Nat} : (n : ℚ) ≤ r.value ↔ n * r.den ≤ r.num := by
  have hden : (0 : ℚ) < r.den := by exact_mod_cast h
  unfold value
  rw [le_div_iff₀ hden]
  exact_mod_cast Iff.rfl

/-- The whole part of a fraction is not above it. -/
theorem floor_le (h : r.Proper) : ((r.num / r.den : Nat) : ℚ) ≤ r.value :=
  (le_value h).mpr (Nat.div_mul_le_self _ _)

end Ratio

/-! ### The leading digit -/

theorem lt_ten_pow_digitCount (n : Nat) : n < 10 ^ digitCount n := by
  have hpos : 0 < digitCount n := List.length_pos_iff.mpr Nat.toDigits_ne_nil
  exact (Nat.length_toDigits_le_iff (by decide) hpos).mp (le_refl _)

theorem ten_pow_digitCount_le (hn : 0 < n) : 10 ^ (digitCount n - 1) ≤ n := by
  by_cases hone : digitCount n ≤ 1
  · rw [show digitCount n - 1 = 0 by omega]
    exact hn
  · by_contra hlt
    have hshort : digitCount n ≤ digitCount n - 1 :=
      (Nat.length_toDigits_le_iff (by decide) (by omega)).mpr (not_le.mp hlt)
    omega

namespace Ratio

variable {r : Ratio}

theorem ten_zpow_pos (e : Int) : (0 : ℚ) < 10 ^ e :=
  zpow_pos (by norm_num) e

/-- The lengths of the numerator and the denominator bound a fraction. -/
theorem value_bounds (h : r.Proper) (hpos : 0 < r.num) :
    (10 : ℚ) ^ ((digitCount r.num : Int) - digitCount r.den - 1) ≤ r.value ∧
      r.value < 10 ^ ((digitCount r.num : Int) - digitCount r.den + 1) := by
  have hden : (0 : ℚ) < r.den := by exact_mod_cast h
  have hcount : 0 < digitCount r.num := List.length_pos_iff.mpr Nat.toDigits_ne_nil
  have hcount' : 0 < digitCount r.den := List.length_pos_iff.mpr Nat.toDigits_ne_nil
  have hnum : (10 : ℚ) ^ ((digitCount r.num : Int) - 1) ≤ r.num := by
    rw [show (digitCount r.num : Int) - 1 = ((digitCount r.num - 1 : Nat) : Int) by omega,
      zpow_natCast]
    exact_mod_cast ten_pow_digitCount_le hpos
  have hnum' : (r.num : ℚ) < 10 ^ (digitCount r.num : Int) := by
    rw [zpow_natCast]
    exact_mod_cast lt_ten_pow_digitCount r.num
  have hdenominator : (r.den : ℚ) ≤ 10 ^ (digitCount r.den : Int) := by
    rw [zpow_natCast]
    exact_mod_cast (lt_ten_pow_digitCount r.den).le
  have hdenominator' : (10 : ℚ) ^ ((digitCount r.den : Int) - 1) ≤ r.den := by
    rw [show (digitCount r.den : Int) - 1 = ((digitCount r.den - 1 : Nat) : Int) by omega,
      zpow_natCast]
    exact_mod_cast ten_pow_digitCount_le h
  unfold value
  constructor
  · rw [le_div_iff₀ hden]
    calc (10 : ℚ) ^ ((digitCount r.num : Int) - digitCount r.den - 1) * r.den
        ≤ 10 ^ ((digitCount r.num : Int) - digitCount r.den - 1) * 10 ^ (digitCount r.den : Int) :=
          mul_le_mul_of_nonneg_left hdenominator (ten_zpow_pos _).le
      _ = 10 ^ ((digitCount r.num : Int) - 1) := by
          rw [← zpow_add₀ (by norm_num)]
          congr 1
          omega
      _ ≤ r.num := hnum
  · rw [div_lt_iff₀ hden]
    calc (r.num : ℚ) < 10 ^ (digitCount r.num : Int) := hnum'
      _ = 10 ^ ((digitCount r.num : Int) - digitCount r.den + 1) *
          10 ^ ((digitCount r.den : Int) - 1) := by
          rw [← zpow_add₀ (by norm_num)]
          congr 1
          omega
      _ ≤ 10 ^ ((digitCount r.num : Int) - digitCount r.den + 1) * r.den :=
          mul_le_mul_of_nonneg_left hdenominator' (ten_zpow_pos _).le

/-- The leading digit of a fraction has this power of ten. -/
theorem leading_bounds (h : r.Proper) (hpos : 0 < r.num) :
    (10 : ℚ) ^ r.leading ≤ r.value ∧ r.value < 10 ^ (r.leading + 1) := by
  obtain ⟨hlow, hhigh⟩ := value_bounds h hpos
  generalize hguess : (digitCount r.num : Int) - digitCount r.den = guess at hlow hhigh
  have hscaled := h.shift guess
  -- the guess is right exactly if what is scaled by it is one at least
  have hone : (r.shift guess).num < (r.shift guess).den ↔ r.value < 10 ^ guess := by
    have hle := le_value hscaled (n := 1)
    rw [Nat.one_mul, value_shift, Nat.cast_one, le_div_iff₀ (ten_zpow_pos _), one_mul] at hle
    rw [← not_le, ← not_le, hle]
  unfold leading
  dsimp only
  rw [hguess]
  split
  next hlt =>
    rw [sub_add_cancel]
    exact ⟨hlow, hone.mp hlt⟩
  next hle => exact ⟨not_lt.mp (hone.not.mp hle), hhigh⟩

end Ratio

/-! ### The search -/

namespace Binary

variable {b : Binary}

/-- The number that a double stands for. -/
def value (b : Binary) : ℚ :=
  b.mantissa * 2 ^ b.exponent

/-- The upper end of the numbers that round to a double. -/
def upper (b : Binary) : ℚ :=
  (2 * b.mantissa + 1) * 2 ^ (b.exponent - 1)

theorem value_le_upper (b : Binary) : b.value ≤ b.upper := by
  have hpos : (0 : ℚ) < 2 ^ (b.exponent - 1) := zpow_pos (by norm_num) _
  unfold value upper
  rw [show b.exponent = b.exponent - 1 + 1 by omega, zpow_add_one₀ (by norm_num),
    show b.exponent - 1 + 1 - 1 = b.exponent - 1 by omega]
  linarith

/-- What rounds to a double is not above the upper end. -/
theorem le_upper_of_covers {n : Nat} {e : Int} (h : b.covers n e = true) :
    (n : ℚ) * 10 ^ e ≤ b.upper := by
  have hproper : (Ratio.ofBinary (2 * b.mantissa + 1) (b.exponent - 1)).Proper :=
    Ratio.proper_ofBinary _ _
  have hupper : b.bounds.2 = Ratio.ofBinary (2 * b.mantissa + 1) (b.exponent - 1) := by
    unfold bounds
    dsimp only
    split <;> rfl
  have hle : n * (b.bounds.2.shift e).den ≤ (b.bounds.2.shift e).num := by
    unfold covers at h
    dsimp only at h
    split at h
    · simp only [Bool.and_eq_true, Bool.not_eq_true', Ratio.ltNat, decide_eq_false_iff_not] at h
      exact not_lt.mp h.2
    · simp only [Bool.and_eq_true, Ratio.gtNat, decide_eq_true_eq] at h
      exact h.2.le
  rw [hupper] at hle
  have hvalue := (Ratio.le_value (hproper.shift e)).mpr hle
  rw [Ratio.value_shift, Ratio.value_ofBinary, le_div_iff₀ (Ratio.ten_zpow_pos e)] at hvalue
  unfold upper
  exact_mod_cast hvalue

/-- A neighbour of a double on a grid. -/
theorem onGrid_bounds {n : Nat} {e : Int} (h : b.onGrid e = some n) :
    (n : ℚ) * 10 ^ e ≤ b.upper ∧ (n : ℚ) ≤ b.value / 10 ^ e + 1 := by
  have hproper := (Ratio.proper_ofBinary b.mantissa b.exponent).shift e
  have hfloor := Ratio.floor_le hproper
  rw [Ratio.value_shift, Ratio.value_ofBinary] at hfloor
  change _ ≤ b.value / 10 ^ e at hfloor
  unfold onGrid at h
  dsimp only at h
  generalize ((Ratio.ofBinary b.mantissa b.exponent).shift e) = r at h hfloor
  have hbelow : ∀ {n : Nat}, b.covers n e = true → n = r.num / r.den →
      (n : ℚ) * 10 ^ e ≤ b.upper ∧ (n : ℚ) ≤ b.value / 10 ^ e + 1 := by
    intro n hcovers hn
    subst hn
    exact ⟨le_upper_of_covers hcovers, by linarith⟩
  have habove : ∀ {n : Nat}, b.covers n e = true → n = r.num / r.den + 1 →
      (n : ℚ) * 10 ^ e ≤ b.upper ∧ (n : ℚ) ≤ b.value / 10 ^ e + 1 := by
    intro n hcovers hn
    subst hn
    refine ⟨le_upper_of_covers hcovers, ?_⟩
    push_cast
    linarith
  split at h
  next hlow hhigh =>
    cases h
    exact hbelow hlow rfl
  next hlow hhigh =>
    cases h
    exact habove hhigh rfl
  next => cases h
  next hlow hhigh =>
    split at h
    · cases h
      exact hbelow hlow rfl
    · split at h
      · cases h
        exact habove hhigh rfl
      · split at h
        · cases h
          exact hbelow hlow rfl
        · cases h
          exact habove hhigh rfl

/-- What the search returns is positive, has few digits and is not above the upper
    end. -/
theorem search_bounds {leading : Int} (hlow : (10 : ℚ) ^ leading ≤ b.value)
    (hhigh : b.value < 10 ^ (leading + 1)) (fuel count : Nat) :
    0 < (b.search leading fuel count).digits ∧
      (b.search leading fuel count).digits ≤ 10 ^ (count + fuel + 1) ∧
      ((b.search leading fuel count).digits : ℚ) * 10 ^ (b.search leading fuel count).exponent ≤
        b.upper := by
  -- the double has `count + 1` digits before the point of the grid
  have hscaled : ∀ count : Nat, b.value / 10 ^ (leading - count) < 10 ^ (count + 1) := by
    intro count
    rw [div_lt_iff₀ (Ratio.ten_zpow_pos _), ← zpow_natCast, ← zpow_add₀ (by norm_num),
      show ((count + 1 : Nat) : Int) + (leading - count) = leading + 1 by push_cast; omega]
    exact hhigh
  induction fuel generalizing count with
  | zero =>
    have hproper := (Ratio.proper_ofBinary b.mantissa b.exponent).shift (leading - count)
    have hfloor := Ratio.floor_le hproper
    have hvalue : ((Ratio.ofBinary b.mantissa b.exponent).shift (leading - count)).value =
        b.value / 10 ^ (leading - count) := by
      rw [Ratio.value_shift, Ratio.value_ofBinary]
      rfl
    have hone : 1 * ((Ratio.ofBinary b.mantissa b.exponent).shift (leading - count)).den ≤
        ((Ratio.ofBinary b.mantissa b.exponent).shift (leading - count)).num := by
      rw [← Ratio.le_value hproper, hvalue, le_div_iff₀ (Ratio.ten_zpow_pos _)]
      have hgrid : (10 : ℚ) ^ (leading - count) ≤ 10 ^ leading :=
        zpow_le_zpow_right₀ (by norm_num) (by omega)
      push_cast
      linarith
    unfold search
    dsimp only
    rw [hvalue] at hfloor
    refine ⟨Nat.div_pos (by simpa using hone) hproper, ?_, ?_⟩
    · have hlt := lt_of_le_of_lt hfloor (hscaled count)
      exact_mod_cast hlt.le
    · rw [le_div_iff₀ (Ratio.ten_zpow_pos _)] at hfloor
      exact hfloor.trans b.value_le_upper
  | succ fuel ih =>
    have hnext := ih (count + 1)
    rw [show count + 1 + fuel + 1 = count + (fuel + 1) + 1 by omega] at hnext
    unfold search
    dsimp only
    split
    next n hgrid =>
      split
      · exact hnext
      next hzero =>
        obtain ⟨hupper, hle⟩ := onGrid_bounds hgrid
        refine ⟨Nat.pos_of_ne_zero hzero, ?_, hupper⟩
        have hlt : (n : ℚ) < 10 ^ (count + 1) + 1 := by linarith [hscaled count]
        have hle : n ≤ 10 ^ (count + 1) := by
          have : n < 10 ^ (count + 1) + 1 := by exact_mod_cast hlt
          omega
        exact hle.trans (Nat.pow_le_pow_right (by decide) (by omega))
    next => exact hnext

end Binary

/-- Trailing zeros do not matter for the bounds. -/
theorem strip_bounds (fuel : Nat) (d : Digits) (hpos : 0 < d.digits) :
    0 < (d.strip fuel).digits ∧ (d.strip fuel).digits ≤ d.digits ∧
      ((d.strip fuel).digits : ℚ) * 10 ^ (d.strip fuel).exponent = d.digits * 10 ^ d.exponent := by
  induction fuel generalizing d with
  | zero => exact ⟨hpos, le_refl _, rfl⟩
  | succ fuel ih =>
    unfold Digits.strip
    split
    next hzeros =>
      simp only [Bool.and_eq_true, decide_eq_true_eq] at hzeros
      obtain ⟨k, hk⟩ := Nat.dvd_of_mod_eq_zero hzeros.2
      have hdiv : d.digits / 10 = k := by omega
      obtain ⟨hpositive, hle, hvalue⟩ := ih ⟨d.digits / 10, d.exponent + 1⟩ (by dsimp only; omega)
      refine ⟨hpositive, ?_, ?_⟩
      · dsimp only at hle
        omega
      · rw [hvalue]
        dsimp only
        rw [hdiv, hk, zpow_add_one₀ (by norm_num)]
        push_cast
        ring
    next => exact ⟨hpos, le_refl _, rfl⟩

/-- The shortest decimal of a positive double has at most 18 digits or is `10^18`, and
    is not above what rounds to the double. -/
theorem shortest_bounds {bits : UInt64} (hpos : 0 < (Binary.ofBits bits).mantissa) :
    0 < (shortest bits).digits ∧ (shortest bits).digits ≤ 10 ^ 18 ∧
      ((shortest bits).digits : ℚ) * 10 ^ (shortest bits).exponent ≤
        (Binary.ofBits bits).upper := by
  generalize hb : Binary.ofBits bits = b at hpos
  have hproper := Ratio.proper_ofBinary b.mantissa b.exponent
  have hvalue : (Ratio.ofBinary b.mantissa b.exponent).value = b.value :=
    Ratio.value_ofBinary _ _
  have hnum : 0 < (Ratio.ofBinary b.mantissa b.exponent).num := by
    unfold Ratio.ofBinary
    split
    · exact Nat.mul_pos hpos (Nat.two_pow_pos _)
    · exact hpos
  obtain ⟨hlow, hhigh⟩ := Ratio.leading_bounds hproper hnum
  rw [hvalue] at hlow hhigh
  obtain ⟨hpositive, hdigits, hupper⟩ := Binary.search_bounds hlow hhigh 17 0
  obtain ⟨hpositive', hdigits', hvalue'⟩ := strip_bounds 400 _ hpositive
  unfold shortest
  dsimp only
  rw [hb]
  refine ⟨hpositive', hdigits'.trans hdigits, ?_⟩
  rw [hvalue']
  exact hupper

end RecordGate.Decimal

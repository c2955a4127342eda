import Mathlib.Algebra.Order.Field.Power
import Mathlib.Data.Rat.Cast.Order
import Mathlib.Tactic.Linarith
import Mathlib.Tactic.NormNum
import Mathlib.Tactic.Positivity
import Mathlib.Tactic.Ring

/-! # Rounding to a double

  A double is a mantissa of 53 bits times a power of two. Rounding shifts a longer
  mantissa to 53 bits, and what is shifted out adds one to it at most.

  **Key idea.** All bounds are within one unit of the last place, so it does not
  matter which of its two neighbours a number is rounded to (`round_eq`). What was
  rounded and stays below `2^1024` is in the bits as it is (`unpack_pack`).

  - `Spans`: a double between one and a bound; products and whole numbers keep to
    this as long as the bound is below `2^1024`.
  - `Within`: a finite double up to a bound; so do quotients.
-/

open Float.Model Float.Model.UnpackedFloat

namespace RecordGate.Double

/-! ### Shifting and rounding -/

/-- Shifting divides the mantissa, whatever becomes of the bits behind it. -/
theorem mantissa_shiftRight (em : ExtendedMantissa) (count : Nat) :
    (em >>> count).mantissa = em.mantissa / 2 ^ count := by
  induction count generalizing em with
  | zero => simp [HShiftRight.hShiftRight, Nat.repeat]
  | succ count ih =>
    change (em >>> count).mantissa / 2 = em.mantissa / 2 ^ (count + 1)
    rw [ih, Nat.div_div_eq_div_mul, Nat.pow_succ]

/-- The bits behind the mantissa add one to it, or nothing. -/
theorem roundedMantissa_eq (em : ExtendedMantissa) :
    em.roundedMantissa = em.mantissa ∨ em.roundedMantissa = em.mantissa + 1 := by
  obtain ⟨mantissa, round, sticky⟩ := em
  unfold ExtendedMantissa.roundedMantissa
  cases round with
  | false =>
    left
    cases sticky <;> rfl
  | true =>
    cases sticky with
    | true => exact .inr rfl
    | false =>
      -- a tie goes to the even one
      show mantissa + mantissa % 2 = mantissa ∨ mantissa + mantissa % 2 = mantissa + 1
      omega

variable {m n : Nat} {e : Int} {accuracy : Accuracy} {s : Sign}

/-- The exponent of the last place of a double. -/
def place (m : Nat) (e : Int) : Int :=
  max ((m.log2 : Int) + e - 52) (-1074)

theorem targetExponent_eq (m : Nat) (e : Int) :
    Format.binary64.targetExponent (totalExponent m e) = place m e := by
  show max ((m.log2 : Int) + 1 + e - 53) (-1074) = max ((m.log2 : Int) + e - 52) (-1074)
  omega

theorem mantissa_ofAccuracy (m : Nat) (accuracy : Accuracy) :
    (ExtendedMantissa.ofMantissaAndAccuracy m accuracy).mantissa = m := by
  cases accuracy with
  | exact => rfl
  | inexact side => cases side <;> rfl

/-- A mantissa is shifted to the last place. -/
theorem shift_eq (h : e ≤ place m e) (accuracy : Accuracy) :
    ∃ em, shiftToTargetExponent Format.binary64 m e accuracy = (em, place m e) ∧
      em.mantissa = m / 2 ^ (place m e - e).toNat := by
  refine ⟨ExtendedMantissa.ofMantissaAndAccuracy m accuracy >>> (place m e - e).toNat, ?_, ?_⟩
  · unfold shiftToTargetExponent shiftToExponent
    dsimp only
    rw [targetExponent_eq]
    congr 1
    omega
  · rw [mantissa_shiftRight, mantissa_ofAccuracy]

/-- What is shifted is below `2^53`. -/
theorem shifted_lt (h : e ≤ place m e) : m / 2 ^ (place m e - e).toNat < 2 ^ 53 := by
  rw [Nat.div_lt_iff_lt_mul (Nat.two_pow_pos _), ← Nat.pow_add]
  have hwidth : m.log2 + 1 ≤ 53 + (place m e - e).toNat := by
    unfold place at h ⊢
    omega
  exact lt_of_lt_of_le Nat.lt_log2_self (Nat.pow_le_pow_right (by decide) hwidth)

/-- It has 53 bits, unless the last place is the least one. -/
theorem le_shifted (h : e ≤ place m e) (hlow : place m e ≠ -1074) :
    2 ^ 52 ≤ m / 2 ^ (place m e - e).toNat := by
  have hwidth : m.log2 = 52 + (place m e - e).toNat := by
    unfold place at h hlow ⊢
    omega
  have hne : m ≠ 0 := by
    intro hzero
    rw [hzero, Nat.log2_zero] at hwidth
    omega
  rw [Nat.le_div_iff_mul_le (Nat.two_pow_pos _), ← Nat.pow_add, ← hwidth]
  exact Nat.log2_self_le hne

/-- The mantissa and the exponent of a finite double. -/
structure Canonical (m : Nat) (e : Int) : Prop where
  narrow : m < 2 ^ 53
  low : -1074 ≤ e
  normal : 2 ^ 52 ≤ m ∨ e = -1074

/-- A rounded mantissa is not shifted again. -/
theorem Canonical.place_eq (h : Canonical m e) : place m e = e := by
  obtain ⟨hnarrow, hlow, hnormal⟩ := h
  have hlog : m.log2 < 53 := by
    by_cases hzero : m = 0
    · subst hzero
      decide
    · exact (Nat.log2_lt hzero).mpr hnarrow
  unfold place
  rcases hnormal with hnormal | hnormal
  · have hlog' : m.log2 = 52 := (Nat.log2_eq_iff (by omega)).mpr ⟨hnormal, hnarrow⟩
    omega
  · omega

/-- Rounding shifts, rounds the mantissa and shifts once more. -/
theorem round_of_shifts {em em' : ExtendedMantissa} {e₁ e₂ : Int} {accuracy : Accuracy}
    (hfirst : shiftToTargetExponent Format.binary64 m e accuracy = (em, e₁))
    (hsecond : shiftToTargetExponent Format.binary64 em.roundedMantissa e₁ .exact = (em', e₂))
    (s : Sign) :
    roundWithAccuracy Format.binary64 s m e accuracy =
      if hzero : em'.mantissa = 0 then .zero s
      else .finite s em'.mantissa e₂ (Nat.pos_of_ne_zero hzero) := by
  unfold roundWithAccuracy
  dsimp only
  rw [hfirst]
  dsimp only
  rw [hsecond]

/-- Rounding yields zero, or a mantissa and an exponent of a double; they are within
    one unit of the last place. -/
theorem round_eq (h : e ≤ place m e) (s : Sign) (accuracy : Accuracy) :
    ∃ r, (r = m / 2 ^ (place m e - e).toNat ∨ r = m / 2 ^ (place m e - e).toNat + 1) ∧
      (r = 0 ∧ roundWithAccuracy Format.binary64 s m e accuracy = .zero s ∨
        ∃ m' e' hpos, roundWithAccuracy Format.binary64 s m e accuracy = .finite s m' e' hpos ∧
          Canonical m' e' ∧ place m e ≤ e' ∧ (m' : ℚ) * 2 ^ e' = r * 2 ^ place m e) := by
  obtain ⟨em, hshift, hmantissa⟩ := shift_eq h accuracy
  have hrounded := roundedMantissa_eq em
  rw [hmantissa] at hrounded
  have hlow : -1074 ≤ place m e := le_max_right _ _
  refine ⟨em.roundedMantissa, hrounded, ?_⟩
  have hlt := shifted_lt h
  by_cases hfull : em.roundedMantissa < 2 ^ 53
  · have hcanonical : Canonical em.roundedMantissa (place m e) := by
      refine ⟨hfull, hlow, ?_⟩
      by_cases hleast : place m e = -1074
      · exact .inr hleast
      · have hnormal := le_shifted h hleast
        exact .inl (by omega)
    have hplace := hcanonical.place_eq
    obtain ⟨em', hsecond, hmantissa'⟩ := shift_eq (le_of_eq hplace.symm) .exact
    rw [hplace] at hsecond hmantissa'
    have hsame : em'.mantissa = em.roundedMantissa := by simpa using hmantissa'
    rw [round_of_shifts hshift hsecond]
    by_cases hzero : em'.mantissa = 0
    · rw [dif_pos hzero]
      exact .inl ⟨hsame ▸ hzero, rfl⟩
    · rw [dif_neg hzero]
      refine .inr ⟨em'.mantissa, place m e, Nat.pos_of_ne_zero hzero, rfl, ?_, le_refl _, ?_⟩
      · rw [hsame]
        exact hcanonical
      · rw [hsame]
  · -- rounding carried into a 54th bit, and there is a second shift
    have hcarry : em.roundedMantissa = 2 ^ 53 := by omega
    have hplace : place em.roundedMantissa (place m e) = place m e + 1 := by
      unfold place at hlow ⊢
      rw [hcarry, Nat.log2_two_pow]
      omega
    obtain ⟨em', hsecond, hmantissa'⟩ := shift_eq (m := em.roundedMantissa) (e := place m e) (by omega) .exact
    rw [hplace] at hsecond hmantissa'
    have hhalf : em'.mantissa = 2 ^ 52 := by
      rw [hmantissa', hcarry, show (place m e + 1 - place m e).toNat = 1 by omega]
      decide
    have hzero : ¬ em'.mantissa = 0 := by omega
    rw [round_of_shifts hshift hsecond, dif_neg hzero]
    refine .inr ⟨em'.mantissa, place m e + 1, Nat.pos_of_ne_zero hzero, rfl, ?_, by omega, ?_⟩
    · rw [hhalf]
      exact ⟨by decide, by omega, .inl (le_refl _)⟩
    · rw [hhalf, hcarry, zpow_add_one₀ (by norm_num)]
      push_cast
      ring

/-! ### Bits -/

@[simp] theorem ofBitVec_toBitVec (s : Sign) : Sign.ofBitVec s.toBitVec = s := by
  cases s <;> rfl

@[simp] theorem unpackSign_packComponents (spec : Format) (s : Sign)
    (exponent : BitVec spec.exponentBits) (mantissa : BitVec spec.mantissaBitsWithoutImplicit) :
    unpackSign (packComponents spec s exponent mantissa) = s.toBitVec := by
  apply BitVec.eq_of_getLsbD_eq
  intro i hi
  obtain rfl : i = 0 := by omega
  show (BitVec.extractLsb _ _ (packComponents spec s exponent mantissa)).getLsbD 0 = _
  simp [packComponents, BitVec.getLsbD_append, BitVec.getElem_append]

/-- The fields of the bits of a finite double. -/
theorem pack_eq (hlow : -1074 ≤ e) (hhigh : e ≤ 971) (hpos : 0 < m) :
    UnpackedFloat.pack Format.binary64 (.finite s m e hpos) =
      packComponents Format.binary64 s
        (if m.log2 = 52 then BitVec.ofNat 11 (e + 1075).toNat else 0#11) (BitVec.ofNat 52 m) := by
  have hbiased : (e + (Format.binary64.exponentBias : Int) +
      (Format.binary64.mantissaBitsWithoutImplicit : Int)).toNat = (e + 1075).toNat := by
    show (e + 1023 + 52).toNat = _
    omega
  have hfinite : ¬ 2 ^ Format.binary64.exponentBits ≤ (e + 1075).toNat + 1 := by
    show ¬ 2 ^ 11 ≤ _
    omega
  have hbits : m.log2 + 1 = Format.binary64.mantissaBits ↔ m.log2 = 52 := by
    show m.log2 + 1 = 53 ↔ _
    omega
  unfold UnpackedFloat.pack
  dsimp only
  rw [hbiased, if_neg hfinite]
  simp only [hbits]
  split <;> rfl

theorem finite_congr {s' : Sign} {m' : Nat} {e' : Int} {h : 0 < m} {h' : 0 < m'} (hs : s = s')
    (hm : m = m') (he : e = e') : UnpackedFloat.finite s m e h = .finite s' m' e' h' := by
  subst hs hm he
  rfl

theorem unpack_pack_normal (hnarrow : m < 2 ^ 53) (hbits : 2 ^ 52 ≤ m) (hlow : -1074 ≤ e)
    (hhigh : e ≤ 971) (hpos : 0 < m) :
    (Float.Model.pack (.finite s m e hpos)).unpack = .finite s m e hpos := by
  have hexponent : (BitVec.ofNat 11 (e + 1075).toNat).toNat = (e + 1075).toNat := by
    rw [BitVec.toNat_ofNat, Nat.mod_eq_of_lt (by omega)]
  have hnotSubnormal : BitVec.ofNat 11 (e + 1075).toNat ≠ 0#11 := by
    intro hzero
    have hnat := congrArg BitVec.toNat hzero
    rw [hexponent, BitVec.toNat_zero] at hnat
    omega
  have hfinite : BitVec.ofNat 11 (e + 1075).toNat ≠ -1#11 := by
    intro hall
    have hnat := congrArg BitVec.toNat hall
    rw [hexponent, show (-1#11).toNat = 2047 by decide] at hnat
    omega
  -- the highest bit of the mantissa is not in the bits of the double
  have hmantissa : (1#1 ++ BitVec.ofNat 52 m).toNat = m := by
    rw [BitVec.toNat_append, ← Nat.shiftLeft_add_eq_or_of_lt (BitVec.isLt _),
      BitVec.toNat_ofNat, Nat.shiftLeft_eq]
    show 1 * 2 ^ 52 + m % 2 ^ 52 = m
    omega
  show UnpackedFloat.unpack Format.binary64 (UnpackedFloat.pack Format.binary64 _) = _
  rw [pack_eq hlow hhigh, if_pos ((Nat.log2_eq_iff (by omega)).mpr ⟨hbits, hnarrow⟩)]
  unfold UnpackedFloat.unpack
  dsimp only
  rw [unpackExponent_packComponents, if_neg hfinite, if_neg hnotSubnormal]
  apply finite_congr
  case hs => rw [unpackSign_packComponents, ofBitVec_toBitVec]
  case hm => rw [unpackMantissa_packComponents, hmantissa]
  case he =>
    rw [hexponent]
    show ((e + 1075).toNat : Int) - (1023 + 52) = e
    omega

theorem unpack_pack_subnormal (hbits : m < 2 ^ 52) (hpos : 0 < m) :
    (Float.Model.pack (.finite s m (-1074) hpos)).unpack = .finite s m (-1074) hpos := by
  have hlog : ¬ m.log2 = 52 := by
    have hlt := (Nat.log2_lt (by omega)).mpr hbits
    omega
  have hmantissa : (BitVec.ofNat 52 m).toNat = m := by
    rw [BitVec.toNat_ofNat, Nat.mod_eq_of_lt hbits]
  have hne : BitVec.ofNat 52 m ≠ 0#52 := by
    intro hzero
    have hnat := congrArg BitVec.toNat hzero
    rw [hmantissa, BitVec.toNat_zero] at hnat
    omega
  show UnpackedFloat.unpack Format.binary64 (UnpackedFloat.pack Format.binary64 _) = _
  rw [pack_eq (by decide) (by decide), if_neg hlog]
  unfold UnpackedFloat.unpack
  dsimp only
  rw [unpackExponent_packComponents, if_neg (by decide), if_pos (by decide)]
  have hnonzero : ¬ unpackMantissa (packComponents Format.binary64 s
      (BitVec.ofNat 11 0) (BitVec.ofNat 52 m)) = 0#52 := by
    rw [unpackMantissa_packComponents]
    exact hne
  rw [dif_neg hnonzero]
  apply finite_congr
  case hs => rw [unpackSign_packComponents, ofBitVec_toBitVec]
  case hm => rw [unpackMantissa_packComponents, hmantissa]
  case he => rfl

/-- The parts of a finite double are in its bits. -/
theorem unpack_pack (h : Canonical m e) (hhigh : e ≤ 971) (hpos : 0 < m) :
    (Float.Model.pack (.finite s m e hpos)).unpack = .finite s m e hpos := by
  obtain ⟨hnarrow, hlow, hnormal⟩ := h
  by_cases hbits : 2 ^ 52 ≤ m
  · exact unpack_pack_normal hnarrow hbits hlow hhigh hpos
  · obtain rfl : e = -1074 := hnormal.resolve_left hbits
    exact unpack_pack_subnormal (by omega) hpos

/-- A finite double has a mantissa and an exponent of a double. -/
theorem canonical_unpack {x : Float} {hpos : 0 < m} (h : x.toModel.unpack = .finite s m e hpos) :
    Canonical m e ∧ e ≤ 971 := by
  change UnpackedFloat.unpack Format.binary64 x.toModel.toBits.toBitVec = _ at h
  unfold UnpackedFloat.unpack at h
  dsimp only at h
  have hexponent : (@unpackExponent Format.binary64 x.toModel.toBits.toBitVec).toNat < 2 ^ 11 :=
    BitVec.isLt _
  generalize @unpackExponent Format.binary64 x.toModel.toBits.toBitVec = exponent at h hexponent
  have hmantissa : (@unpackMantissa Format.binary64 x.toModel.toBits.toBitVec).toNat < 2 ^ 52 :=
    BitVec.isLt _
  by_cases hall : exponent = -1#11
  · rw [if_pos hall] at h
    by_cases hbits : @unpackMantissa Format.binary64 x.toModel.toBits.toBitVec = 0#52
    · rw [if_pos hbits] at h
      cases h
    · rw [if_neg hbits] at h
      cases h
  · rw [if_neg hall] at h
    have hfinite : exponent.toNat ≠ 2047 := fun hnat => hall (BitVec.eq_of_toNat_eq hnat)
    by_cases hzero : exponent = 0#11
    · rw [if_pos hzero] at h
      by_cases hbits : @unpackMantissa Format.binary64 x.toModel.toBits.toBitVec = 0#52
      · rw [dif_pos hbits] at h
        cases h
      · rw [dif_neg hbits] at h
        obtain ⟨-, rfl, rfl⟩ := UnpackedFloat.finite.inj h
        have hplace : (exponent.toNat : Int) - (1023 + 52) + 1 = -1074 := by
          rw [hzero]
          rfl
        exact ⟨⟨by omega, le_of_eq hplace.symm, .inr hplace⟩, le_of_eq_of_le hplace (by decide)⟩
    · rw [if_neg hzero] at h
      obtain ⟨-, rfl, rfl⟩ := UnpackedFloat.finite.inj h
      have hpositive : exponent.toNat ≠ 0 := fun hnat => hzero (BitVec.eq_of_toNat_eq hnat)
      have hbits : (1#1 ++ @unpackMantissa Format.binary64 x.toModel.toBits.toBitVec).toNat =
          2 ^ 52 + (@unpackMantissa Format.binary64 x.toModel.toBits.toBitVec).toNat := by
        rw [BitVec.toNat_append, ← Nat.shiftLeft_add_eq_or_of_lt hmantissa, Nat.shiftLeft_eq]
        rfl
      rw [hbits]
      show Canonical _ ((exponent.toNat : Int) - (1023 + 52)) ∧
        (exponent.toNat : Int) - (1023 + 52) ≤ 971
      exact ⟨⟨by omega, by omega, .inl (by omega)⟩, by omega⟩

theorem unpack_pack_zero (s : Sign) : (Float.Model.pack (.zero s)).unpack = .zero s := by
  cases s <;> rfl

/-! ### Bounds -/

/-- The most that rounding multiplies a number by, apart from the least doubles. -/
def slack : ℚ := 1 + 2 ^ (-52 : Int)

theorem one_le_slack : 1 ≤ slack := by
  unfold slack
  norm_num

theorem two_zpow_pos (e : Int) : (0 : ℚ) < 2 ^ e :=
  zpow_pos (by norm_num) e

theorem value_nonneg (m : Nat) (e : Int) : (0 : ℚ) ≤ m * 2 ^ e :=
  mul_nonneg (Nat.cast_nonneg m) (two_zpow_pos e).le

theorem two_zpow_le {e e' : Int} (h : e ≤ e') : (2 : ℚ) ^ e ≤ 2 ^ e' :=
  zpow_le_zpow_right₀ (by norm_num) h

/-- A unit of the last place is a small part of the number, or the least double. -/
theorem place_le (h : e ≤ place m e) :
    (2 : ℚ) ^ place m e ≤ m * 2 ^ e * 2 ^ (-52 : Int) ∨ place m e = -1074 := by
  by_cases hlow : place m e = -1074
  · exact .inr hlow
  · left
    have hplace : place m e = (m.log2 : Int) + (e + -52) := by
      unfold place at hlow ⊢
      omega
    have hne : m ≠ 0 := by
      intro hzero
      rw [hplace, hzero, Nat.log2_zero] at h
      omega
    have hlog : (2 : ℚ) ^ m.log2 ≤ m := by exact_mod_cast Nat.log2_self_le hne
    rw [hplace, zpow_add₀ (by norm_num), zpow_natCast, zpow_add₀ (by norm_num), ← mul_assoc]
    gcongr

/-- Rounding adds one unit of the last place at most. -/
theorem rounded_le {r : Nat} (h : e ≤ place m e)
    (hr : r = m / 2 ^ (place m e - e).toNat ∨ r = m / 2 ^ (place m e - e).toNat + 1) :
    (r : ℚ) * 2 ^ place m e ≤ m * 2 ^ e + 2 ^ place m e := by
  have hplace : place m e = e + ((place m e - e).toNat : Int) := by omega
  generalize (place m e - e).toNat = count at hplace hr
  have hfloor : ((m / 2 ^ count : Nat) : ℚ) * 2 ^ count ≤ m := by
    exact_mod_cast Nat.div_mul_le_self m (2 ^ count)
  have hpos : (0 : ℚ) < 2 ^ e := two_zpow_pos e
  have hscaled : ((m / 2 ^ count : Nat) : ℚ) * 2 ^ place m e ≤ m * 2 ^ e := by
    rw [hplace, zpow_add₀ (by norm_num), zpow_natCast]
    nlinarith
  have hunit : (0 : ℚ) < 2 ^ place m e := two_zpow_pos _
  rcases hr with hr | hr
  · rw [hr]
    linarith
  · rw [hr]
    push_cast
    linarith

/-- The exponent of a double below `2^1024` fits the bits. -/
theorem Canonical.exponent_le {b : ℚ} (h : Canonical m e) (hb : (m : ℚ) * 2 ^ e ≤ b)
    (hlt : b < 2 ^ (1024 : Int)) : e ≤ 971 := by
  rcases h.normal with hnormal | hlow
  · by_contra hlarge
    have hmantissa : (2 : ℚ) ^ (52 : Int) ≤ m := by exact_mod_cast hnormal
    have hexponent : (2 : ℚ) ^ (972 : Int) ≤ 2 ^ e := two_zpow_le (by omega)
    have hvalue : (2 : ℚ) ^ (1024 : Int) ≤ m * 2 ^ e := by
      rw [show (1024 : Int) = 52 + 972 from rfl, zpow_add₀ (by norm_num)]
      gcongr
    exact absurd hlt (not_lt.mpr (hvalue.trans hb))
  · omega

/-- A double between one and a bound. -/
def Spans (x : Float) (b : ℚ) : Prop :=
  ∃ m e hpos, x.toModel.unpack = .finite .positive m e hpos ∧ 2 ^ 52 ≤ m ∧ -52 ≤ e ∧
    (m : ℚ) * 2 ^ e ≤ b

/-- A finite double up to a bound, on either side of zero. -/
def Within (x : Float) (b : ℚ) : Prop :=
  (∃ s, x.toModel.unpack = .zero s) ∨
    ∃ s m e hpos, x.toModel.unpack = .finite s m e hpos ∧ (m : ℚ) * 2 ^ e ≤ b

variable {x y : Float} {a b : ℚ}

theorem Spans.within (h : Spans x b) : Within x b := by
  obtain ⟨m, e, hpos, hx, -, -, hb⟩ := h
  exact .inr ⟨_, m, e, hpos, hx, hb⟩

theorem Spans.mono (h : Spans x a) (hab : a ≤ b) : Spans x b := by
  obtain ⟨m, e, hpos, hx, hm, he, ha⟩ := h
  exact ⟨m, e, hpos, hx, hm, he, ha.trans hab⟩

theorem Within.mono (h : Within x a) (hab : a ≤ b) : Within x b := by
  rcases h with hzero | ⟨s, m, e, hpos, hx, ha⟩
  · exact .inl hzero
  · exact .inr ⟨s, m, e, hpos, hx, ha.trans hab⟩

theorem Within.isFinite (h : Within x b) : x.isFinite = true := by
  show x.toModel.unpack.isFinite = true
  rcases h with ⟨s, hx⟩ | ⟨s, m, e, hpos, hx, -⟩
  · rw [hx]
    rfl
  · rw [hx]
    rfl

theorem Within.neg (h : Within x b) : Within (-x) b := by
  have hneg : (-x).toModel.unpack = (Float.Model.pack x.toModel.unpack.neg).unpack := rfl
  rcases h with ⟨s, hx⟩ | ⟨s, m, e, hpos, hx, hb⟩
  · left
    rw [hneg, hx]
    exact ⟨_, unpack_pack_zero _⟩
  · right
    obtain ⟨hcanonical, hhigh⟩ := canonical_unpack hx
    rw [hneg, hx]
    exact ⟨_, m, e, hpos, unpack_pack hcanonical hhigh hpos, hb⟩

/-- A finite double has a bound. -/
theorem exists_within (h : x.isFinite = true) : ∃ b, Within x b := by
  change x.toModel.unpack.isFinite = true at h
  cases hx : x.toModel.unpack with
  | notANumber =>
    rw [hx] at h
    cases h
  | infinity s =>
    rw [hx] at h
    cases h
  | zero s => exact ⟨0, .inl ⟨s, hx⟩⟩
  | finite s m e hpos => exact ⟨_, .inr ⟨s, m, e, hpos, hx, le_refl _⟩⟩

theorem isFinite_neg (h : x.isFinite = true) : (-x).isFinite = true := by
  obtain ⟨b, hb⟩ := exists_within h
  exact hb.neg.isFinite

/-- The bits of a finite double without its sign are below those of the infinities. -/
theorem magnitude_lt (h : x.isFinite = true) :
    x.toBits.toNat % 0x8000000000000000 < 0x7FF0000000000000 := by
  have hexponent : @unpackExponent Format.binary64 x.toModel.toBits.toBitVec ≠ -1#11 := by
    intro hall
    change (UnpackedFloat.unpack Format.binary64 x.toModel.toBits.toBitVec).isFinite = true at h
    unfold UnpackedFloat.unpack at h
    dsimp only at h
    rw [if_pos hall] at h
    split at h <;> cases h
  have hfield : (@unpackExponent Format.binary64 x.toModel.toBits.toBitVec).toNat =
      x.toModel.toBits.toNat / 2 ^ 52 % 2 ^ 11 := by
    unfold unpackExponent
    rw [BitVec.toNat_cast, BitVec.extractLsb_toNat, Nat.shiftRight_eq_div_pow]
    rfl
  have hfinite : x.toModel.toBits.toNat / 2 ^ 52 % 2 ^ 11 ≠ 2047 := by
    intro hnat
    exact hexponent (BitVec.eq_of_toNat_eq (hfield.trans hnat))
  show x.toModel.toBits.toNat % 0x8000000000000000 < 0x7FF0000000000000
  omega

/-- What is rounded stays finite below `2^1024`. -/
theorem round_within (h : e ≤ place m e) (s : Sign) (accuracy : Accuracy)
    (hb : (m : ℚ) * 2 ^ e * slack + 2 ^ (-1074 : Int) ≤ b) (hlt : b < 2 ^ (1024 : Int)) :
    Within (.ofModel (Float.Model.pack (roundWithAccuracy Format.binary64 s m e accuracy))) b := by
  obtain ⟨r, hr, hround⟩ := round_eq h s accuracy
  rcases hround with ⟨-, hzero⟩ | ⟨m', e', hpos, hround, hcanonical, -, hvalue⟩
  · rw [hzero]
    exact .inl ⟨s, unpack_pack_zero s⟩
  · have hle : (m' : ℚ) * 2 ^ e' ≤ b := by
      have hrounded := rounded_le h hr
      have hleast : (0 : ℚ) < 2 ^ (-1074 : Int) := two_zpow_pos _
      have hnonneg : (0 : ℚ) ≤ m * 2 ^ e * 2 ^ (-52 : Int) :=
        mul_nonneg (value_nonneg m e) (two_zpow_pos _).le
      unfold slack at hb
      rw [hvalue]
      rcases place_le h with hplace | hplace
      · linarith
      · rw [hplace] at hrounded ⊢
        linarith
    rw [hround]
    exact .inr ⟨s, m', e', hpos, unpack_pack hcanonical (hcanonical.exponent_le hle hlt) hpos, hle⟩

/-- What has 53 bits and is one at least still is so when it is rounded. -/
theorem round_spans (hbits : 52 ≤ m.log2) (hone : 0 ≤ (m.log2 : Int) + e)
    (hb : (m : ℚ) * 2 ^ e * slack ≤ b) (hlt : b < 2 ^ (1024 : Int)) :
    Spans (.ofModel (Float.Model.pack (roundWithAccuracy Format.binary64 .positive m e .exact)))
      b := by
  have hplace : place m e = (m.log2 : Int) + e - 52 := by
    unfold place
    omega
  have h : e ≤ place m e := by omega
  obtain ⟨r, hr, hround⟩ := round_eq h .positive .exact
  have hnormal : 2 ^ 52 ≤ r := by
    have hshifted := le_shifted h (by omega)
    omega
  rcases hround with ⟨hzero, -⟩ | ⟨m', e', hpos, hround, hcanonical, hlow, hvalue⟩
  · omega
  · have hle : (m' : ℚ) * 2 ^ e' ≤ b := by
      have hrounded := rounded_le h hr
      have hunit := (place_le h).resolve_right (by omega)
      unfold slack at hb
      rw [hvalue]
      linarith
    have hbits' : 2 ^ 52 ≤ m' := hcanonical.normal.resolve_right (by omega)
    rw [hround]
    exact ⟨m', e', hpos, unpack_pack hcanonical (hcanonical.exponent_le hle hlt) hpos, hbits',
      by omega, hle⟩

/-! ### Operations -/

/-- A product is within its bound. -/
theorem Spans.mul (hx : Spans x a) (hy : Spans y b) (hlt : a * b * slack < 2 ^ (1024 : Int)) :
    Spans (x * y) (a * b * slack) := by
  obtain ⟨m₁, e₁, h₁, hx, hbits₁, hlow₁, ha⟩ := hx
  obtain ⟨m₂, e₂, h₂, hy, hbits₂, hlow₂, hb⟩ := hy
  have hnonneg : 0 ≤ a := le_trans (by positivity) ha
  have hlog : 104 ≤ (m₁ * m₂).log2 := by
    rw [Nat.le_log2 (Nat.mul_pos h₁ h₂).ne', show 104 = 52 + 52 from rfl, Nat.pow_add]
    exact Nat.mul_le_mul hbits₁ hbits₂
  have hvalue : ((m₁ * m₂ : Nat) : ℚ) * 2 ^ (e₁ + e₂) ≤ a * b := by
    rw [zpow_add₀ (by norm_num), Nat.cast_mul, mul_mul_mul_comm]
    gcongr
  have hproduct : x * y = .ofModel (Float.Model.pack
      (roundWithAccuracy Format.binary64 .positive (m₁ * m₂) (e₁ + e₂) .exact)) := by
    show Float.ofModel (Float.Model.pack
      (UnpackedFloat.mul Format.binary64 x.toModel.unpack y.toModel.unpack)) = _
    rw [hx, hy]
    rfl
  rw [hproduct]
  refine round_spans (by omega) (by omega) ?_ hlt
  have hslack := one_le_slack
  gcongr

/-- A quotient has 53 bits before it is rounded, unless its last place is the least one. -/
theorem divCore_eq {m₁ m₂ : Nat} {e₁ e₂ : Int} (h₁ : 0 < m₁) (h₂ : 0 < m₂) :
    ∃ (q : Nat) (e : Int) (count : Nat) (accuracy : Accuracy), divCore Format.binary64 m₁ e₁ m₂ e₂ = (q, e, accuracy) ∧
      q = m₁ * 2 ^ count / m₂ ∧ e + count = e₁ - e₂ ∧ e ≤ place q e := by
  let total : Int := totalExponent m₁ e₁ - totalExponent m₂ e₂
  have htarget : Format.binary64.targetExponent total = max (total - 53) (-1074) := rfl
  generalize he : min (e₁ - e₂) (max (total - 53) (-1074)) = e
  generalize hcount : (e₁ - e₂ - e).toNat = count
  have hsum : e + count = e₁ - e₂ := by omega
  refine ⟨m₁ * 2 ^ count / m₂, e, count, accuracyOfFraction (m₁ * 2 ^ count % m₂) m₂, ?_, rfl,
    hsum, ?_⟩
  · unfold divCore
    dsimp only
    rw [show Format.binary64.targetExponent (totalExponent m₁ e₁ - totalExponent m₂ e₂) =
      max (total - 53) (-1074) from htarget, he, hcount, Nat.shiftLeft_eq]
  · by_cases hlow : e ≤ -1074
    · exact hlow.trans (le_max_right _ _)
    · -- the numerator was shifted so far that it is `2^52` times the denominator
      have htotal : total = (m₁.log2 : Int) + e₁ - (m₂.log2 + e₂) := by
        show (m₁.log2 : Int) + 1 + e₁ - (m₂.log2 + 1 + e₂) = _
        omega
      have hwidth : 52 + (m₂.log2 + 1) ≤ m₁.log2 + count := by omega
      have hquotient : 2 ^ 52 ≤ m₁ * 2 ^ count / m₂ := by
        rw [Nat.le_div_iff_mul_le h₂]
        calc 2 ^ 52 * m₂ ≤ 2 ^ 52 * 2 ^ (m₂.log2 + 1) :=
              Nat.mul_le_mul_left _ (Nat.le_of_lt Nat.lt_log2_self)
          _ ≤ 2 ^ (m₁.log2 + count) := by
              rw [← Nat.pow_add]
              exact Nat.pow_le_pow_right (by decide) hwidth
          _ ≤ m₁ * 2 ^ count := by
              rw [Nat.pow_add]
              exact Nat.mul_le_mul_right _ (Nat.log2_self_le h₁.ne')
      have hlog := (Nat.le_log2 (by omega)).mpr hquotient
      unfold place
      omega

/-- The quotient by a double of one or more is not above the numerator. -/
theorem quotient_le {m₁ m₂ q count : Nat} {e₁ e₂ e : Int} (hbits : 2 ^ 52 ≤ m₂) (hlow : -52 ≤ e₂)
    (hq : q = m₁ * 2 ^ count / m₂) (hsum : e + count = e₁ - e₂) :
    (q : ℚ) * 2 ^ e ≤ m₁ * 2 ^ e₁ := by
  have hone : (1 : ℚ) ≤ m₂ * 2 ^ e₂ := by
    have hbits' : (2 : ℚ) ^ (52 : Int) ≤ m₂ := by exact_mod_cast hbits
    have hexponent : (2 : ℚ) ^ (-52 : Int) ≤ 2 ^ e₂ := two_zpow_le hlow
    calc (1 : ℚ) = 2 ^ (52 : Int) * 2 ^ (-52 : Int) := by norm_num
      _ ≤ m₂ * 2 ^ e₂ := by gcongr
  have hfloor : (q : ℚ) * m₂ ≤ m₁ * 2 ^ count := by
    rw [hq]
    exact_mod_cast Nat.div_mul_le_self (m₁ * 2 ^ count) m₂
  have hshifted : (m₁ : ℚ) * 2 ^ count * 2 ^ e * 2 ^ e₂ = m₁ * 2 ^ e₁ := by
    rw [mul_assoc, mul_assoc, ← zpow_natCast, ← zpow_add₀ (by norm_num),
      ← zpow_add₀ (by norm_num)]
    congr 2
    omega
  calc (q : ℚ) * 2 ^ e ≤ q * 2 ^ e * (m₂ * 2 ^ e₂) :=
        le_mul_of_one_le_right (value_nonneg q e) hone
    _ = q * m₂ * 2 ^ e * 2 ^ e₂ := by ring
    _ ≤ m₁ * 2 ^ count * 2 ^ e * 2 ^ e₂ := by gcongr
    _ = m₁ * 2 ^ e₁ := hshifted

/-- A quotient by one or more is within twice the bound. -/
theorem Within.div (hx : Within x a) (hy : Spans y b) (ha : 1 ≤ a) (hlt : 2 * a < 2 ^ (1024 : Int)) :
    Within (x / y) (2 * a) := by
  obtain ⟨m₂, e₂, h₂, hy, hbits₂, hlow₂, -⟩ := hy
  have hquotient : x / y = .ofModel (Float.Model.pack
      (UnpackedFloat.div Format.binary64 x.toModel.unpack y.toModel.unpack)) := rfl
  rcases hx with ⟨s, hx⟩ | ⟨s, m₁, e₁, h₁, hx, hvalue⟩
  · rw [hquotient, hx, hy]
    exact .inl ⟨_, unpack_pack_zero _⟩
  · obtain ⟨q, e, count, accuracy, hcore, hq, hsum, hplace⟩ := @divCore_eq m₁ m₂ e₁ e₂ h₁ h₂
    have hdivided : UnpackedFloat.div Format.binary64 (.finite s m₁ e₁ h₁)
        (.finite .positive m₂ e₂ h₂) =
          roundWithAccuracy Format.binary64 (s / Sign.positive) q e accuracy := by
      show (let (m, e, accuracy) := divCore Format.binary64 m₁ e₁ m₂ e₂
        roundWithAccuracy Format.binary64 (s / Sign.positive) m e accuracy) = _
      rw [hcore]
    rw [hquotient, hx, hy, hdivided]
    refine round_within hplace _ _ ?_ hlt
    have hle : (q : ℚ) * 2 ^ e ≤ a := (quotient_le hbits₂ hlow₂ hq hsum).trans hvalue
    have hlow : (-1074 : Int) ≤ -1 := by decide
    have hhalf : (2 : ℚ) ^ (-1 : Int) = 1 / 2 := by norm_num
    have hleast := two_zpow_le hlow
    rw [hhalf] at hleast
    have hslack : slack ≤ 3 / 2 := by
      unfold slack
      norm_num
    have hscaled : (q : ℚ) * 2 ^ e * slack ≤ a * (3 / 2) := by
      have hone := one_le_slack
      gcongr
    calc (q : ℚ) * 2 ^ e * slack + 2 ^ (-1074 : Int) ≤ a * (3 / 2) + 1 / 2 :=
          add_le_add hscaled hleast
      _ ≤ 2 * a := by linarith only [ha]

/-- A whole number is rounded to a double of one at least. -/
theorem spans_natural (hpos : 0 < n) (hlt : (n : ℚ) * slack < 2 ^ (1024 : Int)) :
    Spans (.ofModel (Float.Model.ofNat n)) (n * slack) := by
  -- the number is shifted to 53 bits at least before it is rounded
  have hround : UnpackedFloat.ofNat Format.binary64 n =
      roundWithAccuracy Format.binary64 .positive (n * 2 ^ (52 - n.log2))
        (-((52 - n.log2 : Nat) : Int)) .exact := by
    have htarget : (0 - Format.binary64.targetExponent (totalExponent n 0)).toNat =
        52 - n.log2 := by
      rw [targetExponent_eq]
      unfold place
      omega
    unfold UnpackedFloat.ofNat UnpackedFloat.ofInt UnpackedFloat.normalize
    rw [Int.compare_eq_gt.mpr (by omega)]
    dsimp only
    unfold UnpackedFloat.round UnpackedFloat.decreaseExponent
    dsimp only
    rw [Int.toNat_natCast, htarget, Nat.shiftLeft_eq, Int.zero_sub]
  have hlog : (n * 2 ^ (52 - n.log2)).log2 = n.log2 + (52 - n.log2) := by
    have hbounds := (Nat.log2_eq_iff hpos.ne').mp rfl
    rw [Nat.log2_eq_iff (Nat.mul_pos hpos (Nat.two_pow_pos _)).ne', Nat.pow_add,
      Nat.add_right_comm, Nat.pow_add]
    exact ⟨Nat.mul_le_mul_right _ hbounds.1,
      Nat.mul_lt_mul_of_pos_right hbounds.2 (Nat.two_pow_pos _)⟩
  have hvalue : ((n * 2 ^ (52 - n.log2) : Nat) : ℚ) * 2 ^ (-((52 - n.log2 : Nat) : Int)) = n := by
    rw [Nat.cast_mul, Nat.cast_pow, Nat.cast_ofNat, zpow_neg, zpow_natCast, mul_assoc,
      mul_inv_cancel₀ (by positivity), mul_one]
  unfold Float.Model.ofNat
  rw [hround]
  exact round_spans (by omega) (by omega) (by rw [hvalue]) hlt

/-- A whole number times a power of ten is rounded to a double of one at least. -/
theorem spans_decimal {k : Nat} (hpos : 0 < n) (hk : k ≤ 308)
    (hlt : (n : ℚ) * 10 ^ k * slack < 2 ^ (1024 : Int)) :
    Spans (.ofModel (Float.Model.ofScientific n k)) (n * 10 ^ k * slack) := by
  have hten : 0 < 10 ^ k := Nat.pow_pos (by decide)
  have hscientific : UnpackedFloat.ofScientific Format.binary64 n (k : Int) =
      roundWithAccuracy Format.binary64 .positive (n * 2 ^ 53 * 10 ^ k) (-53) .exact := by
    have hlarge : ¬ (k : Int) > 2 ^ Format.binary64.exponentBits := by
      show ¬ (2048 : Int) < k
      omega
    have hsmall : ¬ (k : Int) < -((2 ^ Format.binary64.exponentBits : Int) + n.log2) := by
      show ¬ (k : Int) < -(2048 + (n.log2 : Int))
      omega
    unfold UnpackedFloat.ofScientific
    rw [dif_neg hpos.ne', if_neg hlarge, if_neg hsmall, if_pos (Int.natCast_nonneg k),
      ← Nat.shiftLeft_eq]
    rfl
  have hlog : 53 ≤ (n * 2 ^ 53 * 10 ^ k).log2 := by
    rw [Nat.le_log2 (Nat.mul_pos (Nat.mul_pos hpos (by decide)) hten).ne']
    calc 2 ^ 53 = 1 * 2 ^ 53 * 1 := rfl
      _ ≤ n * 2 ^ 53 * 10 ^ k := Nat.mul_le_mul (Nat.mul_le_mul_right _ hpos) hten
  have hvalue : ((n * 2 ^ 53 * 10 ^ k : Nat) : ℚ) * 2 ^ (-53 : Int) = n * 10 ^ k := by
    push_cast
    norm_num
    ring
  unfold Float.Model.ofScientific
  rw [hscientific]
  exact round_spans (by omega) (by omega) (by rw [hvalue]) hlt

/-- The double of a whole number of 64 bits. -/
theorem spans_ofNat (hpos : 0 < n) (hlt : n < 2 ^ 64) :
    Spans (Float.ofNat n) (n * slack * slack) := by
  have hone : (1 : ℚ) ≤ n := by exact_mod_cast hpos
  have hwide : (n : ℚ) < 2 ^ (64 : Int) := by exact_mod_cast hlt
  have hslack := one_le_slack
  have hsmall : (n : ℚ) * slack * slack < 2 ^ (1024 : Int) := by
    have htwo : slack ≤ 2 := by
      unfold slack
      norm_num
    have hlow : (66 : Int) ≤ 1024 := by decide
    have hlimit := two_zpow_le hlow
    have hvalue : (n : ℚ) * slack * slack ≤ n * 2 * 2 := by gcongr
    have hbound : (n : ℚ) * 2 * 2 < 2 ^ (66 : Int) :=
      calc (n : ℚ) * 2 * 2 < 2 ^ (64 : Int) * 2 * 2 := by gcongr
        _ = 2 ^ (66 : Int) := by norm_num
    exact lt_of_le_of_lt hvalue (lt_of_lt_of_le hbound hlimit)
  by_cases hfast : n < 2 ^ 53
  · -- a number of 53 bits is multiplied by one
    have hunit : Spans (Float.exactlyRepresentablePowersOfTen[0]) 1 :=
      ⟨2 ^ 52, -52, by decide, rfl, le_refl _, le_refl _, by norm_num⟩
    have hnumber : Spans n.toUInt64.toFloat (n * slack) := by
      have hmodel : n.toUInt64.toFloat = .ofModel (Float.Model.ofNat n) := by
        show Float.ofModel (Float.Model.ofNat n.toUInt64.toNat) = _
        rw [Nat.toUInt64, UInt64.toNat_ofNat', Nat.mod_eq_of_lt hlt]
      rw [hmodel]
      exact spans_natural hpos (lt_of_le_of_lt (le_mul_of_one_le_right (by positivity) hslack) hsmall)
    have hproduct := hnumber.mul hunit (by rwa [mul_one])
    rw [mul_one] at hproduct
    have heq : Float.ofNat n =
        n.toUInt64.toFloat * Float.exactlyRepresentablePowersOfTen[0] := by
      show Float.ofScientific n false 0 = _
      unfold Float.ofScientific
      rw [dif_pos ⟨hfast, by decide⟩]
      rfl
    rw [heq]
    exact hproduct
  · have heq : Float.ofNat n = .ofModel (Float.Model.ofScientific n (0 : Nat)) := by
      show Float.ofScientific n false 0 = _
      unfold Float.ofScientific
      rw [dif_neg fun h => hfast h.1]
      rfl
    have hle : (n : ℚ) * slack ≤ n * slack * slack := le_mul_of_one_le_right (by positivity) hslack
    have hspans := @spans_decimal n 0 hpos (by decide)
    rw [pow_zero, mul_one] at hspans
    rw [heq]
    exact (hspans (lt_of_le_of_lt hle hsmall)).mono hle

end RecordGate.Double

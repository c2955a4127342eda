import RecordGate.Proofs.Rounding
import RecordGate.Storage.Sql.Value

/-! # Whole numbers as doubles

  A whole number beyond 64 signed bits is compared in SQL as a double. Rounding
  does not take it back into that range.

  **Key idea.** A number from `2^63` below `2^64` is shifted to 53 bits, and
  rounding adds one to them at most. So the mantissa has its highest bit and the
  exponent is 11 or 12 (`round_wide`), which is what the bits of the double say.

  - `isFinite_ofNat`: such a double is finite.
  - `wholeOf?_ofInt`: the whole number that such a double is has 64 bits, too.
-/

open Float.Model Float.Model.UnpackedFloat

namespace RecordGate.Storage.Sql

/-! ### Rounding -/

variable {n : Nat}

/-- A number of 64 bits is rounded to a mantissa of 53 bits. -/
theorem round_wide (hlow : 2 ^ 63 ≤ n) (hhigh : n < 2 ^ 64) :
    ∃ mantissa exponent hpos,
      roundWithAccuracy Format.binary64 .positive (n * 2 ^ 53) (-53) .exact =
        .finite .positive mantissa exponent hpos ∧
      mantissa.log2 = 52 ∧ (exponent = 11 ∨ exponent = 12) := by
  have hlog : (n * 2 ^ 53).log2 = 116 := by
    rw [Nat.log2_eq_iff (by omega)]
    omega
  have hplace : Double.place (n * 2 ^ 53) (-53) = 11 := by
    unfold Double.place
    rw [hlog]
    rfl
  obtain ⟨r, hr, hround⟩ := Double.round_eq (m := n * 2 ^ 53) (e := -53) (by omega) .positive .exact
  rw [hplace] at hr hround
  change r = n * 2 ^ 53 / 2 ^ 64 ∨ r = n * 2 ^ 53 / 2 ^ 64 + 1 at hr
  rcases hround with ⟨hzero, -⟩ | ⟨mantissa, exponent, hpos, hround, hcanonical, hexponent, hvalue⟩
  · omega
  · have hbits : 2 ^ 52 ≤ mantissa := hcanonical.normal.resolve_right (by omega)
    obtain ⟨carry, rfl⟩ := Int.le.dest hexponent
    -- rounding may carry into a 54th bit, and then the mantissa was shifted once more
    have hcarry : mantissa * 2 ^ carry = r := by
      rw [zpow_add₀ (by norm_num), zpow_natCast, mul_comm ((2 : ℚ) ^ (11 : Int)), ← mul_assoc] at hvalue
      have hcancel := mul_right_cancel₀ (by norm_num) hvalue
      exact_mod_cast hcancel
    have hsmall : carry ≤ 1 := by
      by_contra hlarge
      have hfour : 2 ^ 2 ≤ 2 ^ carry := Nat.pow_le_pow_right (by decide) (by omega)
      have hproduct := Nat.mul_le_mul hbits hfour
      omega
    exact ⟨mantissa, 11 + carry, hpos, hround,
      (Nat.log2_eq_iff hpos.ne').mpr ⟨hbits, hcanonical.narrow⟩, by omega⟩

/-! ### Bits -/

/-- The bits of a positive double with a mantissa of 53 bits. -/
theorem toBits_pack {mantissa : Nat} {exponent : Int} (hpos : 0 < mantissa)
    (hlog : mantissa.log2 = 52) (hrange : 0 ≤ exponent ∧ exponent < 971) :
    (Float.Model.pack (.finite .positive mantissa exponent hpos)).toBits.toNat =
      (exponent + 1075).toNat * 2 ^ 52 + mantissa % 2 ^ 52 := by
  show (UnpackedFloat.pack Format.binary64 (.finite .positive mantissa exponent hpos)).toNat = _
  rw [Double.pack_eq (by omega) (by omega), if_pos hlog]
  have hexponent : (exponent + 1075).toNat < 2 ^ 11 := by omega
  have hfraction : mantissa % 2 ^ 52 < 2 ^ 52 := Nat.mod_lt _ (by decide)
  have hbits : (BitVec.ofNat 52 mantissa).toNat = mantissa % 2 ^ 52 := BitVec.toNat_ofNat _ _
  have hhead : (0#1 ++ BitVec.ofNat 11 (exponent + 1075).toNat).toNat =
      (exponent + 1075).toNat := by
    rw [BitVec.toNat_append, BitVec.toNat_ofNat _ 11, Nat.mod_eq_of_lt hexponent]
    simp
  show (0#1 ++ BitVec.ofNat 11 (exponent + 1075).toNat ++ BitVec.ofNat 52 mantissa).toNat = _
  rw [BitVec.toNat_append, hhead, hbits, ← Nat.shiftLeft_add_eq_or_of_lt hfraction,
    Nat.shiftLeft_eq]

theorem mul_finite {spec : Format} {m₁ m₂ : Nat} {e₁ e₂ : Int} (h₁ : 0 < m₁) (h₂ : 0 < m₂) :
    UnpackedFloat.mul spec (.finite .positive m₁ e₁ h₁) (.finite .positive m₂ e₂ h₂) =
      roundWithAccuracy spec .positive (m₁ * m₂) (e₁ + e₂) .exact := rfl

/-- A whole number that has 64 bits as a number is a normal double. -/
theorem ofNat_eq_pack (hlow : 2 ^ 63 ≤ n) (hhigh : n < 2 ^ 64) :
    ∃ mantissa exponent hpos, Float.ofNat n =
      .ofModel (Float.Model.pack (.finite .positive mantissa exponent hpos)) ∧
      mantissa.log2 = 52 ∧ (exponent = 11 ∨ exponent = 12) := by
  obtain ⟨mantissa, exponent, hpos, hround, hlog, hexponent⟩ := round_wide hlow hhigh
  refine ⟨mantissa, exponent, hpos, ?_, hlog, hexponent⟩
  have hlarge : ¬ (n < 2 ^ 53 ∧ 0 ≤ 22) := by omega
  have hunpacked : UnpackedFloat.ofScientific Format.binary64 n 0 =
      .finite .positive mantissa exponent hpos := by
    have hbits : Format.binary64.mantissaBits = 53 := rfl
    have hmantissa : n <<< Format.binary64.mantissaBits * 10 ^ (0 : Int).toNat = n * 2 ^ 53 := by
      rw [hbits, Nat.shiftLeft_eq, Int.toNat_zero, Nat.pow_zero, Nat.mul_one]
    have hexponent' : -(Format.binary64.mantissaBits : Int) + 0 = -53 := by decide
    have hsmall : ¬ (0 : Int) < -(2 ^ Format.binary64.exponentBits + (n.log2 : Int)) := by
      show ¬ (0 : Int) < -(2048 + (n.log2 : Int))
      omega
    unfold UnpackedFloat.ofScientific
    rw [dif_neg (by omega), if_neg (by decide), if_neg hsmall, if_pos (by decide), mul_finite,
      hmantissa, hexponent', hround]
  show Float.ofScientific n false 0 = _
  unfold Float.ofScientific
  rw [dif_neg hlarge]
  show Float.ofModel (Float.Model.pack (UnpackedFloat.ofScientific Format.binary64 n 0)) = _
  rw [hunpacked]

/-- The double of such a number is finite. -/
theorem isFinite_ofNat (hlow : 2 ^ 63 ≤ n) (hhigh : n < 2 ^ 64) :
    (Float.ofNat n).isFinite = true :=
  (Double.spans_ofNat (by omega) hhigh).within.isFinite

/-- The whole number that the double of a number of 64 bits is, if it is one, has
    its highest bit there as well. -/
theorem wholeOf?_ofNat (hlow : 2 ^ 63 ≤ n) (hhigh : n < 2 ^ 64) {m : Int}
    (h : wholeOf? (Float.ofNat n) = some m) : 2 ^ 63 ≤ m := by
  obtain ⟨mantissa, exponent, hpos, hpack, hlog, hexponent⟩ := ofNat_eq_pack hlow hhigh
  have hbits : (Float.ofNat n).toBits.toNat =
      (exponent + 1075).toNat * 2 ^ 52 + mantissa % 2 ^ 52 := by
    rw [hpack]
    exact toBits_pack hpos hlog (by omega)
  have hfields : (Decimal.Binary.ofBits (Float.ofNat n).toBits).exponent = exponent ∧
      2 ^ 52 ≤ (Decimal.Binary.ofBits (Float.ofNat n).toBits).mantissa := by
    have hbiased : (Float.ofNat n).toBits.toNat / 0x10000000000000 % 0x800 =
        (exponent + 1075).toNat := by omega
    have hnormal : ¬ (exponent + 1075).toNat = 0 := by omega
    unfold Decimal.Binary.ofBits
    dsimp only
    rw [hbiased, if_neg hnormal]
    exact ⟨by dsimp only; omega, Nat.le_add_right _ _⟩
  have hsign : ¬ (Float.ofNat n).toBits.toNat / 0x8000000000000000 = 1 := by omega
  unfold wholeOf? at h
  dsimp only at h
  rw [hfields.1, if_pos (by omega)] at h
  simp only [Option.bind_eq_bind, Option.bind_some, Option.pure_def, Option.map_some, if_neg hsign,
    Option.some.injEq] at h
  have hscale : 2 ^ 11 ≤ Nat.pow 2 exponent.toNat := Nat.pow_le_pow_right (by decide) (by omega)
  have hvalue := Nat.mul_le_mul hfields.2 hscale
  omega

/-- The same in terms of whole numbers. -/
theorem wholeOf?_ofInt {i m : Int} (hlow : 2 ^ 63 ≤ i) (hhigh : i < 2 ^ 64)
    (h : wholeOf? (Float.ofInt i) = some m) : 2 ^ 63 ≤ m := by
  obtain ⟨n, rfl⟩ := Int.eq_ofNat_of_zero_le (show 0 ≤ i by omega)
  exact wholeOf?_ofNat (by omega) (by omega) h

end RecordGate.Storage.Sql

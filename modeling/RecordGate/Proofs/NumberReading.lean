import RecordGate.Json.Printer
import RecordGate.Proofs.JsonReading
import RecordGate.Proofs.NumberText
import RecordGate.Proofs.Rounding
import RecordGate.Proofs.ShortestDigits
import RecordGate.Proofs.ValueEquality

/-! # Numbers in JSON texts

  Every number that JSON can hold has a text that is read as such a number. A
  whole number is read back; a double need not be, since its digits are scaled with
  more than one rounding.

  **Key idea.** The text of a double has at most 19 digits, so the reader takes them
  all and scales them by one power of ten. With a negative power this never fails;
  with a positive one the product is below `2^1024`, as the double itself is
  (`scaleFloat_up`). The largest doubles are too close to that and are checked one by
  one.

  - `number_legal`: what is read is a number that JSON can hold.
  - `Number.readsBack_int`: whole numbers read back.
  - `Number.Legal.legible`: the text of a number is read.
-/

namespace RecordGate

namespace Json.Reader

open Double

variable {cs ds a b rest : List Char} {n k : Nat} {negative : Bool}

/-! ### Digits -/

theorem le_ofDigitChars (ds : List Char) (acc : Nat) : acc ≤ Nat.ofDigitChars 10 ds acc := by
  rw [Nat.ofDigitChars_eq_ofDigitChars_zero]
  have hpos : 0 < 10 ^ ds.length := Nat.pow_pos (by decide)
  have hscaled := Nat.mul_le_mul_right acc hpos
  omega

/-- A run of digits that fits 64 bits is taken into the significand as a whole. -/
theorem significand_run (hdigits : ∀ c ∈ ds, Decimal.isDigit c = true) (hstops : Time.Stops rest)
    (acc taken : Nat) (hfits : Nat.ofDigitChars 10 ds acc < 0x10000000000000000) :
    significand acc taken (ds ++ rest) = (Nat.ofDigitChars 10 ds acc, taken + ds.length, rest) := by
  induction ds generalizing acc taken with
  | nil =>
    cases rest with
    | nil => rfl
    | cons c rest => simp [significand, stops_cons.mp hstops]
  | cons c ds ih =>
    have hc : Decimal.isDigit c = true := hdigits c List.mem_cons_self
    have hvalue : 10 * acc + (c.toNat - '0'.toNat) = acc * 10 + Decimal.digitValue c := by
      rw [Nat.mul_comm]
      rfl
    rw [Nat.ofDigitChars_cons, hvalue] at hfits ⊢
    have hroom := lt_of_le_of_lt (le_ofDigitChars ds _) hfits
    have htail := ih (fun d hd => hdigits d (List.mem_cons_of_mem c hd)) _ (taken + 1) hfits
    rw [List.cons_append]
    unfold significand
    simp only [hc, hroom, if_true]
    rw [htail, List.length_cons, Nat.add_assoc, Nat.add_comm 1]

theorem spanDigits_stops (h : Time.Stops cs) : Decimal.spanDigits cs = ([], cs) := by
  have hspan := @Time.spanDigits_run [] cs (by simp) h
  exact hspan

/-- What is taken into the significand fits 64 bits. -/
theorem significand_lt (acc taken : Nat) (cs : List Char) (hacc : acc < 0x10000000000000000) :
    (significand acc taken cs).1 < 0x10000000000000000 := by
  induction cs generalizing acc taken with
  | nil => exact hacc
  | cons c cs ih =>
    unfold significand
    split
    · dsimp only
      split
      next hroom => exact ih _ _ hroom
      · exact hacc
    · exact hacc

/-- Digits that may stand before a point. -/
structure Leads (ds : List Char) : Prop where
  digits : ∀ c ∈ ds, Decimal.isDigit c = true
  nonempty : ds ≠ []
  head : 1 < ds.length → ds.head? ≠ some '0'

theorem digits_zero : ∀ c ∈ ['0'], Decimal.isDigit c = true :=
  List.forall_mem_singleton.mpr rfl

theorem leads_zero : Leads ['0'] := ⟨digits_zero, by simp, by simp⟩

/-- A positive number is not written with a zero in front. -/
theorem head_toDigits (hpos : 0 < n) : (Nat.toDigits 10 n).head? ≠ some '0' := by
  intro hzero
  have hrun := Decimal.run_toDigits n
  obtain ⟨ds, hds⟩ := List.head?_eq_some_iff.mp hzero
  -- behind the zero there are too few digits for the number
  have hvalue : Decimal.ofDigits ds = n := by
    have hvalue := hrun.value
    rw [hds] at hvalue
    exact hvalue
  have hsmall := Time.ofDigits_lt fun c hc => hrun.digits c (hds ▸ List.mem_cons_of_mem '0' hc)
  have hlarge := Decimal.ten_pow_digitCount_le hpos
  unfold Decimal.digitCount at hlarge
  rw [hds, List.length_cons, Nat.add_sub_cancel] at hlarge
  omega

theorem leads_toDigits (n : Nat) : Leads (Nat.toDigits 10 n) := by
  refine ⟨(Decimal.run_toDigits n).digits, Nat.toDigits_ne_nil, ?_⟩
  intro hlong
  apply head_toDigits
  by_contra hzero
  obtain rfl : n = 0 := by omega
  exact absurd hlong (by decide)

/-- The digits of a number in front of those that belong behind the point. -/
theorem Leads.take (h : Leads ds) (hk : 0 < k) : Leads (ds.take k) := by
  obtain ⟨c, ds, rfl⟩ := List.exists_cons_of_ne_nil h.nonempty
  obtain ⟨k, rfl⟩ := Nat.exists_eq_succ_of_ne_zero hk.ne'
  refine ⟨fun d hd => h.digits d (List.mem_of_mem_take hd), List.cons_ne_nil _ _, ?_⟩
  intro hlong
  apply h.head
  rw [List.take_succ_cons, List.length_cons, List.length_take] at hlong
  rw [List.length_cons]
  omega

theorem Leads.append_zeros (h : Leads ds) (hne : ds.head? ≠ some '0') (k : Nat) :
    Leads (ds ++ List.replicate k '0') := by
  obtain ⟨c, ds, rfl⟩ := List.exists_cons_of_ne_nil h.nonempty
  refine ⟨?_, List.cons_ne_nil _ _, fun _ => hne⟩
  intro d hd
  rcases List.mem_append.mp hd with hd | hd
  · exact h.digits d hd
  · rw [List.eq_of_mem_replicate hd]
    rfl

/-! ### What a decimal is read as -/

/-- Digits without a point. -/
theorem magnitude_digits (ha : Leads a) (hfits : Decimal.ofDigits a < 0x10000000000000000)
    (hstops : Time.Stops rest) (hpoint : rest.head? ≠ some '.') :
    magnitude negative (a ++ rest) = ending negative (Decimal.ofDigits a) 0 [] false rest := by
  have hspan := Time.spanDigits_run ha.digits hstops
  have hnone : Decimal.spanDigits rest = ([], rest) := spanDigits_stops hstops
  rw [Time.ofDigits_eq] at hfits ⊢
  have hsignificand := significand_run ha.digits hstops 0 0 hfits
  have hempty : a.isEmpty = false := List.isEmpty_eq_false_iff.mpr ha.nonempty
  have hlead : (decide (a.length > 1) && decide (a.head? = some '0')) = false := by
    rw [Bool.and_eq_false_iff, decide_eq_false_iff_not, decide_eq_false_iff_not]
    by_cases hlong : a.length > 1
    · exact .inr (ha.head hlong)
    · exact .inl hlong
  unfold magnitude
  simp only [hspan, hempty, hlead, hsignificand, hnone, Bool.or_self, Bool.false_eq_true, if_false]
  cases rest with
  | nil => rfl
  | cons c rest =>
    have hc : c ≠ '.' := by simpa using hpoint
    split
    next heq =>
      cases heq
      exact absurd rfl hc
    · rfl

/-- Digits with a point. -/
theorem magnitude_point (ha : Leads a) (hb : ∀ c ∈ b, Decimal.isDigit c = true) (hne : b ≠ [])
    (hfits : Decimal.ofDigits (a ++ b) < 0x10000000000000000) (hstops : Time.Stops rest) :
    magnitude negative (a ++ '.' :: (b ++ rest)) =
      ending negative (Decimal.ofDigits (a ++ b)) b.length [] true rest := by
  have hdot : Time.Stops ('.' :: (b ++ rest)) := stops_cons.mpr rfl
  have hspan := Time.spanDigits_run ha.digits hdot
  have hspan' := Time.spanDigits_run hb hstops
  have hnone : Decimal.spanDigits rest = ([], rest) := spanDigits_stops hstops
  have hnone' : Decimal.spanDigits ('.' :: (b ++ rest)) = ([], '.' :: (b ++ rest)) :=
    spanDigits_stops hdot
  rw [Time.ofDigits_eq, Nat.ofDigitChars_append] at hfits ⊢
  have hwhole := significand_run ha.digits hdot 0 0 (lt_of_le_of_lt (le_ofDigitChars b _) hfits)
  have hfraction := significand_run hb hstops (Nat.ofDigitChars 10 a 0) 0 hfits
  have hempty : a.isEmpty = false := List.isEmpty_eq_false_iff.mpr ha.nonempty
  have hempty' : b.isEmpty = false := List.isEmpty_eq_false_iff.mpr hne
  have hlead : (decide (a.length > 1) && decide (a.head? = some '0')) = false := by
    rw [Bool.and_eq_false_iff, decide_eq_false_iff_not, decide_eq_false_iff_not]
    by_cases hlong : a.length > 1
    · exact .inr (ha.head hlong)
    · exact .inl hlong
  unfold magnitude
  simp only [hspan, hempty, hlead, hwhole, hnone', hspan', hempty', hfraction, hnone,
    Bool.or_self, Bool.false_eq_true, if_false, Nat.zero_add]
  rfl

theorem ending_nil (negative : Bool) (digits taken : Nat) :
    ending negative digits taken [] true [] =
      (scaled negative digits (-(taken : Int))).map (·, []) := by
  simp [ending, exponent]

theorem ending_exponent {e : Int} (he : exponent rest = some (some e, [])) (negative : Bool)
    (digits taken : Nat) (fractional : Bool) :
    ending negative digits taken [] fractional rest =
      (scaled negative digits (e - taken)).map (·, []) := by
  simp [ending, he, ← sub_eq_neg_add]

/-- An exponent with its sign. -/
theorem exponent_marked (n : Nat) (low : Bool) :
    exponent ('e' :: (if low then '-' else '+') :: Nat.toDigits 10 n) =
      some (some (if low then -(n : Int) else n), []) := by
  have hrun := Decimal.run_toDigits n
  have hstops : Time.Stops [] := nofun
  have hspan := Time.spanDigits_run hrun.digits hstops
  rw [List.append_nil] at hspan
  have hempty : (Nat.toDigits 10 n).isEmpty = false :=
    List.isEmpty_eq_false_iff.mpr Nat.toDigits_ne_nil
  rw [exponent_cons, if_pos (by decide)]
  cases low with
  | true =>
    show unsigned true (Nat.toDigits 10 n) = _
    unfold unsigned
    simp [hspan, hempty, hrun.value]
  | false =>
    show unsigned false (Nat.toDigits 10 n) = _
    unfold unsigned
    simp [hspan, hempty, hrun.value]

/-! ### Powers of ten -/

/-- Whether a power of ten is an exact double of one at least. -/
def exactPower (k : Nat) : Bool :=
  match (powerOfTen k).toModel.unpack with
  | .finite .positive m e _ =>
    2 ^ 52 ≤ m && -52 ≤ e && m * 2 ^ (e + 52).toNat = 10 ^ k * 2 ^ 52
  | _ => false

theorem exactPower_small : ∀ k < 23, exactPower k = true := by
  decide +kernel

theorem spans_of_exactPower (h : exactPower k = true) : Spans (powerOfTen k) (10 ^ k) := by
  unfold exactPower at h
  split at h
  next m e hpos hx =>
    simp only [Bool.and_eq_true, decide_eq_true_eq] at h
    obtain ⟨⟨hbits, hlow⟩, hvalue⟩ := h
    refine ⟨m, e, hpos, hx, hbits, hlow, ?_⟩
    obtain ⟨j, hj⟩ := Int.le.dest hlow
    rw [show (e + 52).toNat = j by omega] at hvalue
    have hcast : (m : ℚ) * 2 ^ j = 10 ^ k * 2 ^ 52 := by exact_mod_cast hvalue
    rw [← hj, zpow_add₀ (by norm_num), zpow_natCast, mul_comm ((2 : ℚ) ^ (-52 : Int)), ← mul_assoc,
      hcast, mul_assoc]
    norm_num
  next => cases h

/-- The powers of ten that a reader scales with. -/
theorem spans_powerOfTen (hk : k ≤ 308) : Spans (powerOfTen k) (10 ^ k * slack) := by
  by_cases hsmall : k < 23
  · exact (spans_of_exactPower (exactPower_small k hsmall)).mono
      (le_mul_of_one_le_right (by positivity) one_le_slack)
  · have heq : powerOfTen k = .ofModel (Float.Model.ofScientific 1 k) := by
      show Float.ofScientific 1 false k = _
      unfold Float.ofScientific
      rw [dif_neg fun h => by omega]
      rfl
    have hlimit : (10 : ℚ) ^ k * slack < 2 ^ (1024 : Int) := by
      have hpower : (10 : ℚ) ^ k ≤ 10 ^ 308 := pow_le_pow_right₀ (by norm_num) hk
      have hslack : slack ≤ 3 / 2 := by
        unfold slack
        norm_num
      have hlarge : (10 : ℚ) ^ 308 * 3 < 2 ^ 1024 * 2 := by
        have hnat : 10 ^ 308 * 3 < 2 ^ 1024 * 2 := by decide +kernel
        exact_mod_cast hnat
      calc (10 : ℚ) ^ k * slack ≤ 10 ^ 308 * (3 / 2) :=
            mul_le_mul hpower hslack (zero_le_one.trans one_le_slack) (by positivity)
        _ = 10 ^ 308 * 3 / 2 := (mul_div_assoc _ _ _).symm
        _ < 2 ^ 1024 := (div_lt_iff₀ (by norm_num)).mpr hlarge
    have hspans := @spans_decimal 1 k (by decide) hk
    rw [Nat.cast_one, one_mul] at hspans
    rw [heq]
    exact hspans hlimit

/-! ### Scaling -/

/-- A double of 64 bits stays finite however it is scaled down. -/
theorem scaleFloat_finite {fuel : Nat} {x y : Float} {e : Int} {b : ℚ}
    (h : scaleFloat fuel x e = some y) (hx : Within x b) (hb : 1 ≤ b)
    (hlt : 2 ^ fuel * b < 2 ^ (1024 : Int)) : y.isFinite = true := by
  induction fuel generalizing x e b with
  | zero =>
    cases h
    exact hx.isFinite
  | succ fuel ih =>
    have hpow : (1 : ℚ) ≤ 2 ^ fuel := one_le_pow₀ (by norm_num)
    have hsum : (2 : ℚ) ^ (fuel + 1) * b = 2 ^ fuel * (2 * b) := by ring
    have hdouble : 2 * b < 2 ^ (1024 : Int) :=
      lt_of_le_of_lt (hsum ▸ le_mul_of_one_le_left (by linarith) hpow) hlt
    have hdivided : ∀ {j}, j ≤ 308 → Within (x / powerOfTen j) (2 * b) := fun hj =>
      hx.div (spans_powerOfTen hj) hb hdouble
    unfold scaleFloat at h
    split at h
    next hsmall =>
      split at h
      · dsimp only at h
        split at h
        next hfinite =>
          cases h
          exact hfinite
        · cases h
      · cases h
        exact (hdivided hsmall).isFinite
    · split at h
      · cases h
        exact hx.isFinite
      · split at h
        · cases h
        · exact ih h (hdivided (le_refl 308)) (by linarith) (hsum ▸ hlt)

theorem within_ofNat (hn : n < 2 ^ 64) : Within (Float.ofNat n) (2 ^ 66) := by
  by_cases hzero : n = 0
  · subst hzero
    exact .inl ⟨.positive, rfl⟩
  · have hslack : slack ≤ 2 := by
      unfold slack
      norm_num
    have hwide : (n : ℚ) ≤ 2 ^ 64 := by exact_mod_cast hn.le
    have hpos := zero_le_one.trans one_le_slack
    have hvalue : (n : ℚ) * slack * slack ≤ 2 ^ 64 * 2 * 2 := by gcongr
    exact (spans_ofNat (Nat.pos_of_ne_zero hzero) hn).within.mono (hvalue.trans (by norm_num))

/-- Digits of 64 bits are scaled to a finite double. -/
theorem isFinite_scaled {digits : Nat} {e : Int} {x : Float} (hdigits : digits < 0x10000000000000000)
    (h : scaleFloat 4 (Float.ofNat digits) e = some x) : x.isFinite = true := by
  have hlt : (2 : ℚ) ^ 4 * 2 ^ 66 < 2 ^ (1024 : Int) := by
    refine lt_of_lt_of_le ?_ (two_zpow_le (show (71 : Int) ≤ 1024 by decide))
    norm_num
  exact scaleFloat_finite h (within_ofNat hdigits) (by norm_num) hlt

/-- What is scaled is a finite double. -/
theorem scaled_legal {digits : Nat} {e : Int} {v : Json} (hdigits : digits < 0x10000000000000000)
    (h : scaled negative digits e = some v) : ∃ y : Float, v = .num (.float y) ∧ y.isFinite = true := by
  obtain ⟨x, hx, hv⟩ := Option.map_eq_some_iff.mp h
  have hfinite := isFinite_scaled hdigits hx
  subst hv
  refine ⟨_, rfl, ?_⟩
  cases negative with
  | true => exact isFinite_neg hfinite
  | false => exact hfinite

/-- Without a fraction and an exponent, a number of 64 bits is whole, if its sign has
    room. -/
theorem whole_legal {digits : Nat} (hdigits : digits < 0x10000000000000000) :
    ∃ n : Number, whole negative digits = .num n ∧ n.Legal := by
  unfold whole
  split
  next hsign => exact ⟨_, rfl, by unfold Number.Legal Number.InRange; omega⟩
  · split
    · exact ⟨_, rfl, (within_ofNat hdigits).neg.isFinite⟩
    next hsmall =>
      simp only [Bool.or_eq_true, decide_eq_true_eq, not_or] at hsmall
      exact ⟨_, rfl, by unfold Number.Legal Number.InRange; omega⟩

theorem ending_legal {digits taken : Nat} {dropped : List Char} {fractional : Bool} {v : Json}
    (hdigits : digits < 0x10000000000000000)
    (h : ending negative digits taken dropped fractional cs = some (v, rest)) :
    ∃ n : Number, v = .num n ∧ n.Legal := by
  have hscaled : ∀ {e : Int}, (scaled negative digits e).map (·, rest) = some (v, rest) →
      ∃ n : Number, v = .num n ∧ n.Legal := by
    intro e he
    obtain ⟨v', hv', heq⟩ := Option.map_eq_some_iff.mp he
    obtain rfl : v' = v := (Prod.mk.inj heq).1
    obtain ⟨y, hy, hfinite⟩ := scaled_legal hdigits hv'
    exact ⟨_, hy, hfinite⟩
  unfold ending at h
  obtain ⟨⟨e, r⟩, -, h⟩ := Option.bind_eq_some_iff.mp h
  cases e with
  | none =>
    dsimp only at h
    split at h
    · obtain ⟨n, hn, hlegal⟩ := @whole_legal negative _ hdigits
      cases h
      exact ⟨n, hn, hlegal⟩
    · obtain rfl : r = rest := by
        obtain ⟨_, -, heq⟩ := Option.map_eq_some_iff.mp h
        exact (Prod.mk.inj heq).2
      exact hscaled h
  | some e =>
    obtain rfl : r = rest := by
      obtain ⟨_, -, heq⟩ := Option.map_eq_some_iff.mp h
      exact (Prod.mk.inj heq).2
    exact hscaled h

theorem magnitude_legal {v : Json} (h : magnitude negative cs = some (v, rest)) :
    ∃ n : Number, v = .num n ∧ n.Legal := by
  have hwhole := significand_lt 0 0 cs (by decide)
  unfold magnitude at h
  dsimp only at h
  split at h
  · cases h
  · split at h
    next more heq =>
      split at h
      · cases h
      · exact ending_legal (significand_lt _ 0 more hwhole) h
    · exact ending_legal hwhole h

/-- What is read as a number is a number that JSON can hold. -/
theorem number_legal {v : Json} (h : number cs = some (v, rest)) :
    ∃ n : Number, v = .num n ∧ n.Legal := by
  unfold number at h
  split at h
  · exact magnitude_legal h
  · exact magnitude_legal h

/-! ### Whole numbers -/

/-- The digits of a number of 64 bits are read as this number behind a sign. -/
theorem magnitude_toDigits (negative : Bool) (hn : n < 0x10000000000000000) :
    magnitude negative (Nat.toDigits 10 n) = some (whole negative n, []) := by
  have hvalue := (Decimal.run_toDigits n).value
  have hread := @magnitude_digits (Nat.toDigits 10 n) [] negative (leads_toDigits n)
    (by rw [hvalue]; exact hn) nofun (by simp)
  rw [List.append_nil, hvalue] at hread
  rw [hread]
  simp [ending, exponent]

/-- The text of a whole number is read as this number. -/
theorem number_intText {i : Int} (hi : Number.InRange i) :
    number (Decimal.intText i).toList = some (.num (.int i), []) := by
  obtain ⟨hlow, hhigh⟩ := hi
  cases i with
  | ofNat n =>
    have hne : ∀ cs, Nat.toDigits 10 n ≠ '-' :: cs := Decimal.toDigits_ne_sign n (by decide)
    change (n : Int) < 0x10000000000000000 at hhigh
    show number (Decimal.natText n).toList = _
    rw [Decimal.toList_natText]
    unfold number
    split
    next cs heq => exact absurd heq (hne cs)
    · exact magnitude_toDigits false (by omega)
  | negSucc n =>
    have htext : (Decimal.intText (Int.negSucc n)).toList = '-' :: Nat.toDigits 10 (n + 1) := by
      show ("-" ++ Decimal.natText (n + 1)).toList = _
      rw [String.toList_append, Decimal.toList_natText]
      rfl
    rw [htext]
    show magnitude true (Nat.toDigits 10 (n + 1)) = _
    rw [magnitude_toDigits true (by omega)]
    unfold whole
    rw [if_neg (by decide), if_neg]
    · rfl
    · simp only [Bool.or_eq_true, decide_eq_true_eq, not_or]
      omega

/-! ### The texts of doubles -/

/-- Digits with a point alone are scaled down. -/
theorem magnitude_plain (ha : Leads a) (hb : ∀ c ∈ b, Decimal.isDigit c = true) (hne : b ≠ [])
    (hfits : Decimal.ofDigits (a ++ b) < 0x10000000000000000) (negative : Bool) :
    ∃ digits e, magnitude negative (a ++ '.' :: b) = (scaled negative digits e).map (·, []) ∧
      e < 0 := by
  have hread := @magnitude_point a b [] negative ha hb hne hfits nofun
  rw [List.append_nil, ending_nil] at hread
  have hlength := List.length_pos_iff.mpr hne
  exact ⟨_, _, hread, by omega⟩

/-- Up to 19 digits fit 64 bits. -/
theorem ofDigits_fits (hds : ∀ c ∈ ds, Decimal.isDigit c = true) (hlength : ds.length ≤ 19) :
    Decimal.ofDigits ds < 0x10000000000000000 := by
  have hlt := Time.ofDigits_lt hds
  have hpow : 10 ^ ds.length ≤ 10 ^ 19 := Nat.pow_le_pow_right (by decide) hlength
  omega

/-- Zeros in front do not count. -/
theorem ofDigits_zeros (k : Nat) (ds : List Char) :
    Decimal.ofDigits (List.replicate k '0' ++ ds) = Decimal.ofDigits ds := by
  rw [Time.ofDigits_eq, Time.ofDigits_eq, Nat.ofDigitChars_append,
    Nat.ofDigitChars_replicate_zero, Nat.mul_zero]

/-- Digits with an exponent are scaled by what the exponent says of the last one. -/
theorem magnitude_scientific (hds : Leads ds) (hfits : Decimal.ofDigits ds < 0x10000000000000000)
    {e : Int} (he : exponent rest = some (some e, [])) (hrest : ∃ cs, rest = 'e' :: cs)
    (negative : Bool) :
    magnitude negative (ds.take 1 ++ (if (ds.drop 1).isEmpty then [] else '.' :: ds.drop 1) ++ rest) =
      (scaled negative (Decimal.ofDigits ds) (e - (ds.drop 1).length)).map (·, []) := by
  obtain ⟨cs, rfl⟩ := hrest
  have hstops : Time.Stops ('e' :: cs) := stops_cons.mpr rfl
  have hfront := @Leads.take ds 1 hds (by decide)
  by_cases hone : ds.drop 1 = []
  · have hall : ds.take 1 = ds := by
      have hsplit := List.take_append_drop 1 ds
      rwa [hone, List.append_nil] at hsplit
    rw [hone, hall]
    simp only [List.isEmpty_nil, if_true, List.append_nil]
    rw [magnitude_digits hds hfits hstops (by simp), ending_exponent he]
    rfl
  · have hempty : (ds.drop 1).isEmpty = false := List.isEmpty_eq_false_iff.mpr hone
    have hbehind : ∀ c ∈ ds.drop 1, Decimal.isDigit c = true := fun c hc =>
      hds.digits c (List.mem_of_mem_drop hc)
    simp only [hempty, Bool.false_eq_true, if_false, List.append_assoc, List.cons_append]
    rw [magnitude_point hfront hbehind hone (by rwa [List.take_append_drop]) hstops,
      List.take_append_drop, ending_exponent he]

/-- A whole number is written with zeros up to the point and one behind it. -/
theorem magnitude_whole (hds : Leads ds) (hhead : ds.head? ≠ some '0')
    (hlength : ds.length + k < 19) (negative : Bool) :
    ∃ digits e, magnitude negative (ds ++ List.replicate k '0' ++ ['.', '0']) =
        (scaled negative digits e).map (·, []) ∧ e < 0 := by
  have hfront := hds.append_zeros hhead k
  refine magnitude_plain hfront digits_zero (List.cons_ne_nil _ _) (ofDigits_fits ?_ ?_) negative
  · exact List.forall_mem_append.mpr ⟨hfront.digits, digits_zero⟩
  · simp only [List.length_append, List.length_replicate, List.length_singleton]
    omega

/-- The point stands between the digits. -/
theorem magnitude_between (hds : Leads ds) (hfits : Decimal.ofDigits ds < 0x10000000000000000)
    (hpos : 0 < k) (hlt : k < ds.length) (negative : Bool) :
    ∃ digits e, magnitude negative (ds.take k ++ '.' :: ds.drop k) =
        (scaled negative digits e).map (·, []) ∧ e < 0 := by
  refine magnitude_plain (hds.take hpos) ?_ ?_ (by rwa [List.take_append_drop]) negative
  · exact fun c hc => hds.digits c (List.mem_of_mem_drop hc)
  · rw [ne_eq, List.drop_eq_nil_iff]
    omega

/-- A number below one is written with zeros around the point. -/
theorem magnitude_below (hds : Leads ds) (hfits : Decimal.ofDigits ds < 0x10000000000000000)
    (k : Nat) (negative : Bool) :
    ∃ digits e, magnitude negative ('0' :: '.' :: (List.replicate k '0' ++ ds)) =
        (scaled negative digits e).map (·, []) ∧ e < 0 := by
  refine magnitude_plain leads_zero ?_ ?_ ?_ negative
  · intro c hc
    rcases List.mem_append.mp hc with hc | hc
    · rw [List.eq_of_mem_replicate hc]
      rfl
    · exact hds.digits c hc
  · exact List.append_ne_nil_of_right_ne_nil _ hds.nonempty
  · rw [← List.replicate_one, ofDigits_zeros, ofDigits_zeros]
    exact hfits

/-- The text of a decimal is read by scaling its digits, or by scaling down. -/
theorem magnitude_write (d : Decimal.Digits) (hpos : 0 < d.digits) (hsmall : d.digits ≤ 10 ^ 18)
    (negative : Bool) :
    ∃ digits e, magnitude negative (Decimal.layout.write d).toList =
        (scaled negative digits e).map (·, []) ∧
      (e < 0 ∨ digits = d.digits ∧ e = d.exponent) := by
  have hrun := Decimal.run_toDigits d.digits
  have hleads := leads_toDigits d.digits
  have hhead := head_toDigits hpos
  have hlong : (Nat.toDigits 10 d.digits).length ≤ 19 :=
    (Nat.length_toDigits_le_iff (by decide) (by decide)).mpr (by omega)
  have hfits : Decimal.ofDigits (Nat.toDigits 10 d.digits) < 0x10000000000000000 := by
    rw [hrun.value]
    omega
  have hlist : (Decimal.natText d.digits).toList = Nat.toDigits 10 d.digits :=
    Decimal.toList_natText _
  have hlength : (Decimal.natText d.digits).length = (Nat.toDigits 10 d.digits).length := by
    rw [← hlist, String.length_toList]
  generalize Nat.toDigits 10 d.digits = ds at hrun hleads hhead hlong hfits hlist hlength
  have hcount : 0 < ds.length := List.length_pos_iff.mpr hleads.nonempty
  unfold Decimal.Layout.write
  simp only [hlength, hlist, List.splitAt_eq]
  split
  next hplain =>
    rw [Bool.and_eq_true] at hplain
    have hlow : -5 ≤ d.exponent + ds.length - 1 := of_decide_eq_true hplain.1
    have hhigh : d.exponent + ds.length - 1 < 16 := of_decide_eq_true hplain.2
    -- where the point stands
    split
    next hwhole =>
      obtain ⟨digits, e, hread, he⟩ :=
        @magnitude_whole ds d.exponent.toNat hleads hhead (by omega) negative
      refine ⟨digits, e, ?_, .inl he⟩
      rw [← hread]
      simp [hlist, Decimal.zeros]
    · split
      next hfraction =>
        obtain ⟨digits, e, hread, he⟩ := @magnitude_between ds
          (ds.length - (-d.exponent).toNat) hleads hfits (by omega) (by omega) negative
        refine ⟨digits, e, ?_, .inl he⟩
        rw [← hread]
        simp
      next hsmall =>
        obtain ⟨digits, e, hread, he⟩ :=
          magnitude_below hleads hfits ((-d.exponent).toNat - ds.length) negative
        refine ⟨digits, e, ?_, .inl he⟩
        rw [← hread]
        simp [hlist, Decimal.zeros]
  next =>
    generalize hleading : d.exponent + ds.length - 1 = leading
    have hexponent := exponent_marked leading.natAbs (decide (leading < 0))
    have hread := magnitude_scientific hleads hfits hexponent ⟨_, rfl⟩ negative
    refine ⟨d.digits, d.exponent, ?_, .inr ⟨rfl, rfl⟩⟩
    have hscale : (if decide (leading < 0) then -(leading.natAbs : Int) else leading.natAbs) -
        (ds.drop 1).length = d.exponent := by
      have hsign : (if decide (leading < 0) then -(leading.natAbs : Int) else leading.natAbs) =
          leading := by
        by_cases hneg : leading < 0
        · rw [if_pos (decide_eq_true hneg)]
          omega
        · rw [if_neg (by simpa using hneg)]
          omega
      rw [hsign, List.length_drop]
      omega
    rw [hscale, hrun.value] at hread
    rw [← hread]
    refine congrArg (magnitude negative) ?_
    -- the text has a fraction or none, and one of the marks
    by_cases hlow : leading < 0
    · by_cases hone : ds.tail = [] <;> simp [hone, hlow, Decimal.toList_natText]
    · by_cases hone : ds.tail = [] <;> simp [hone, hlow, Decimal.toList_natText, Decimal.layout]

/-! ### Doubles are read -/

/-- Scaling down never fails. -/
theorem scaleFloat_down (fuel : Nat) (x : Float) {e : Int} (he : e < 0) :
    ∃ y, scaleFloat fuel x e = some y := by
  induction fuel generalizing x e with
  | zero => exact ⟨x, rfl⟩
  | succ fuel ih =>
    have hneg : ¬ 0 ≤ e := by omega
    unfold scaleFloat
    simp only [hneg, if_false]
    split
    · exact ⟨_, rfl⟩
    next hfar =>
      split
      · exact ⟨_, rfl⟩
      · exact ih _ (by omega)

/-- Scaling up does not fail as long as the product is below `2^1024`. -/
theorem scaleFloat_up {digits fuel : Nat} (hpos : 0 < digits) (hdigits : digits ≤ 10 ^ 18) {e : Int}
    (he : 0 ≤ e) {limit : ℚ} (hle : (digits : ℚ) * 10 ^ e ≤ limit)
    (hlt : limit * slack ^ 4 < 2 ^ (1024 : Int)) :
    ∃ y, scaleFloat (fuel + 1) (Float.ofNat digits) e = some y := by
  obtain ⟨k, rfl⟩ := Int.eq_ofNat_of_zero_le he
  rw [zpow_natCast] at hle
  have hone : (1 : ℚ) ≤ slack ^ 4 := one_le_pow₀ one_le_slack
  have hdigit : (1 : ℚ) ≤ digits := by exact_mod_cast hpos
  have hpower : (0 : ℚ) < 10 ^ k := by positivity
  have hk : k ≤ 308 := by
    by_contra hlarge
    have hpower' : (10 : ℚ) ^ 309 ≤ 10 ^ k := pow_le_pow_right₀ (by norm_num) (by omega)
    have hlarge : (2 : ℚ) ^ 1024 ≤ 10 ^ 309 := by
      have hnat : 2 ^ 1024 ≤ 10 ^ 309 := by decide +kernel
      exact_mod_cast hnat
    have hproduct : (10 : ℚ) ^ k ≤ limit * slack ^ 4 :=
      calc (10 : ℚ) ^ k ≤ digits * 10 ^ k := le_mul_of_one_le_left hpower.le hdigit
        _ ≤ limit := hle
        _ ≤ limit * slack ^ 4 :=
            le_mul_of_one_le_right ((mul_nonneg (Nat.cast_nonneg _) hpower.le).trans hle) hone
    exact absurd hlt (not_lt.mpr ((hlarge.trans hpower').trans hproduct))
  have hvalue : (digits : ℚ) * slack * slack * (10 ^ k * slack) * slack < 2 ^ (1024 : Int) :=
    calc (digits : ℚ) * slack * slack * (10 ^ k * slack) * slack =
          digits * 10 ^ k * slack ^ 4 := by ring
      _ ≤ limit * slack ^ 4 := mul_le_mul_of_nonneg_right hle (zero_le_one.trans hone)
      _ < 2 ^ (1024 : Int) := hlt
  have hfinite : (Float.ofNat digits * powerOfTen k).isFinite = true :=
    ((spans_ofNat hpos (by omega)).mul (spans_powerOfTen hk) hvalue).within.isFinite
  refine ⟨Float.ofNat digits * powerOfTen k, ?_⟩
  unfold scaleFloat
  rw [Int.natAbs_natCast, if_pos hk, if_pos he]
  dsimp only
  rw [if_pos hfinite]

/-- The interval of a double that is not among the largest ones ends below them. -/
theorem upper_le {bits : UInt64} (h : bits.toNat < 0x7FEFFFFFFFFFFFF0) :
    (Decimal.Binary.ofBits bits).upper ≤ (2 ^ 54 - 33) * 2 ^ (970 : Int) := by
  have hparts : (Decimal.Binary.ofBits bits).mantissa < 2 ^ 53 ∧
      ((Decimal.Binary.ofBits bits).exponent ≤ 970 ∨
        (Decimal.Binary.ofBits bits).exponent = 971 ∧
          (Decimal.Binary.ofBits bits).mantissa + 17 ≤ 2 ^ 53) := by
    unfold Decimal.Binary.ofBits
    dsimp only
    split
    · dsimp only
      omega
    · dsimp only
      omega
  generalize Decimal.Binary.ofBits bits = b at hparts
  obtain ⟨hnarrow, hexponent⟩ := hparts
  unfold Decimal.Binary.upper
  rcases hexponent with hlow | ⟨hhigh, hmantissa⟩
  · have hpower : (2 : ℚ) ^ (b.exponent - 1) ≤ 2 ^ (969 : Int) := two_zpow_le (by omega)
    have hmantissa : 2 * (b.mantissa : ℚ) + 1 ≤ 2 ^ 54 := by
      have hnat : 2 * b.mantissa + 1 ≤ 2 ^ 54 := by omega
      exact_mod_cast hnat
    calc (2 * (b.mantissa : ℚ) + 1) * 2 ^ (b.exponent - 1) ≤ 2 ^ 54 * 2 ^ (969 : Int) :=
          mul_le_mul hmantissa hpower (two_zpow_pos _).le (by positivity)
      _ = 2 ^ 53 * 2 ^ (970 : Int) := by
          rw [show (970 : Int) = 969 + 1 from rfl, zpow_add_one₀ (by norm_num)]
          ring
      _ ≤ (2 ^ 54 - 33) * 2 ^ (970 : Int) :=
          mul_le_mul_of_nonneg_right (by norm_num) (two_zpow_pos _).le
  · have hmantissa' : 2 * (b.mantissa : ℚ) + 1 ≤ 2 ^ 54 - 33 := by
      have hcast : (b.mantissa : ℚ) + 17 ≤ 2 ^ 53 := by exact_mod_cast hmantissa
      linarith
    rw [hhigh]
    exact mul_le_mul_of_nonneg_right hmantissa' (two_zpow_pos _).le

/-- The largest doubles are so close to `2^1024` that each is scaled on its own. -/
theorem scaled_largest : ∀ k < 16,
    (scaleFloat 4 (Float.ofNat (Decimal.shortest (UInt64.ofNat (0x7FEFFFFFFFFFFFF0 + k))).digits)
      (Decimal.shortest (UInt64.ofNat (0x7FEFFFFFFFFFFFF0 + k))).exponent).isSome = true := by
  decide +kernel

theorem mantissa_pos {bits : UInt64} (hpos : 0 < bits.toNat)
    (hfinite : bits.toNat < 0x7FF0000000000000) : 0 < (Decimal.Binary.ofBits bits).mantissa := by
  unfold Decimal.Binary.ofBits
  dsimp only
  split
  · dsimp only
    omega
  · dsimp only
    omega

/-- The shortest digits of a finite double are scaled to a double. -/
theorem scaled_shortest {bits : UInt64} (hpos : 0 < bits.toNat)
    (hfinite : bits.toNat < 0x7FF0000000000000) :
    ∃ y, scaleFloat 4 (Float.ofNat (Decimal.shortest bits).digits)
      (Decimal.shortest bits).exponent = some y := by
  obtain ⟨hdigits, hsmall, hupper⟩ := Decimal.shortest_bounds (mantissa_pos hpos hfinite)
  by_cases hneg : (Decimal.shortest bits).exponent < 0
  · exact scaleFloat_down 4 _ hneg
  · by_cases hlarge : 0x7FEFFFFFFFFFFFF0 ≤ bits.toNat
    · have hlargest := scaled_largest (bits.toNat - 0x7FEFFFFFFFFFFFF0) (by omega)
      rw [Nat.add_sub_cancel' hlarge, UInt64.ofNat_toNat] at hlargest
      exact Option.isSome_iff_exists.mp hlargest
    · apply scaleFloat_up hdigits hsmall (by omega) (hupper.trans (upper_le (by omega)))
      have hslack : (2 ^ 54 - 33) * slack ^ 4 < 2 ^ 54 := by
        unfold slack
        norm_num
      calc (2 ^ 54 - 33) * 2 ^ (970 : Int) * slack ^ 4 =
            (2 ^ 54 - 33) * slack ^ 4 * 2 ^ (970 : Int) := mul_right_comm _ _ _
        _ < 2 ^ 54 * 2 ^ (970 : Int) := mul_lt_mul_of_pos_right hslack (two_zpow_pos _)
        _ = 2 ^ (1024 : Int) := by
            rw [← zpow_natCast, ← zpow_add₀ (by norm_num)]
            rfl

theorem scaled_of_scaleFloat {digits : Nat} {e : Int} {y : Float} (negative : Bool)
    (h : scaleFloat 4 (Float.ofNat digits) e = some y) :
    (scaled negative digits e).map (fun v => (v, ([] : List Char))) =
      some (.num (.float (if negative then -y else y)), []) := by
  unfold scaled
  rw [h]
  rfl

/-- The text of a positive double is read behind a sign. -/
theorem magnitude_shortest {bits : UInt64} (hpos : 0 < bits.toNat)
    (hfinite : bits.toNat < 0x7FF0000000000000) (negative : Bool) :
    ∃ v, magnitude negative (Decimal.layout.write (Decimal.shortest bits)).toList =
      some (v, []) := by
  obtain ⟨hdigits, hsmall, -⟩ := Decimal.shortest_bounds (mantissa_pos hpos hfinite)
  obtain ⟨digits, e, hread, hdown | ⟨rfl, rfl⟩⟩ := magnitude_write _ hdigits hsmall negative
  · obtain ⟨y, hy⟩ := scaleFloat_down 4 (Float.ofNat digits) hdown
    exact ⟨_, hread.trans (scaled_of_scaleFloat negative hy)⟩
  · obtain ⟨y, hy⟩ := scaled_shortest hpos hfinite
    exact ⟨_, hread.trans (scaled_of_scaleFloat negative hy)⟩

theorem magnitude_zero (negative : Bool) :
    ∃ v, magnitude negative ['0', '.', '0'] = some (v, []) := by
  obtain ⟨digits, e, hread, hdown⟩ := magnitude_plain leads_zero digits_zero (by simp)
    (by decide) negative
  obtain ⟨y, hy⟩ := scaleFloat_down 4 (Float.ofNat digits) hdown
  exact ⟨_, hread.trans (scaled_of_scaleFloat negative hy)⟩

theorem number_of_magnitude {r : Json × List Char} (h : magnitude false cs = some r) :
    number cs = some r := by
  unfold number
  split
  next cs =>
    -- no digit leads such a text
    cases h
  next => exact h

/-- The text of a finite double is read. -/
theorem number_floatText {x : Float} (hx : x.isFinite = true) :
    ∃ v, number (Decimal.floatText x).toList = some (v, []) := by
  have hfinite : x.toBits.toNat % 0x8000000000000000 < 0x7FF0000000000000 := magnitude_lt hx
  have hread : ∀ negative, ∃ v, magnitude negative
      (if x.toBits.toNat % 0x8000000000000000 = 0 then ['0', '.', '0']
        else (Decimal.layout.write (Decimal.shortest
          (UInt64.ofNat (x.toBits.toNat % 0x8000000000000000)))).toList) = some (v, []) := by
    intro negative
    split
    · exact magnitude_zero negative
    next hzero =>
      have hbits : (UInt64.ofNat (x.toBits.toNat % 0x8000000000000000)).toNat =
          x.toBits.toNat % 0x8000000000000000 := by
        rw [UInt64.toNat_ofNat', Nat.mod_eq_of_lt (by omega)]
      exact magnitude_shortest (by omega) (by omega) negative
  unfold Decimal.floatText
  dsimp only
  by_cases hsign : x.toBits.toNat / 0x8000000000000000 = 1
  · obtain ⟨v, hv⟩ := hread true
    refine ⟨v, ?_⟩
    rw [← hv, if_pos hsign]
    split <;> simp [number]
  · obtain ⟨v, hv⟩ := hread false
    refine ⟨v, number_of_magnitude ?_⟩
    rw [← hv, if_neg hsign]
    split <;> simp

end Json.Reader

/-! ### Numbers -/

/-- What the text of a number is read as; the number itself if that is none. -/
def Number.echo (n : Number) : Number :=
  match Json.Reader.number n.text.toList with
  | some (.num m, []) => m
  | _ => n

/-- The text of a number is read as a number. -/
def Number.Legible (n : Number) : Prop :=
  Json.Reader.number n.text.toList = some (.num n.echo, [])

/-- The text of a number is read as this number. -/
def Number.ReadsBack (n : Number) : Prop :=
  Json.Reader.number n.text.toList = some (.num n, [])

namespace Number

variable {n : Number}

theorem ReadsBack.echo (h : n.ReadsBack) : n.echo = n := by
  unfold ReadsBack at h
  unfold Number.echo
  rw [h]

theorem ReadsBack.legible (h : n.ReadsBack) : n.Legible := by
  unfold Legible
  rw [h.echo]
  exact h

/-- Whole numbers read back. -/
theorem readsBack_int {i : Int} (hi : InRange i) : (int i).ReadsBack :=
  Json.Reader.number_intText hi

/-- The text of a number that JSON can hold is read as such a number. -/
theorem Legal.legible (h : n.Legal) : n.Legible ∧ n.echo.Legal := by
  have hread : ∃ v, Json.Reader.number n.text.toList = some (v, []) := by
    cases n with
    | int i => exact ⟨_, readsBack_int h⟩
    | float x => exact Json.Reader.number_floatText h
  obtain ⟨v, hv⟩ := hread
  obtain ⟨m, rfl, hm⟩ := Json.Reader.number_legal hv
  have hecho : n.echo = m := by
    unfold Number.echo
    rw [hv]
  unfold Legible
  rw [hecho]
  exact ⟨hv, hm⟩

end Number

end RecordGate

import RecordGate.Base64

/-! # Base64 there and back

  Both forms write six bits as one character, and differ in two characters and
  in the padding.

  **Key idea.** A digit of one form is read by the other as the same number or
  not at all (`Foreign`). So a text of one form means the same bytes in the
  other, or none.

  - `decode_encode`: each form reads what it writes, whatever is left for the
    last group.
  - `decode_eq_some`: and nothing else, so bytes have one text in each form.
  - `decode_foreign`: what a form makes of the texts of another.
  - `mem_encodeChars`, `length_encodeChars`: the characters of a text.
-/

namespace RecordGate.Base64

/-- A form reads its own digits, and its padding is none of them. -/
structure Form.Sound (f : Form) : Prop where
  /-- A digit is read as its number. -/
  digits : ∀ n < 64, f.value? (f.digit n) = some n
  /-- The padding is no digit. -/
  padding : f.value? '=' = none

/-- A form reads the digits of another as the same numbers, if at all, and only
    one of them pads. -/
structure Form.Foreign (f g : Form) : Prop where
  /-- A digit of the other form is read as its number, or not. -/
  digits : ∀ n < 64, f.value? (g.digit n) = some n ∨ f.value? (g.digit n) = none
  /-- One form pads. -/
  padded : f.padded = !g.padded

theorem Form.standard_sound : standard.Sound := ⟨by decide, by decide⟩

theorem Form.urlSafe_sound : urlSafe.Sound := ⟨by decide, by decide⟩

theorem Form.standard_foreign : standard.Foreign urlSafe := ⟨by decide, rfl⟩

theorem Form.urlSafe_foreign : urlSafe.Foreign standard := ⟨by decide, rfl⟩

variable {f g : Form} {x y z w : Char} {a b c d : Nat} {rest : List Char} {bs : List UInt8}

theorem Form.Sound.digit_ne (h : f.Sound) (ha : a < 64) : f.digit a ≠ '=' := by
  intro hpad
  have hread := h.digits a ha
  rw [hpad, h.padding] at hread
  cases hread

/-! ### Groups -/

/-- A group of four digits. -/
theorem decodeChars_group (hx : f.value? x = some a) (hy : f.value? y = some b)
    (hz : f.value? z = some c) (hw : f.value? w = some d) (rest : List Char) :
    decodeChars f (x :: y :: z :: w :: rest) = (decodeChars f rest).map
      ([UInt8.ofNat (a * 4 + b / 16), UInt8.ofNat (b % 16 * 16 + c / 4),
        UInt8.ofNat (c % 4 * 64 + d)] ++ ·) := by
  simp only [decodeChars, hx, hy, hz, hw]

/-- Four characters that are not all digits are the last group. -/
theorem decodeChars_final (h : f.value? x = none ∨ f.value? y = none ∨ f.value? z = none ∨
    f.value? w = none) (rest : List Char) :
    decodeChars f (x :: y :: z :: w :: rest) = decodeFinal f (x :: y :: z :: w :: rest) := by
  simp only [decodeChars]
  split
  next hx hy hz hw => simp [hx, hy, hz, hw] at h
  · rfl

/-- The last group has four characters only where it is padded. -/
theorem decodeFinal_long (hw : f.padded = true → w ≠ '=') (rest : List Char) :
    decodeFinal f (x :: y :: z :: w :: rest) = none := by
  unfold decodeFinal
  split
  next hpadded =>
    split
    next heq => exact absurd heq (by simp)
    next heq =>
      cases heq
      exact absurd rfl (hw hpadded)
    next heq =>
      cases heq
      exact absurd rfl (hw hpadded)
    · rfl
  · rfl

/-- A last group of two digits. -/
theorem decodeChars_two (h : f.Sound) (x y : Char) :
    decodeChars f ([x, y] ++ f.pad 2) = decodeLast f [x, y] := by
  unfold Form.pad
  cases hpadded : f.padded with
  | true =>
    show decodeChars f [x, y, '=', '='] = _
    rw [decodeChars_final (.inr (.inr (.inl h.padding)))]
    simp [decodeFinal, hpadded]
  | false => simp [decodeChars, decodeFinal, hpadded]

/-- A last group of three digits. -/
theorem decodeChars_three (h : f.Sound) (hz : z ≠ '=') (x y : Char) :
    decodeChars f ([x, y, z] ++ f.pad 1) = decodeLast f [x, y, z] := by
  unfold Form.pad
  cases hpadded : f.padded with
  | true =>
    show decodeChars f [x, y, z, '='] = _
    rw [decodeChars_final (.inr (.inr (.inr h.padding)))]
    unfold decodeFinal
    rw [if_pos hpadded]
    split
    next heq => cases heq
    next heq =>
      cases heq
      exact absurd rfl hz
    next heq =>
      cases heq
      rfl
    next hother => exact absurd rfl (hother x y z)
  | false => simp [decodeChars, decodeFinal, hpadded]

/-- A form does not read the last group of another: padding is no digit where it
    is not asked for, and missing where it is. -/
theorem decodeChars_foreign_last (hf : f.Sound) (h : f.Foreign g) (x y z : Char) :
    decodeChars f ([x, y] ++ g.pad 2) = none ∧ decodeChars f ([x, y, z] ++ g.pad 1) = none := by
  unfold Form.pad
  cases hg : g.padded with
  | true =>
    have hbare : f.padded = false := by
      rw [h.padded, hg]
      rfl
    have hlong : ∀ x y z w, decodeFinal f [x, y, z, w] = none := by
      intro x y z w
      exact decodeFinal_long (fun hpadded => absurd hpadded (by simp [hbare])) []
    constructor
    · show decodeChars f [x, y, '=', '='] = none
      rw [decodeChars_final (.inr (.inr (.inl hf.padding))), hlong]
    · show decodeChars f [x, y, z, '='] = none
      rw [decodeChars_final (.inr (.inr (.inr hf.padding))), hlong]
  | false =>
    have hpadded : f.padded = true := by
      rw [h.padded, hg]
      rfl
    simp [decodeChars, decodeFinal, hpadded]

/-! ### Whole texts -/

/-- Six bits of three bytes make the bytes again. -/
theorem bytes_of_group (p q r : UInt8) :
    let n := (p.toNat * 256 + q.toNat) * 256 + r.toNat
    [UInt8.ofNat (n / 262144 * 4 + n / 4096 % 64 / 16),
      UInt8.ofNat (n / 4096 % 64 % 16 * 16 + n / 64 % 64 / 4),
      UInt8.ofNat (n / 64 % 64 % 4 * 64 + n % 64)] = [p, q, r] := by
  intro n
  have hp := p.toNat_lt
  have hq := q.toNat_lt
  have hr := r.toNat_lt
  have h₁ : n / 262144 * 4 + n / 4096 % 64 / 16 = p.toNat := by omega
  have h₂ : n / 4096 % 64 % 16 * 16 + n / 64 % 64 / 4 = q.toNat := by omega
  have h₃ : n / 64 % 64 % 4 * 64 + n % 64 = r.toNat := by omega
  rw [h₁, h₂, h₃, UInt8.ofNat_toNat, UInt8.ofNat_toNat, UInt8.ofNat_toNat]

/-- A form reads what it writes. -/
theorem decodeChars_encodeChars (h : f.Sound) (bs : List UInt8) :
    decodeChars f (encodeChars f bs) = some bs := by
  fun_induction encodeChars f bs with
  | case1 =>
    unfold decodeChars decodeFinal
    cases f.padded <;> rfl
  | case2 p n =>
    have hp := p.toNat_lt
    have hbyte : n / 4 * 4 + n % 4 * 16 / 16 = p.toNat := by omega
    -- the bits to spare are zero
    have hspare : n % 4 * 16 % 16 = 0 := by omega
    rw [decodeChars_two h]
    simp only [decodeLast, h.digits (n / 4) (by omega), h.digits (n % 4 * 16) (by omega),
      Option.bind_eq_bind, Option.bind_some, hbyte, hspare, UInt8.ofNat_toNat, if_true]
  | case3 p q n =>
    have hp := p.toNat_lt
    have hq := q.toNat_lt
    have hfirst : n / 1024 * 4 + n / 16 % 64 / 16 = p.toNat := by omega
    have hsecond : n / 16 % 64 % 16 * 16 + n % 16 * 4 / 4 = q.toNat := by omega
    have hspare : n % 16 * 4 % 4 = 0 := by omega
    rw [decodeChars_three h (h.digit_ne (by omega))]
    simp only [decodeLast, h.digits (n / 1024) (by omega), h.digits (n / 16 % 64) (by omega),
      h.digits (n % 16 * 4) (by omega), Option.bind_eq_bind, Option.bind_some, hfirst, hsecond,
      hspare, UInt8.ofNat_toNat, if_true]
  | case4 p q r rest n ih =>
    have hp := p.toNat_lt
    have hq := q.toNat_lt
    have hr := r.toNat_lt
    rw [decodeChars_group (h.digits (n / 262144) (by omega)) (h.digits (n / 4096 % 64) (by omega))
      (h.digits (n / 64 % 64) (by omega)) (h.digits (n % 64) (by omega)), ih,
      bytes_of_group p q r]
    rfl

/-- What a form makes of the texts of another: the same bytes, or nothing. -/
theorem decodeChars_foreign (hf : f.Sound) (hg : g.Sound) (h : f.Foreign g) (bs : List UInt8) :
    decodeChars f (encodeChars g bs) = some bs ∨ decodeChars f (encodeChars g bs) = none := by
  fun_induction encodeChars g bs with
  | case1 =>
    left
    unfold decodeChars decodeFinal
    cases f.padded <;> rfl
  | case2 p n =>
    right
    exact (decodeChars_foreign_last hf h _ _ '=').1
  | case3 p q n =>
    right
    exact (decodeChars_foreign_last hf h _ _ _).2
  | case4 p q r rest n ih =>
    have hp := p.toNat_lt
    have hq := q.toNat_lt
    have hr := r.toNat_lt
    have hx := h.digits (n / 262144) (by omega)
    have hy := h.digits (n / 4096 % 64) (by omega)
    have hz := h.digits (n / 64 % 64) (by omega)
    have hw := h.digits (n % 64) (by omega)
    -- one digit that is not read makes these four the last group, which they are not
    by_cases hall : f.value? (g.digit (n / 262144)) = none ∨
        f.value? (g.digit (n / 4096 % 64)) = none ∨ f.value? (g.digit (n / 64 % 64)) = none ∨
        f.value? (g.digit (n % 64)) = none
    · right
      rw [decodeChars_final hall, decodeFinal_long fun _ => hg.digit_ne (by omega)]
    · simp only [not_or] at hall
      rw [decodeChars_group (hx.resolve_right hall.1) (hy.resolve_right hall.2.1)
        (hz.resolve_right hall.2.2.1) (hw.resolve_right hall.2.2.2), bytes_of_group p q r]
      rcases ih with hsome | hnone
      · left
        rw [hsome]
        rfl
      · right
        rw [hnone]
        rfl

theorem decode_encode (h : f.Sound) (bs : List UInt8) : decode f (encode f bs) = some bs := by
  unfold decode encode
  rw [String.toList_ofList, decodeChars_encodeChars h]

theorem decode_foreign (hf : f.Sound) (hg : g.Sound) (h : f.Foreign g) (bs : List UInt8) :
    decode f (encode g bs) = some bs ∨ decode f (encode g bs) = none := by
  unfold decode encode
  rw [String.toList_ofList]
  exact decodeChars_foreign hf hg h bs

/-! ### One text for each list of bytes -/

/-- The alphabet has one character for each number. -/
theorem Form.digit_of_value? {n : Nat} (h : f.value? x = some n) : n < 64 ∧ f.digit n = x := by
  unfold Form.value? at h
  -- the five parts of the alphabet, in order
  by_cases hupper : x.isUpper = true
  · rw [if_pos hupper] at h
    cases h
    have hrange : 65 ≤ x.toNat ∧ x.toNat ≤ 90 := of_decide_eq_true hupper
    refine ⟨by omega, ?_⟩
    simp only [Form.digit, show x.toNat - 65 < 26 by omega, if_true]
    rw [show 65 + (x.toNat - 65) = x.toNat by omega]
    exact Char.ofNat_toNat x
  rw [if_neg hupper] at h
  by_cases hlower : x.isLower = true
  · rw [if_pos hlower] at h
    cases h
    have hrange : 97 ≤ x.toNat ∧ x.toNat ≤ 122 := by
      have hboth := Bool.and_eq_true_iff.mp hlower
      exact ⟨of_decide_eq_true hboth.1, of_decide_eq_true hboth.2⟩
    refine ⟨by omega, ?_⟩
    simp only [Form.digit, show ¬ x.toNat - 71 < 26 by omega, show x.toNat - 71 < 52 by omega,
      if_true, if_false]
    rw [show 71 + (x.toNat - 71) = x.toNat by omega]
    exact Char.ofNat_toNat x
  rw [if_neg hlower] at h
  by_cases hdigit : x.isDigit = true
  · rw [if_pos hdigit] at h
    cases h
    have hrange : 48 ≤ x.toNat ∧ x.toNat ≤ 57 := by
      simpa [Char.isDigit, UInt32.le_iff_toNat_le] using hdigit
    refine ⟨by omega, ?_⟩
    simp only [Form.digit, show ¬ x.toNat + 4 < 26 by omega, show ¬ x.toNat + 4 < 52 by omega,
      show x.toNat + 4 < 62 by omega, if_true, if_false]
    rw [show x.toNat + 4 - 4 = x.toNat by omega]
    exact Char.ofNat_toNat x
  rw [if_neg hdigit] at h
  by_cases hfirst : x = f.tail.1
  · rw [if_pos hfirst] at h
    cases h
    exact ⟨by omega, hfirst.symm⟩
  rw [if_neg hfirst] at h
  by_cases hsecond : x = f.tail.2
  · rw [if_pos hsecond] at h
    cases h
    exact ⟨by omega, hsecond.symm⟩
  · rw [if_neg hsecond] at h
    cases h

/-- Six bits and two more make a byte. -/
theorem toNat_byte {n : Nat} (hn : n < 256) : (UInt8.ofNat n).toNat = n := by
  rw [UInt8.toNat_ofNat']
  omega

/-- What is read from a last group is written as this group and its padding. -/
theorem encodeChars_of_decodeLast {cs : List Char} (h : decodeLast f cs = some bs) :
    encodeChars f bs = cs ++ f.pad ((4 - cs.length) % 4) := by
  unfold decodeLast at h
  split at h
  · cases h
    unfold Form.pad
    split <;> rfl
  next x y =>
    obtain ⟨a, hx, hrest⟩ := Option.bind_eq_some_iff.mp h
    obtain ⟨b, hy, hbyte⟩ := Option.bind_eq_some_iff.mp hrest
    obtain ⟨ha, hxa⟩ := Form.digit_of_value? hx
    obtain ⟨hb, hyb⟩ := Form.digit_of_value? hy
    -- the bits to spare are zero, so the second digit is made of the byte alone
    split at hbyte
    next hspare =>
      cases hbyte
      have hp := toNat_byte (show a * 4 + b / 16 < 256 by omega)
      simp only [encodeChars, hp]
      rw [show (a * 4 + b / 16) / 4 = a by omega, show (a * 4 + b / 16) % 4 * 16 = b by omega,
        hxa, hyb]
      rfl
    · cases hbyte
  next x y z =>
    obtain ⟨a, hx, hrest⟩ := Option.bind_eq_some_iff.mp h
    obtain ⟨b, hy, hrest⟩ := Option.bind_eq_some_iff.mp hrest
    obtain ⟨c, hz, hbytes⟩ := Option.bind_eq_some_iff.mp hrest
    obtain ⟨ha, hxa⟩ := Form.digit_of_value? hx
    obtain ⟨hb, hyb⟩ := Form.digit_of_value? hy
    obtain ⟨hc, hzc⟩ := Form.digit_of_value? hz
    split at hbytes
    next hspare =>
      cases hbytes
      have hp := toNat_byte (show a * 4 + b / 16 < 256 by omega)
      have hq := toNat_byte (show b % 16 * 16 + c / 4 < 256 by omega)
      simp only [encodeChars, hp, hq]
      generalize hn : (a * 4 + b / 16) * 256 + (b % 16 * 16 + c / 4) = n
      rw [show n / 1024 = a by omega, show n / 16 % 64 = b by omega, show n % 16 * 4 = c by omega,
        hxa, hyb, hzc]
      rfl
    · cases hbytes
  · cases h

theorem encodeChars_of_decodeFinal {cs : List Char} (h : decodeFinal f cs = some bs) :
    encodeChars f bs = cs := by
  unfold decodeFinal at h
  split at h
  next hpadded =>
    split at h
    · cases h
      rfl
    · rw [encodeChars_of_decodeLast h]
      simp [Form.pad, hpadded]
    · rw [encodeChars_of_decodeLast h]
      simp [Form.pad, hpadded]
    · cases h
  next hbare =>
    rw [encodeChars_of_decodeLast h]
    simp [Form.pad, hbare]

/-- A form reads nothing but what it writes. -/
theorem encodeChars_of_decodeChars {cs : List Char} (h : decodeChars f cs = some bs) :
    encodeChars f bs = cs := by
  fun_induction decodeChars f cs generalizing bs with
  | case1 x y z w rest a b c d hx hy hz hw ih =>
    obtain ⟨bs', hrest, rfl⟩ := Option.map_eq_some_iff.mp h
    obtain ⟨ha, hxa⟩ := Form.digit_of_value? hx
    obtain ⟨hb, hyb⟩ := Form.digit_of_value? hy
    obtain ⟨hc, hzc⟩ := Form.digit_of_value? hz
    obtain ⟨hd, hwd⟩ := Form.digit_of_value? hw
    have hp := toNat_byte (show a * 4 + b / 16 < 256 by omega)
    have hq := toNat_byte (show b % 16 * 16 + c / 4 < 256 by omega)
    have hr := toNat_byte (show c % 4 * 64 + d < 256 by omega)
    simp only [List.cons_append, List.nil_append, encodeChars, hp, hq, hr, ih hrest]
    generalize hn : ((a * 4 + b / 16) * 256 + (b % 16 * 16 + c / 4)) * 256 + (c % 4 * 64 + d) = n
    rw [show n / 262144 = a by omega, show n / 4096 % 64 = b by omega,
      show n / 64 % 64 = c by omega, show n % 64 = d by omega, hxa, hyb, hzc, hwd]
  | case2 => exact encodeChars_of_decodeFinal h
  | case3 => exact encodeChars_of_decodeFinal h

/-- Bytes are read from their own text and from no other. -/
theorem decode_eq_some (h : f.Sound) {s : String} : decode f s = some bs ↔ s = encode f bs := by
  constructor
  · intro hread
    have hchars : encodeChars f bs = s.toList := encodeChars_of_decodeChars hread
    unfold encode
    rw [hchars, String.ofList_toList]
  · rintro rfl
    exact decode_encode h bs

/-! ### Characters -/

/-- Four characters are written for three bytes; the last group is filled up, or
    as short as it can be. -/
theorem length_encodeChars (f : Form) (bs : List UInt8) :
    (encodeChars f bs).length =
      if f.padded then (bs.length + 2) / 3 * 4 else (bs.length * 4 + 2) / 3 := by
  have hpad : ∀ k, (f.pad k).length = if f.padded then k else 0 := by
    intro k
    unfold Form.pad
    split <;> simp
  fun_induction encodeChars f bs with
  | case1 => simp
  | case2 p n =>
    rw [List.length_append, hpad]
    split <;> simp
  | case3 p q n =>
    rw [List.length_append, hpad]
    split <;> simp
  | case4 p q r rest n ih =>
    simp only [List.length_cons, ih]
    split <;> omega

/-- A text consists of digits and padding. -/
theorem mem_encodeChars {t : Char} (h : t ∈ encodeChars f bs) :
    t = '=' ∨ ∃ n < 64, t = f.digit n := by
  have hpad : ∀ k, t ∈ f.pad k → t = '=' := by
    intro k hk
    unfold Form.pad at hk
    split at hk
    · exact List.eq_of_mem_replicate hk
    · cases hk
  fun_induction encodeChars f bs with
  | case1 => cases h
  | case2 p n =>
    have hp := p.toNat_lt
    rcases List.mem_append.mp h with hdigit | hk
    · right
      simp only [List.mem_cons, List.not_mem_nil, or_false] at hdigit
      rcases hdigit with hx | hy
      · exact ⟨n / 4, by omega, hx⟩
      · exact ⟨n % 4 * 16, by omega, hy⟩
    · exact .inl (hpad 2 hk)
  | case3 p q n =>
    have hp := p.toNat_lt
    have hq := q.toNat_lt
    rcases List.mem_append.mp h with hdigit | hk
    · right
      simp only [List.mem_cons, List.not_mem_nil, or_false] at hdigit
      rcases hdigit with hx | hy | hz
      · exact ⟨n / 1024, by omega, hx⟩
      · exact ⟨n / 16 % 64, by omega, hy⟩
      · exact ⟨n % 16 * 4, by omega, hz⟩
    · exact .inl (hpad 1 hk)
  | case4 p q r rest n ih =>
    have hp := p.toNat_lt
    have hq := q.toNat_lt
    have hr := r.toNat_lt
    simp only [List.mem_cons] at h
    rcases h with hx | hy | hz | hw | hrest
    · exact .inr ⟨n / 262144, by omega, hx⟩
    · exact .inr ⟨n / 4096 % 64, by omega, hy⟩
    · exact .inr ⟨n / 64 % 64, by omega, hz⟩
    · exact .inr ⟨n % 64, by omega, hw⟩
    · exact ih hrest

end RecordGate.Base64

import RecordGate.Proofs.StoredForm

/-! # Texts of identifiers

  An identifier is read from digits of either case and written in lower case.

  **Key idea.** There are three readings of a text: whether it is valid, what it
  is read as, and its letters in lower case. They come to the same: a text is
  valid exactly if it is read as an identifier, and in lower case it is then the
  stored form of that identifier.

  - `ObjectId.parse_toHex`: identifiers are read from their digits.
  - `ObjectId.isValid_iff`, `ObjectId.lower_of_parse`: the three readings.
  - `ObjectId.lower_eq_iff`: equal up to case is the same identifier.
-/

namespace RecordGate

/-! ### Pairs of digits -/

namespace Hex
variable {position : Nat} {text bytes : List UInt8}

theorem value?_digit : ∀ n < 16, value? (UInt8.ofNat (digit n).toNat) = some (UInt8.ofNat n) := by
  decide

/-- The digits of some bytes are read as these bytes. -/
theorem decodePairs_encodeChars (position : Nat) (bytes : List UInt8) :
    decodePairs position ((encodeChars bytes).map fun c => UInt8.ofNat c.toNat) = .ok bytes := by
  induction bytes generalizing position with
  | nil => rfl
  | cons b bytes ih =>
    have hb : b.toNat < 256 := b.toNat_lt
    have hhigh := value?_digit (b.toNat / 16) (by omega)
    have hlow := value?_digit (b.toNat % 16) (by omega)
    have hbyte : UInt8.ofNat (b.toNat / 16) * 16 + UInt8.ofNat (b.toNat % 16) = b := by
      apply UInt8.toNat_inj.mp
      simp only [UInt8.toNat_add, UInt8.toNat_mul, UInt8.toNat_ofNat', UInt8.reduceToNat]
      omega
    show decodePairs position (UInt8.ofNat (digit (b.toNat / 16)).toNat ::
      UInt8.ofNat (digit (b.toNat % 16)).toNat ::
      (encodeChars bytes).map fun c => UInt8.ofNat c.toNat) = .ok (b :: bytes)
    unfold decodePairs
    rw [hhigh, hlow]
    dsimp only
    rw [ih (position + 2), hbyte]
    rfl

theorem isLower_ascii {c : Char} (h : IsLower c) : c.toNat < 0x80 := by
  have hlower : "0123456789abcdef".toList.all (fun d => d.toNat < 0x80) = true := by decide
  exact of_decide_eq_true (List.all_eq_true.mp hlower c h)

/-- A digit of either case is of ASCII, and in lower case it is the digit of its
    value. -/
theorem lower_of_value? {b v : UInt8} (h : value? b = some v) :
    b.toNat < 0x80 ∧ v.toNat < 16 ∧ (Char.ofNat b.toNat).toLower = digit v.toNat := by
  have hall : ∀ n < 256, ∀ v, value? (UInt8.ofNat n) = some v →
      n < 0x80 ∧ v.toNat < 16 ∧ (Char.ofNat n).toLower = digit v.toNat := by
    have hcheck : ∀ n < 256, (value? (UInt8.ofNat n)).all (fun v =>
        n < 0x80 ∧ v.toNat < 16 ∧ (Char.ofNat n).toLower = digit v.toNat) = true := by
      decide +kernel
    intro n hn v hv
    simpa [hv] using hcheck n hn
  exact hall b.toNat b.toNat_lt v (by rwa [UInt8.ofNat_toNat])

/-- A character is no blank if it is a digit in lower case. -/
theorem isBlank_of_toLower {c : Char} (h : IsLower c.toLower) : Text.isBlank c = false := by
  by_cases hupper : c.val ≥ 'A'.val ∧ c.val ≤ 'Z'.val
  · have hfirst : 65 ≤ c.toNat := hupper.1
    have hlast : c.toNat ≤ 90 := hupper.2
    simp only [Text.isBlank, Bool.or_eq_false_iff, Bool.and_eq_false_iff, decide_eq_false_iff_not]
    omega
  · unfold Char.toLower at h
    rw [dif_neg hupper] at h
    exact isBlank_of_isLower h

/-- A byte of two digits has them as its halves. -/
theorem toNat_pair {high low : UInt8} (hhigh : high.toNat < 16) (hlow : low.toNat < 16) :
    (high * 16 + low).toNat / 16 = high.toNat ∧ (high * 16 + low).toNat % 16 = low.toNat := by
  simp only [UInt8.toNat_add, UInt8.toNat_mul, UInt8.reduceToNat]
  omega

/-- An even number of digits can be read, and nothing else. -/
theorem decodePairs_ok_iff (position : Nat) :
    (∃ bytes, decodePairs position text = .ok bytes) ↔
      text.length % 2 = 0 ∧ text.all isDigit = true := by
  fun_induction decodePairs position text with
  | case1 => simp
  | case2 => simp
  | case3 position high low rest hhigh => simp [isDigit, hhigh]
  | case4 position high low rest hi hlow hhigh => simp [isDigit, hhigh, hlow]
  | case5 position high low rest hi lo hlow hhigh ih =>
    have hcount : (high :: low :: rest).length % 2 = rest.length % 2 := by
      simp only [List.length_cons]
      omega
    have hdigits : (high :: low :: rest).all isDigit = rest.all isDigit := by
      simp [isDigit, hhigh, hlow]
    rw [hcount, hdigits, ← ih]
    cases decodePairs (position + 2) rest <;> simp [Except.map]

/-- The digits that were read are of ASCII, and in lower case they are the digits
    of what was read. -/
theorem lower_of_decodePairs (h : decodePairs position text = .ok bytes) :
    (∀ b ∈ text, b.toNat < 0x80) ∧
      text.map (fun b => (Char.ofNat b.toNat).toLower) = encodeChars bytes := by
  fun_induction decodePairs position text generalizing bytes with
  | case1 =>
    cases h
    exact ⟨nofun, rfl⟩
  | case2 => cases h
  | case3 => cases h
  | case4 => cases h
  | case5 position high low rest hi lo hlow hhigh ih =>
    cases hrest : decodePairs (position + 2) rest with
    | error fault => rw [hrest] at h; cases h
    | ok bytes' =>
      rw [hrest] at h
      cases h
      obtain ⟨hascii, hlower⟩ := ih hrest
      obtain ⟨hhighAscii, hhi, hhighLower⟩ := lower_of_value? hhigh
      obtain ⟨hlowAscii, hlo, hlowLower⟩ := lower_of_value? hlow
      obtain ⟨hdiv, hmod⟩ := toNat_pair hhi hlo
      constructor
      · exact List.forall_mem_cons.mpr ⟨hhighAscii, List.forall_mem_cons.mpr ⟨hlowAscii, hascii⟩⟩
      · show _ = ofByte (hi * 16 + lo) ++ encodeChars bytes'
        unfold ofByte
        rw [List.map_cons, List.map_cons, hhighLower, hlowLower, hlower, hdiv, hmod]
        rfl

/-- A character is a digit of either case if it is one in lower case. -/
theorem isDigit_of_toLower {c : Char} (h : IsLower c.toLower) :
    c.toNat < 0x80 ∧ isDigit (UInt8.ofNat c.toNat) = true := by
  have hcheck : ∀ n < 0x80, IsLower (Char.ofNat n).toLower → isDigit (UInt8.ofNat n) = true := by
    unfold IsLower
    decide +kernel
  have hascii : c.toNat < 0x80 := by
    by_cases hupper : c.val ≥ 'A'.val ∧ c.val ≤ 'Z'.val
    · have hlast : c.toNat ≤ 90 := hupper.2
      omega
    · unfold Char.toLower at h
      rw [dif_neg hupper] at h
      exact isLower_ascii h
  refine ⟨hascii, hcheck c.toNat hascii ?_⟩
  rw [Char.ofNat_toNat]
  exact h

/-- A text is read as some bytes exactly if in lower case it writes them. -/
theorem decodePairs_eq_ok {s : String} :
    decodePairs 0 (Text.bytes s) = .ok bytes ↔ s.toList.map Char.toLower = encodeChars bytes := by
  have hreads : ∀ read, decodePairs 0 (Text.bytes s) = .ok read →
      s.toList.map Char.toLower = encodeChars read := by
    intro read h
    obtain ⟨hascii, hlower⟩ := lower_of_decodePairs h
    rw [Text.toList_of_ascii hascii, List.map_map, ← hlower]
    rfl
  constructor
  · exact hreads bytes
  · intro h
    have hdigits : ∀ c ∈ s.toList, c.toNat < 0x80 ∧ isDigit (UInt8.ofNat c.toNat) = true := by
      intro c hc
      apply isDigit_of_toLower
      exact isLower_encodeChars (h ▸ List.mem_map_of_mem hc)
    have hbytes : Text.bytes s = s.toList.map fun c => UInt8.ofNat c.toNat := by
      have hofList := Text.bytes_ascii fun c hc => (hdigits c hc).1
      rwa [String.ofList_toList] at hofList
    have hlength : s.toList.length = 2 * bytes.length := by
      rw [← length_encodeChars, ← h, List.length_map]
    have hall : (Text.bytes s).all isDigit = true := by
      rw [hbytes, List.all_map, List.all_eq_true]
      exact fun c hc => (hdigits c hc).2
    have heven : (Text.bytes s).length % 2 = 0 := by
      rw [hbytes, List.length_map]
      omega
    -- something is read, and it is what the lower-case text writes
    obtain ⟨read, hread⟩ := (decodePairs_ok_iff 0).mpr ⟨heven, hall⟩
    have hsame : encode read = encode bytes := by
      unfold encode
      rw [← hreads read hread, h]
    rw [hread, encode_injective hsame]

/-- Two digits are read for each byte. -/
theorem length_of_decodePairs (h : decodePairs position text = .ok bytes) :
    text.length = 2 * bytes.length := by
  rw [← length_encodeChars, ← (lower_of_decodePairs h).2, List.length_map]

/-- So many bytes are read from twice as many digits. -/
theorem decode_eq_ok {count : Nat} : decode count text = .ok bytes ↔
    text.length = 2 * count ∧ decodePairs 0 text = .ok bytes := by
  unfold decode
  by_cases hlength : text.length = 2 * count
  · have heven : ¬ text.length % 2 = 1 := by omega
    rw [if_neg heven, if_neg (not_not_intro hlength)]
    exact (and_iff_right hlength).symm
  · refine iff_of_false ?_ fun h => hlength h.1
    by_cases hodd : text.length % 2 = 1
    · simp [hodd]
    · simp [hodd, hlength]

end Hex

/-! ### Identifiers -/

namespace ObjectId
variable {s t : String} {id : ObjectId}

/-- A text is read as an identifier if it is twice twelve bytes of digits. -/
theorem parse_eq_ok :
    parse s = .ok id ↔ (Text.bytes s).length = 24 ∧
      Hex.decodePairs 0 (Text.bytes s) = .ok id.bytes := by
  constructor
  · intro h
    unfold parse at h
    split at h
    · cases h
    next bytes hdecode =>
      by_cases htwelve : bytes.length = 12
      · rw [dif_pos htwelve] at h
        cases h
        exact Hex.decode_eq_ok.mp hdecode
      · rw [dif_neg htwelve] at h
        cases h
  · intro h
    have hdecode : Hex.decode 12 (Text.bytes s) = .ok id.bytes := Hex.decode_eq_ok.mpr h
    unfold parse
    rw [hdecode]
    exact dif_pos id.length_eq

/-- An identifier is read from its digits. -/
theorem parse_toHex (id : ObjectId) : parse id.toHex = .ok id := by
  have hlower := (isText_toHex id).2
  unfold toHex Hex.encode at hlower
  rw [String.toList_ofList] at hlower
  have hbytes : Text.bytes id.toHex = (Hex.encodeChars id.bytes).map fun c => UInt8.ofNat c.toNat :=
    Text.bytes_ascii fun c hc => Hex.isLower_ascii (hlower c hc)
  rw [parse_eq_ok, hbytes, List.length_map, Hex.length_encodeChars, id.length_eq]
  exact ⟨rfl, Hex.decodePairs_encodeChars 0 id.bytes⟩

/-- A text is valid exactly if it is read as an identifier. -/
theorem isValid_iff : isValid s = true ↔ ∃ id, parse s = .ok id := by
  unfold isValid
  rw [Bool.and_eq_true, decide_eq_true_iff]
  constructor
  · rintro ⟨hlength, hdigits⟩
    obtain ⟨bytes, hbytes⟩ := (Hex.decodePairs_ok_iff 0).mpr ⟨by rw [hlength], hdigits⟩
    have htwelve : bytes.length = 12 := by
      have hcount := Hex.length_of_decodePairs hbytes
      omega
    exact ⟨⟨bytes, htwelve⟩, parse_eq_ok.mpr ⟨hlength, hbytes⟩⟩
  · rintro ⟨id, hid⟩
    obtain ⟨hlength, hbytes⟩ := parse_eq_ok.mp hid
    exact ⟨hlength, ((Hex.decodePairs_ok_iff 0).mp ⟨_, hbytes⟩).2⟩

/-- In lower case, a text is the stored form of what it is read as. -/
theorem lower_of_parse (h : parse s = .ok id) : s.toList.map Char.toLower = id.toHex.toList := by
  unfold toHex Hex.encode
  rw [String.toList_ofList]
  exact Hex.decodePairs_eq_ok.mp (parse_eq_ok.mp h).2

/-- What is read as an identifier has no blanks around it. -/
theorem trim_of_parse (h : parse s = .ok id) : Text.trim s = s := by
  refine Text.trim_eq_self fun c hc => ?_
  have hmem : c.toLower ∈ id.toHex.toList := lower_of_parse h ▸ List.mem_map_of_mem hc
  exact Hex.isBlank_of_toLower ((isText_toHex id).2 _ hmem)

/-- Two texts that are read as identifiers are equal up to case exactly if they
    are read as the same one. -/
theorem lower_eq_iff {id id' : ObjectId} (hs : parse s = .ok id) (ht : parse t = .ok id') :
    s.toList.map Char.toLower = t.toList.map Char.toLower ↔ id = id' := by
  rw [lower_of_parse hs, lower_of_parse ht, String.toList_inj]
  exact ⟨toHex_injective, congrArg toHex⟩

end ObjectId

end RecordGate

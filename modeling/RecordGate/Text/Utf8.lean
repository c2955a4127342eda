/-! # Strings as bytes

  The two directions between a string and its UTF-8 bytes, over lists of
  bytes so that they can be taken apart by recursion.

  - `ofBytes?_bytes` says that the bytes of a string read back as that string.
  - `bytes_ofList`, `bytes_ascii`: the bytes, character by character;
    `toList_of_ascii`: the characters, byte by byte.
-/

namespace RecordGate.Text

/-- The UTF-8 bytes of a string. -/
def bytes (s : String) : List UInt8 :=
  s.toByteArray.data.toList

/-- The string with these UTF-8 bytes, if they are well formed. -/
def ofBytes? (bs : List UInt8) : Option String :=
  String.fromUTF8? bs.toByteArray

/-- The bytes of a string read back as that string. -/
@[simp] theorem ofBytes?_bytes (s : String) : ofBytes? (bytes s) = some s := by
  have h : (bytes s).toByteArray = s.toByteArray := by
    apply ByteArray.ext
    simp [bytes, List.data_toByteArray]
  simp only [ofBytes?, h, String.fromUTF8?]
  rw [dif_pos s.isValidUTF8]
  rfl

/-- The bytes of a string are those of its characters. -/
theorem bytes_ofList (cs : List Char) :
    bytes (String.ofList cs) = cs.flatMap String.utf8EncodeChar := by
  unfold bytes
  rw [String.toByteArray_ofList, List.utf8Encode, List.data_toByteArray]

/-- A character of ASCII is one byte. -/
theorem bytes_ascii {cs : List Char} (h : ∀ c ∈ cs, c.toNat < 0x80) :
    bytes (String.ofList cs) = cs.map fun c => UInt8.ofNat c.toNat := by
  rw [bytes_ofList]
  induction cs with
  | nil => rfl
  | cons c cs ih =>
    have hsmall : c.val.toNat ≤ 127 := Nat.le_of_lt_succ (h c List.mem_cons_self)
    have hc : String.utf8EncodeChar c = [UInt8.ofNat c.toNat] := by
      unfold String.utf8EncodeChar
      exact if_pos hsmall
    rw [List.flatMap_cons, ih fun d hd => h d (List.mem_cons_of_mem _ hd), hc]
    rfl

/-- Different strings have different bytes. -/
theorem bytes_injective {s t : String} (h : bytes s = bytes t) : s = t := by
  have hs := ofBytes?_bytes s
  rw [h, ofBytes?_bytes] at hs
  exact (Option.some.inj hs).symm

/-- A text whose bytes are all of ASCII is made of the characters with these
    codes. -/
theorem toList_of_ascii {s : String} (h : ∀ b ∈ bytes s, b.toNat < 0x80) :
    s.toList = (bytes s).map fun b => Char.ofNat b.toNat := by
  have hcode : ∀ b ∈ bytes s, (Char.ofNat b.toNat).toNat = b.toNat := by
    have hall : ∀ n < 0x80, (Char.ofNat n).toNat = n := by decide
    exact fun b hb => hall b.toNat (h b hb)
  have hbytes : bytes (String.ofList ((bytes s).map fun b => Char.ofNat b.toNat)) =
      bytes s := by
    rw [bytes_ascii, List.map_map]
    · refine (List.map_congr_left fun b hb => ?_).trans (List.map_id _)
      show UInt8.ofNat (Char.ofNat b.toNat).toNat = b
      rw [hcode b hb, UInt8.ofNat_toNat]
    · intro c hc
      obtain ⟨b, hb, rfl⟩ := List.mem_map.mp hc
      rw [hcode b hb]
      exact h b hb
  rw [← bytes_injective hbytes, String.toList_ofList, bytes_injective hbytes]

end RecordGate.Text

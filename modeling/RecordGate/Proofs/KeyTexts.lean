import RecordGate.Proofs.IdentifierText
import RecordGate.Proofs.KeyedAuthentication
import RecordGate.Proofs.PlainTokens

/-! # Texts of keys

  A key is configured as a text: in hexadecimal digits, in one of two forms of
  base64, or as the bytes of the text itself. The forms are tried in turn.

  **Key idea.** A key of 32 bytes has a length of its own in each form
  (`KeyForm.width`). So a text writes a key in one form at most, and nothing
  hangs on the order in which the forms are tried.

  - `KeyForm.read?_eq_some`: each form reads the texts that write a key in it,
    and no others.
  - `KeyForm.Spells.unique`: a text writes one key in one form, or none.
  - `key_texts`: which key a configured text is.
-/

namespace RecordGate.Auth

open Base64 (Form)

/-- A way to write a key. -/
inductive KeyForm where
  /-- Hexadecimal digits of either case. -/
  | hex
  /-- URL-safe base64 without padding. -/
  | urlSafe
  /-- Standard base64 with its padding. -/
  | standard
  /-- A text whose bytes are the key. -/
  | raw
  deriving DecidableEq, Repr

namespace KeyForm

/-- A text writes a key in this form. -/
def Spells : KeyForm → String → Sealed.Key → Prop
  | hex, text, key => text.toList.map Char.toLower = Hex.encodeChars key
  | urlSafe, text, key => text = Base64.encode Form.urlSafe key
  | standard, text, key => text = Base64.encode Form.standard key
  | raw, text, key => Text.bytes text = key

/-- The key that is read from a text in this form. -/
def read? : KeyForm → String → Option Sealed.Key
  | hex, text => hexKey? text
  | urlSafe, text => (Base64.decode Form.urlSafe text).bind key32?
  | standard, text => (Base64.decode Form.standard text).bind key32?
  | raw, text => key32? (Text.bytes text)

/-- How many bytes the text of a key has in this form. -/
def width : KeyForm → Nat
  | hex => 64
  | urlSafe => 43
  | standard => 44
  | raw => 32

variable {form form' : KeyForm} {text : String} {key key' : Sealed.Key} {f : Form}

theorem width_injective (h : form.width = form'.width) : form = form' := by
  cases form <;> cases form' <;> simp [width] at h ⊢

/-! ### Reading a form -/

theorem key32?_eq_some {bs : List UInt8} : key32? bs = some key ↔ key.length = 32 ∧ bs = key := by
  unfold key32?
  by_cases hlength : bs.length = 32
  · simp only [hlength, if_true, Option.some.injEq]
    constructor
    · intro h
      exact ⟨h ▸ hlength, h⟩
    · intro h
      exact h.2
  · simp only [hlength, if_false]
    constructor
    · intro h
      cases h
    · intro h
      exact absurd (h.2 ▸ h.1) hlength

theorem hexKey?_eq_some :
    hexKey? text = some key ↔ key.length = 32 ∧ text.toList.map Char.toLower = Hex.encodeChars key := by
  have hdecode : hexKey? text = some key ↔ Hex.decode 32 (Text.bytes text) = .ok key := by
    unfold hexKey?
    split
    next bs hbs => simp [hbs]
    next e he => simp [he]
  rw [hdecode, Hex.decode_eq_ok, Hex.decodePairs_eq_ok]
  refine and_congr_left fun hlower => ?_
  -- two digits are read for each byte
  have hlength := Hex.length_of_decodePairs (Hex.decodePairs_eq_ok.mpr hlower)
  omega

theorem base64Key?_eq_some (hf : f.Sound) :
    (Base64.decode f text).bind key32? = some key ↔
      key.length = 32 ∧ text = Base64.encode f key := by
  constructor
  · intro h
    obtain ⟨bs, hbs, hkey⟩ := Option.bind_eq_some_iff.mp h
    obtain ⟨hlength, rfl⟩ := key32?_eq_some.mp hkey
    exact ⟨hlength, (Base64.decode_eq_some hf).mp hbs⟩
  · intro h
    rw [(Base64.decode_eq_some hf).mpr h.2]
    exact key32?_eq_some.mpr ⟨h.1, rfl⟩

/-- Each form reads the texts that write a key in it, and no others. -/
theorem read?_eq_some :
    form.read? text = some key ↔ key.length = 32 ∧ form.Spells text key := by
  cases form with
  | hex => exact hexKey?_eq_some
  | urlSafe => exact base64Key?_eq_some Form.urlSafe_sound
  | standard => exact base64Key?_eq_some Form.standard_sound
  | raw => exact key32?_eq_some

/-! ### Lengths -/

/-- A text in base64 has as many bytes as characters. -/
theorem length_bytes_encode (hascii : ∀ n < 64, (f.digit n).toNat < 0x80) (bs : List UInt8) :
    (Text.bytes (Base64.encode f bs)).length = (Base64.encodeChars f bs).length := by
  unfold Base64.encode
  rw [Text.bytes_ascii, List.length_map]
  intro c hc
  rcases Base64.mem_encodeChars hc with hpad | ⟨n, hn, hdigit⟩
  · rw [hpad]
    decide
  · rw [hdigit]
    exact hascii n hn

/-- The text of a key has the length of its form. -/
theorem Spells.width_eq (h : form.Spells text key) (hkey : key.length = 32) :
    (Text.bytes text).length = form.width := by
  cases form with
  | hex =>
    have hlength := Hex.length_of_decodePairs (Hex.decodePairs_eq_ok.mpr h)
    simp only [width]
    omega
  | urlSafe =>
    have htext : text = Base64.encode Form.urlSafe key := h
    rw [htext, length_bytes_encode (by decide), Base64.length_encodeChars, hkey]
    rfl
  | standard =>
    have htext : text = Base64.encode Form.standard key := h
    rw [htext, length_bytes_encode (by decide), Base64.length_encodeChars, hkey]
    rfl
  | raw =>
    have hbytes : Text.bytes text = key := h
    rw [hbytes, hkey]
    rfl

/-- A text writes one key in one form, or none in any. -/
theorem Spells.unique (h : form.Spells text key) (hkey : key.length = 32)
    (h' : form'.Spells text key') (hkey' : key'.length = 32) : form = form' ∧ key = key' := by
  have hform : form = form' := by
    apply width_injective
    rw [← h.width_eq hkey, ← h'.width_eq hkey']
  subst hform
  have hread : form.read? text = some key := read?_eq_some.mpr ⟨hkey, h⟩
  rw [read?_eq_some.mpr ⟨hkey', h'⟩, Option.some.injEq] at hread
  exact ⟨rfl, hread.symm⟩

/-! ### Blanks around a text -/

/-- There are no blanks in the text of a key, unless the text is the key. -/
theorem Spells.not_blank (h : form.Spells text key) (hform : form ≠ raw) :
    ∀ c ∈ text.toList, Text.isBlank c = false := by
  intro c hc
  cases form with
  | hex =>
    have hlower : text.toList.map Char.toLower = Hex.encodeChars key := h
    apply Hex.isBlank_of_toLower
    exact Hex.isLower_encodeChars (hlower ▸ List.mem_map_of_mem hc)
  | urlSafe =>
    have htext : text = Base64.encode Form.urlSafe key := h
    rw [htext, Base64.encode, String.toList_ofList] at hc
    exact (Form.urlSafe_clear.mem hc).1
  | standard =>
    have htext : text = Base64.encode Form.standard key := h
    rw [htext, Base64.encode, String.toList_ofList] at hc
    exact (Form.standard_clear.mem hc).1
  | raw => exact absurd rfl hform

end KeyForm

/-! ### All forms -/

open KeyForm

/-- The forms in the order in which they are tried. -/
def keyForms : List KeyForm := [.hex, .urlSafe, .standard, .raw]

theorem mem_keyForms (form : KeyForm) : form ∈ keyForms := by
  cases form <;> decide

theorem keyMaterial?_eq (configured : String) :
    keyMaterial? configured = keyForms.findSome? fun form => form.read? (Text.trim configured) := by
  unfold keyMaterial? keyForms
  simp only [List.findSome?_cons, List.findSome?_nil, read?]
  cases hexKey? (Text.trim configured) with
  | some key => rfl
  | none =>
    cases (Base64.decode Form.urlSafe (Text.trim configured)).bind key32? with
    | some key => rfl
    | none =>
      cases (Base64.decode Form.standard (Text.trim configured)).bind key32? with
      | some key => rfl
      | none => cases key32? (Text.bytes (Text.trim configured)) <;> rfl

/-- No two forms read a text. -/
theorem sole_form (text : String) (order : List KeyForm) :
    ∀ form ∈ order, ∀ form' ∈ order,
      (form.read? text).isSome → (form'.read? text).isSome → form = form' := by
  intro form _ form' _ hsome hsome'
  obtain ⟨key, hread⟩ := Option.isSome_iff_exists.mp hsome
  obtain ⟨key', hread'⟩ := Option.isSome_iff_exists.mp hsome'
  obtain ⟨hkey, hspells⟩ := read?_eq_some.mp hread
  obtain ⟨hkey', hspells'⟩ := read?_eq_some.mp hread'
  exact (hspells.unique hkey hspells' hkey').1

theorem keyMaterial?_eq_some {configured : String} {key : Sealed.Key} :
    keyMaterial? configured = some key ↔
      key.length = 32 ∧ ∃ form : KeyForm, form.Spells (Text.trim configured) key := by
  rw [keyMaterial?_eq]
  constructor
  · intro h
    obtain ⟨form, -, hread⟩ := List.exists_of_findSome?_eq_some h
    obtain ⟨hkey, hspells⟩ := read?_eq_some.mp hread
    exact ⟨hkey, form, hspells⟩
  · rintro ⟨hkey, form, hspells⟩
    have hread : form.read? (Text.trim configured) = some key := read?_eq_some.mpr ⟨hkey, hspells⟩
    apply findSome?_of_sole (mem_keyForms form) _ hread
    intro form' hform' hsome'
    have hsome : (form.read? (Text.trim configured)).isSome := by
      rw [hread]
      rfl
    exact sole_form _ keyForms form' hform' form (mem_keyForms form) hsome' hsome

/-- Which key a configured text is.

    - In hexadecimal digits of either case and in both forms of base64 a key of
      32 bytes is the key, whatever blanks stand around it.
    - A text that is 32 bytes without the blanks around it is these bytes.
    - Any text that is a key is of one of these forms.
    - No text is of two forms, or two keys.
    - So the forms can be tried in any order. -/
theorem key_texts :
    (∀ (form : KeyForm) (text : String) (key : Sealed.Key) (before after : List Char),
      key.length = 32 → form ≠ .raw → form.Spells text key →
      Text.Blanks before → Text.Blanks after →
      keyMaterial? (String.ofList (before ++ text.toList ++ after)) = some key) ∧
    (∀ configured, (Text.bytes (Text.trim configured)).length = 32 →
      keyMaterial? configured = some (Text.bytes (Text.trim configured))) ∧
    (∀ configured key, keyMaterial? configured = some key →
      key.length = 32 ∧ ∃ form : KeyForm, form.Spells (Text.trim configured) key) ∧
    (∀ (form form' : KeyForm) (text : String) (key key' : Sealed.Key),
      key.length = 32 → key'.length = 32 → form.Spells text key → form'.Spells text key' →
      form = form' ∧ key = key') ∧
    (∀ (order : List KeyForm) (configured : String), (∀ form, form ∈ order) →
      order.findSome? (fun form => form.read? (Text.trim configured)) =
        keyMaterial? configured) := by
  refine ⟨?_, ?_, ?_, ?_, ?_⟩
  · intro form text key before after hkey hform hspells hbefore hafter
    have htrim : Text.trim (String.ofList (before ++ text.toList ++ after)) = text := by
      unfold Text.trim
      rw [String.toList_ofList, Text.trimChars_append hbefore hafter (hspells.not_blank hform),
        String.ofList_toList]
    apply keyMaterial?_eq_some.mpr
    rw [htrim]
    exact ⟨hkey, form, hspells⟩
  · intro configured hlength
    exact keyMaterial?_eq_some.mpr ⟨hlength, .raw, rfl⟩
  · intro configured key h
    exact keyMaterial?_eq_some.mp h
  · intro form form' text key key' hkey hkey' hspells hspells'
    exact hspells.unique hkey hspells' hkey'
  · intro order configured hall
    rw [keyMaterial?_eq]
    apply findSome?_congr _ (sole_form _ order)
    intro form
    exact iff_of_true (hall form) (mem_keyForms form)

/-- The bytes from 255 downwards. -/
def falling : Sealed.Key := (List.range 32).map fun n => UInt8.ofNat (255 - n)

/-- The same in digits of both cases. -/
def fallingDigits : String :=
  "FFFEFDFCFBFAF9F8F7F6F5F4F3F2F1F0efeeedecebeae9e8e7e6e5e4e3e2e1e0"

/-- The key is found in its digits between blanks, also if the forms are tried
    from the last to the first, and in no other form; a text of 32 bytes is one
    as it stands. -/
theorem falling_found :
    KeyForm.hex.Spells fallingDigits falling ∧
    keyMaterial? (String.ofList (['\t', ' '] ++ fallingDigits.toList ++ ['\n'])) = some falling ∧
    (∀ form : KeyForm, form.Spells fallingDigits falling → form = .hex) ∧
    keyForms.reverse.findSome? (fun form => form.read? (Text.trim fallingDigits)) =
      keyMaterial? fallingDigits ∧
    keyMaterial? "the key as it stands, 32 letters" =
      some (Text.bytes "the key as it stands, 32 letters") ∧
    (∃ form : KeyForm, form.Spells (Text.trim "the key as it stands, 32 letters")
      (Text.bytes "the key as it stands, 32 letters")) := by
  obtain ⟨hwritten, hbytes, hform, hunique, horder⟩ := key_texts
  have hspells : KeyForm.hex.Spells fallingDigits falling := by
    unfold KeyForm.Spells
    decide +kernel
  have hbefore : Text.Blanks ['\t', ' '] :=
    List.forall_mem_cons.mpr ⟨by decide, List.forall_mem_singleton.mpr (by decide)⟩
  have hafter : Text.Blanks ['\n'] := List.forall_mem_singleton.mpr (by decide)
  have htrim : Text.trim "the key as it stands, 32 letters" =
      "the key as it stands, 32 letters" := by decide +kernel
  have hstands := hbytes "the key as it stands, 32 letters" (by decide +kernel)
  refine ⟨hspells, ?_, ?_, ?_, ?_, ?_⟩
  · exact hwritten .hex fallingDigits falling _ _ rfl (by decide) hspells hbefore hafter
  · intro form hother
    exact (hunique form .hex fallingDigits falling falling rfl rfl hother hspells).1
  · exact horder keyForms.reverse fallingDigits fun form => List.mem_reverse.mpr (mem_keyForms form)
  · rw [htrim] at hstands
    exact hstands
  · obtain ⟨-, form, hstanding⟩ := hform _ _ hstands
    exact ⟨form, htrim ▸ hstanding⟩

end RecordGate.Auth

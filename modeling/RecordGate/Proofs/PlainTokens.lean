import RecordGate.Auth.Validator
import RecordGate.Proofs.Base64Text
import RecordGate.Proofs.JsonReading

/-! # The forms of a plain token

  Without keys the claims of a token are a JSON text, behind `json:` or in
  either form of base64. The forms are tried in turn.

  **Key idea.** No form takes the tokens of another for something else: a text
  of base64 has no colon (`Clear`), so it never opens with `json:`, and what one
  alphabet writes means the same bytes in the other, or none. Only the blanks
  at the end of a text depend on the form, since tokens are trimmed.

  - `openPlain_tagged`, `openPlain_encoded`: the claims of a token in each form.
  - `plain_forms`: all forms of a text give the same result.
-/

namespace RecordGate

namespace Base64

/-- Neither a blank nor a colon is a digit of a form. -/
def Form.Clear (f : Form) : Prop :=
  ∀ n < 64, Text.isBlank (f.digit n) = false ∧ f.digit n ≠ ':'

theorem Form.urlSafe_clear : urlSafe.Clear := by
  unfold Clear
  decide

theorem Form.standard_clear : standard.Clear := by
  unfold Clear
  decide

/-- Neither a blank nor a colon is in a text of a form. -/
theorem Form.Clear.mem {f : Form} (h : f.Clear) {bs : List UInt8} {c : Char}
    (hc : c ∈ encodeChars f bs) : Text.isBlank c = false ∧ c ≠ ':' := by
  rcases mem_encodeChars hc with heq | ⟨n, hn, heq⟩
  · rw [heq]
    decide
  · rw [heq]
    exact h n hn

end Base64

namespace Auth

open Base64 (Form encode decode)

variable {f g : Form}

/-- A text as a plain token, in each of the forms. -/
def plainTokens (t : String) : List String :=
  ["json:" ++ t, encode Form.urlSafe (Text.bytes t), encode Form.standard (Text.bytes t)]

/-- Claims, or an error in their place. -/
def orError (e : Error) : Option Claims → Except Error Claims
  | some claims => .ok claims
  | none => .error e

/-! ### Behind the tag -/

theorem openPlain_tagged (t : String) :
    openPlain ("json:" ++ t) = orError badClaims (Claims.ofText? t) := by
  have hdrop : Text.dropStart? "json:".toList ("json:" ++ t).toList = some t.toList := by
    rw [Text.dropStart?_eq_some, String.toList_append]
  unfold openPlain
  rw [hdrop]
  dsimp only
  rw [String.ofList_toList]
  cases Claims.ofText? t <;> rfl

/-- Trimming keeps the tag and takes the blanks from the end of the text. -/
theorem trim_tagged (t : String) :
    Text.trim ("json:" ++ t) = "json:" ++ String.ofList (Text.trimEnd t.toList) := by
  have htag : ∀ c, "json:".toList.getLast? = some c → Text.isBlank c = false := by
    intro c hc
    cases hc
    decide
  have hfirst : ∀ c, ("json:".toList ++ t.toList).head? = some c → Text.isBlank c = false := by
    intro c hc
    cases hc
    decide
  have hcut : Text.trimChars ("json:" ++ t).toList =
      ("json:" ++ String.ofList (Text.trimEnd t.toList)).toList := by
    unfold Text.trimChars
    rw [String.toList_append, Text.trimStart_eq_self hfirst, Text.trimEnd_append_right htag,
      String.toList_append, @String.toList_ofList (Text.trimEnd t.toList)]
  unfold Text.trim
  rw [hcut, String.ofList_toList]

theorem trimEnd_of_trim {t : String} (h : Text.trim t = t) :
    String.ofList (Text.trimEnd t.toList) = t := by
  apply String.toList_inj.mp
  rw [String.toList_ofList]
  apply Text.trimEnd_eq_self
  intro c hc
  rw [← h] at hc
  unfold Text.trim Text.trimChars at hc
  rw [String.toList_ofList] at hc
  exact Text.getLast?_trimEnd hc

/-! ### In base64 -/

/-- Trimming does not change an encoded text. -/
theorem trim_encode (h : f.Clear) (bs : List UInt8) :
    Text.trim (encode f bs) = encode f bs := by
  unfold Text.trim encode
  rw [String.toList_ofList, Text.trimChars_eq_self]
  · intro c hc
    exact (h.mem (List.mem_of_head? hc)).1
  · intro c hc
    exact (h.mem (List.mem_of_getLast? hc)).1

/-- An encoded text does not open with the tag. -/
theorem dropStart?_encode (h : f.Clear) (bs : List UInt8) :
    Text.dropStart? "json:".toList (encode f bs).toList = none := by
  rw [Option.eq_none_iff_forall_ne_some]
  intro rest hrest
  have hcolon : ':' ∈ (encode f bs).toList := by
    rw [Text.dropStart?_eq_some.mp hrest]
    exact List.mem_append_left rest (by decide)
  unfold encode at hcolon
  rw [String.toList_ofList] at hcolon
  exact (h.mem hcolon).2 rfl

/-- The claims in the bytes of a text are those of the text. -/
theorem claimsOfBytes?_bytes (t : String) :
    claimsOfBytes? (Text.bytes t) = Claims.ofText? t := by
  unfold claimsOfBytes?
  rw [Text.ofBytes?_bytes, Option.bind_some]

/-- A form finds the claims in what it wrote itself. -/
theorem decoded_own (hf : f.Sound) (t : String) :
    (decode f (encode f (Text.bytes t))).bind claimsOfBytes? = Claims.ofText? t := by
  rw [Base64.decode_encode hf, Option.bind_some, claimsOfBytes?_bytes]

/-- A form finds the same claims in what another wrote, or none. -/
theorem decoded_foreign (hf : f.Sound) (hg : g.Sound) (h : f.Foreign g) (t : String) :
    (decode f (encode g (Text.bytes t))).bind claimsOfBytes? = Claims.ofText? t ∨
      (decode f (encode g (Text.bytes t))).bind claimsOfBytes? = none := by
  rcases Base64.decode_foreign hf hg h (Text.bytes t) with hsame | hnone
  · left
    rw [hsame, Option.bind_some, claimsOfBytes?_bytes]
  · right
    rw [hnone, Option.bind_none]

/-- Of two readings, one of which is right and the other right or nothing, the
    first that is found is right, in either order. -/
theorem orElse_eq {own other found : Option Claims} (hown : own = found)
    (hother : other = found ∨ other = none) :
    (own <|> other) = found ∧ (other <|> own) = found := by
  subst hown
  rcases hother with hsame | hnone
  · rw [hsame]
    cases own <;> exact ⟨rfl, rfl⟩
  · rw [hnone]
    cases own <;> exact ⟨rfl, rfl⟩

/-- What is said of a token that neither form of base64 opens. -/
def undecodable : Error := .invalidToken "unable to decode access token"

theorem openPlain_encoded (hf : f = Form.urlSafe ∨ f = Form.standard) (t : String) :
    openPlain (encode f (Text.bytes t)) = orError undecodable (Claims.ofText? t) := by
  have hfound : ((decode Form.urlSafe (encode f (Text.bytes t))).bind claimsOfBytes?
      <|> (decode Form.standard (encode f (Text.bytes t))).bind claimsOfBytes?) =
        Claims.ofText? t := by
    rcases hf with rfl | rfl
    · exact (orElse_eq (decoded_own Form.urlSafe_sound t) (decoded_foreign Form.standard_sound
        Form.urlSafe_sound Form.standard_foreign t)).1
    · exact (orElse_eq (decoded_own Form.standard_sound t) (decoded_foreign Form.urlSafe_sound
        Form.standard_sound Form.urlSafe_foreign t)).2
  have hclear : f.Clear := by
    rcases hf with rfl | rfl
    · exact Form.urlSafe_clear
    · exact Form.standard_clear
  unfold openPlain
  rw [dropStart?_encode hclear]
  dsimp only
  rw [hfound]
  cases Claims.ofText? t <;> rfl

/-! ### All forms -/

variable {opener : Opener} {now : Time.Instant} {t token : String} {c : Claims} {e : Error}

theorem validate_plain (h : openPlain (Text.trim token) = .ok c) :
    validate opener now [] token = if c.isExpired now then .error .tokenExpired else .ok c := by
  simp only [validate, openToken, List.isEmpty_nil, if_true, h]

theorem validate_plain_error (h : openPlain (Text.trim token) = .error e) :
    validate opener now [] token = .error e := by
  simp only [validate, openToken, List.isEmpty_nil, if_true, h]

/-- The claims of a text are found in each of its forms. -/
theorem openPlain_of_claims (h : Claims.ofText? t = some c) (htoken : token ∈ plainTokens t) :
    openPlain (Text.trim token) = .ok c := by
  simp only [plainTokens, List.mem_cons, List.not_mem_nil, or_false] at htoken
  rcases htoken with rfl | rfl | rfl
  · -- only here the blanks at the end are gone before the text is read
    rw [trim_tagged, openPlain_tagged, Claims.ofText?_trimEnd h]
    rfl
  · rw [trim_encode Form.urlSafe_clear, openPlain_encoded (.inl rfl), h]
    rfl
  · rw [trim_encode Form.standard_clear, openPlain_encoded (.inr rfl), h]
    rfl

/-- A text without claims, and without blanks around it, is refused in each of
    its forms. -/
theorem openPlain_of_no_claims (htrim : Text.trim t = t) (h : Claims.ofText? t = none)
    (htoken : token ∈ plainTokens t) :
    ∃ reason, openPlain (Text.trim token) = .error (.invalidToken reason) := by
  simp only [plainTokens, List.mem_cons, List.not_mem_nil, or_false] at htoken
  rcases htoken with rfl | rfl | rfl
  · refine ⟨"malformed claims", ?_⟩
    rw [trim_tagged, trimEnd_of_trim htrim, openPlain_tagged, h]
    rfl
  · refine ⟨"unable to decode access token", ?_⟩
    rw [trim_encode Form.urlSafe_clear, openPlain_encoded (.inl rfl), h]
    rfl
  · refine ⟨"unable to decode access token", ?_⟩
    rw [trim_encode Form.standard_clear, openPlain_encoded (.inr rfl), h]
    rfl

/-- Without keys all forms of a text give the same result: its claims while
    they are in force, and `tokenExpired` afterwards. A text without blanks
    around it that writes no claims is an invalid token in all forms. -/
theorem plain_forms (opener : Opener) (now : Time.Instant) (t : String) :
    (∀ c, Claims.ofText? t = some c → ∀ token ∈ plainTokens t,
      validate opener now [] token =
        if c.isExpired now then .error .tokenExpired else .ok c) ∧
    (Text.trim t = t → Claims.ofText? t = none → ∀ token ∈ plainTokens t,
      ∃ reason, validate opener now [] token = .error (.invalidToken reason)) := by
  constructor
  · intro c hc token htoken
    exact validate_plain (openPlain_of_claims hc htoken)
  · intro htrim hnone token htoken
    obtain ⟨reason, hreason⟩ := openPlain_of_no_claims htrim hnone htoken
    exact ⟨reason, validate_plain_error hreason⟩

/-- A text that writes claims, with a blank at either end. -/
def adaText : String := " \x7b\"sub\": \"ada\", \"exp\": \"2030-01-01T00:00:00Z\"\x7d\n"

/-- The claims that it writes. -/
def ada : Claims := ⟨"ada", [], none, some ⟨1893456000, 0⟩, []⟩

/-- In each form the claims are in force up to their last second and not later,
    and a text that writes no claims is refused. -/
theorem ada_in_each_form :
    Claims.ofText? adaText = some ada ∧
    (∀ token ∈ plainTokens adaText,
      validate (fun _ _ => none) ⟨1893456000, 0⟩ [] token = .ok ada) ∧
    (∀ token ∈ plainTokens adaText,
      validate (fun _ _ => none) ⟨1893456001, 0⟩ [] token = .error .tokenExpired) ∧
    Text.trim "ada" = "ada" ∧ Claims.ofText? "ada" = none ∧
    (∀ token ∈ plainTokens "ada",
      ∃ reason, validate (fun _ _ => none) ⟨0, 0⟩ [] token = .error (.invalidToken reason)) := by
  have hada : Claims.ofText? adaText = some ada := by decide +kernel
  have htrim : Text.trim "ada" = "ada" := by decide +kernel
  have hnone : Claims.ofText? "ada" = none := by decide +kernel
  refine ⟨hada, ?_, ?_, htrim, hnone, ?_⟩
  · exact (plain_forms _ _ adaText).1 ada hada
  · exact (plain_forms _ _ adaText).1 ada hada
  · exact (plain_forms _ _ "ada").2 htrim hnone

end Auth

end RecordGate

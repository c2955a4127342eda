import RecordGate.Proofs.Comparison
import RecordGate.Proofs.DateText
import RecordGate.Proofs.Lookup

/-! # Whole numbers as text

  A whole number of 64 bits, with or without a sign, is stored as it is. Its
  decimal text is what a path carries, and a text for a number field is read in
  64 signed bits first and as a double then.

  **Key idea.** The text of a number is its digits behind at most one sign, and
  reading is the inverse of writing (`intOf?_intText`). What comes after the
  reading decides: below `2^63` the number is kept, from there on the digits are
  read again, as a double.

  - `nearest?_wide`: no number of 64 bits is too large for a double.
  - `number_by_text` says what the text of a number is coerced to, and what a
    lookup by it finds; `wide_number_lost` is a record that its own number does
    not find.
-/

namespace RecordGate

/-! ### Digits -/

namespace Decimal

variable {n : Nat} {i : Int}

/-- The digits of a number write it. -/
theorem run_toDigits (n : Nat) : Time.Run (Nat.toDigits 10 n) n := by
  have hrun := Time.run_padded 0 n
  rw [Time.toList_padded, Nat.zero_sub, List.replicate_zero, List.nil_append] at hrun
  exact hrun

theorem toList_natText (n : Nat) : (natText n).toList = Nat.toDigits 10 n :=
  String.toList_ofList

theorem natOf?_toDigits (n : Nat) : natOf? (Nat.toDigits 10 n) = some n := by
  have hrun := run_toDigits n
  have hall : (Nat.toDigits 10 n).all isDigit = true := List.all_eq_true.mpr hrun.digits
  simp [natOf?, hall, hrun.value]

/-- Digits are no sign. -/
theorem toDigits_ne_sign {c : Char} (n : Nat) (hc : isDigit c = false) (cs : List Char) :
    Nat.toDigits 10 n ≠ c :: cs := by
  intro h
  have hdigit := (run_toDigits n).digits c (h ▸ List.mem_cons_self)
  rw [hc] at hdigit
  cases hdigit

/-- A whole number is read back from its text. -/
theorem intOf?_intText (i : Int) : intOf? (intText i).toList = some i := by
  cases i with
  | ofNat n =>
    show intOf? (natText n).toList = some (n : Int)
    rw [toList_natText]
    unfold intOf?
    split
    next cs h => exact absurd h (toDigits_ne_sign n (by decide) cs)
    next cs h => exact absurd h (toDigits_ne_sign n (by decide) cs)
    · rw [natOf?_toDigits]
      rfl
  | negSucc n =>
    show intOf? ("-" ++ natText (n + 1)).toList = some (Int.negSucc n)
    have htext : ("-" ++ natText (n + 1)).toList = '-' :: Nat.toDigits 10 (n + 1) := by
      rw [String.toList_append, toList_natText]
      rfl
    rw [htext]
    show (natOf? (Nat.toDigits 10 (n + 1))).map (fun n => -(n : Int)) = some (Int.negSucc n)
    rw [natOf?_toDigits]
    rfl

/-- There is no blank in the text of a whole number. -/
theorem isBlank_intText {c : Char} (h : c ∈ (intText i).toList) : Text.isBlank c = false := by
  have hdigits : ∀ n, ∀ c ∈ (natText n).toList, Text.isBlank c = false := by
    intro n c hc
    rw [toList_natText] at hc
    have hdigit := (run_toDigits n).digits c hc
    unfold isDigit at hdigit
    unfold Text.isBlank
    simp only [Bool.and_eq_true, decide_eq_true_eq, Char.le_def, UInt32.le_iff_toNat_le] at hdigit
    have hlow : 48 ≤ c.toNat := hdigit.1
    have hhigh : c.toNat ≤ 57 := hdigit.2
    simp
    omega
  cases i with
  | ofNat n => exact hdigits n c h
  | negSucc n =>
    change c ∈ ("-" ++ natText (n + 1)).toList at h
    rw [String.toList_append, List.mem_append] at h
    rcases h with hsign | hdigit
    · rw [List.mem_singleton.mp hsign]
      rfl
    · exact hdigits (n + 1) c hdigit

theorem trimChars_intText (i : Int) : Text.trimChars (intText i).toList = (intText i).toList := by
  apply Text.trimChars_eq_self
  · intro c hc
    exact isBlank_intText (List.mem_of_head? hc)
  · intro c hc
    exact isBlank_intText (List.mem_of_getLast? hc)

/-! ### Doubles -/

/-- No number of 64 bits is too large for a double. -/
theorem nearest?_wide (hlow : 2 ^ 63 ≤ n) (hhigh : n < 2 ^ 64) :
    nearest? n 0 = some (Float.ofNat n) := by
  have hlength : (Nat.toDigits 10 n).length ≤ 20 :=
    (Nat.length_toDigits_le_iff (by decide) (by decide)).mpr (by omega)
  have hfinite : (Float.ofScientific n false 0).isFinite = true :=
    Storage.Sql.isFinite_ofNat hlow hhigh
  unfold nearest?
  rw [if_neg (by omega)]
  dsimp only
  rw [if_neg (by omega), if_neg (by omega)]
  exact if_pos hfinite

theorem floatOf?_wide (hlow : 2 ^ 63 ≤ n) (hhigh : n < 2 ^ 64) :
    floatOf? (intText n).toList = some (Float.ofInt n) := by
  have hrun := run_toDigits n
  have hspan : spanDigits (Nat.toDigits 10 n) = (Nat.toDigits 10 n, []) := by
    unfold spanDigits
    rw [List.takeWhile_eq_self_iff.mpr hrun.digits, List.dropWhile_eq_nil_iff.mpr hrun.digits]
  have hmagnitude : magnitudeOf? (Nat.toDigits 10 n) = some (Float.ofNat n) := by
    unfold magnitudeOf?
    rw [hspan]
    simp [exponentOf?, hrun.value, nearest?_wide hlow hhigh]
  show floatOf? (natText n).toList = some (Float.ofNat n)
  rw [toList_natText]
  unfold floatOf?
  split
  next cs h => exact absurd h (toDigits_ne_sign n (by decide) cs)
  next cs h => exact absurd h (toDigits_ne_sign n (by decide) cs)
  · exact hmagnitude

end Decimal

/-! ### Coercion -/

/-- What the text of a whole number is read as. -/
def Number.reread (n : Int) : Number :=
  if n < 0x8000000000000000 then .int n else .float (Float.ofInt n)

namespace Shape

variable {n : Int}

theorem numberOf?_text (hn : Number.InRange n) :
    numberOf? (Number.int n).text = some (Number.reread n) := by
  obtain ⟨hlow, hhigh⟩ := hn
  show numberOf? (Decimal.intText n) = some (Number.reread n)
  unfold numberOf? Number.reread
  dsimp only
  rw [Decimal.trimChars_intText, Decimal.intOf?_intText, Option.bind_some]
  by_cases hsigned : n < 0x8000000000000000
  · rw [Number.signed?_eq_some.mpr ⟨rfl, hlow, hsigned⟩, if_pos hsigned]
  · have hnone : (Number.int n).signed? = none := by
      rw [Option.eq_none_iff_forall_ne_some]
      intro k hk
      exact hsigned (Number.signed?_eq_some.mp hk).2.2
    -- such a number is not negative, so its text is digits alone
    obtain ⟨k, rfl⟩ := Int.eq_ofNat_of_zero_le (show 0 ≤ n by omega)
    rw [hnone, if_neg hsigned, Decimal.floatOf?_wide (by omega) (by omega)]
    rfl

/-- The text of a whole number in a number field. -/
theorem coerce_number_text (hn : Number.InRange n) (name : String) :
    coerce name .number (.str (Number.int n).text) = .ok (.num (Number.reread n)) := by
  unfold coerce coercePresent
  dsimp only
  rw [numberOf?_text hn]

end Shape

/-! ### Lookups -/

namespace Engine

open Storage

variable {m : Model} {b : Binding} {c : Context} {f : Field} {n : Int} {key : Json}
  {params : Keyed String} {r : Record} {name : String}

/-- A whole number is the same as itself alone. -/
theorem holds_int : Holds name (.num (.int n)) r ↔ r.get? name = some (.num (.int n)) := by
  unfold Holds
  constructor
  · intro h
    obtain ⟨v, hv, hsame⟩ := h
    cases v with
    | num x =>
      cases x with
      | int k =>
        have hk : k = n := by simpa [Json.same, Number.same] using hsame
        rw [hv, hk]
      | float x => simp [Json.same, Number.same] at hsame
    | _ => simp [Json.same] at hsame
  · intro h
    exact ⟨_, h, by simp [Json.same, Number.same]⟩

/-- A double is the same as doubles alone. -/
theorem holds_float {x : Float} (h : Holds name (.num (.float x)) r) :
    ∃ y, r.get? name = some (.num (.float y)) := by
  obtain ⟨v, hv, hsame⟩ := h
  cases v with
  | num y =>
    cases y with
    | int k => simp [Json.same, Number.same] at hsame
    | float y => exact ⟨y, hv⟩
  | _ => simp [Json.same] at hsame

/-- An owner is no number. -/
theorem owner_ne_number (hm : m.Checked) (hf : m.field? b.field = some f)
    (htype : f.type = .number) : m.owner ≠ some b.field := by
  intro howner
  obtain ⟨g, hg, hkind⟩ := hm.owner b.field howner
  rw [hf, Option.some.injEq] at hg
  subst hg
  rw [htype] at hkind
  rcases hkind with h | h
  · cases h
  · cases h

/-- The key of a path that carries the text of a whole number. -/
theorem names_text (hn : Number.InRange n) (hf : m.field? b.field = some f)
    (htype : f.type = .number) (htext : params.get? b.param = some (Number.int n).text) :
    Names m b params key ↔ key = .num (Number.reread n) := by
  have hcoerce : Shape.coerce f.name f.type (.str (Number.int n).text) =
      .ok (.num (Number.reread n)) := by
    rw [htype]
    exact Shape.coerce_number_text hn f.name
  unfold Names
  constructor
  · intro h
    obtain ⟨raw, g, hraw, hg, hkey⟩ := h
    rw [htext, Option.some.injEq] at hraw
    rw [hf, Option.some.injEq] at hg
    subst hraw hg
    rw [hcoerce, Except.ok.injEq] at hkey
    exact hkey.symm
  · intro h
    subst h
    exact ⟨_, f, htext, hf, hcoerce⟩

/-- Whole numbers of 64 bits, with or without a sign, and their decimal text.

    - A number field takes the number as it is, a text field takes its text.
    - In a number field the text is read as the number itself below `2^63`, and
      as its double from there on.
    - Let a rule load records by a number field, and a path carry the text.
      Below `2^63` a record of the caller that holds the number is found, if
      there is one in the storage in memory. From there on no record is found
      that holds a whole number. -/
theorem number_by_text {n : Int} (hn : Number.InRange n) :
    (∀ name, Shape.coerce name .number (.num (.int n)) = .ok (.num (.int n)) ∧
      Shape.coerce name .string (.num (.int n)) = .ok (.str (Number.int n).text) ∧
      Shape.coerce name .number (.str (Number.int n).text) =
        .ok (.num (if n < 0x8000000000000000 then .int n else .float (Float.ofInt n)))) ∧
    ∀ (catalog : Catalog) (m : Model) (rule : Rule) (b : Binding) (f : Field) (req : Request)
      (w : World Memory), catalog.Built → m ∈ catalog.models → rule.binding = some b →
      m.field? b.field = some f → f.type = .number →
      req.params.get? b.param = some (Number.int n).text →
      let c := callerContext req.caller
      let rows := w.store.rows m.collection
      let run := (bindContext m rule req).run Memory.driver w
      (n < 0x8000000000000000 →
        (∃ r ∈ rows, Owned m c r ∧ r.get? b.field = some (.num (.int n))) →
        ∃ bound, run.1 = .ok bound ∧ ∃ r ∈ rows, bound.resource = some r ∧ Owned m c r ∧
          r.get? b.field = some (.num (.int n))) ∧
      (0x8000000000000000 ≤ n → ∀ bound, run.1 = .ok bound →
        ∃ r ∈ rows, bound.resource = some r ∧ ∃ x, r.get? b.field = some (.num (.float x))) := by
  refine ⟨fun name => ⟨rfl, rfl, Shape.coerce_number_text hn name⟩, ?_⟩
  intro catalog m rule b f req w hcatalog hm hb hf htype htext c rows run
  have hrun : run = (locate m rule req rows, w) := run_bindContext m rule req w
  have hother : m.owner ≠ some b.field := owner_ne_number (hcatalog.checked m hm) hf htype
  have hnames : ∀ key, Names m b req.params key ↔ key = .num (Number.reread n) :=
    fun _ => names_text hn hf htype htext
  rw [hrun]
  constructor
  · intro hsigned hstored
    have hkept : Number.reread n = .int n := if_pos hsigned
    obtain ⟨r, hr, howned, hvalue⟩ := hstored
    have hkey : Names m b req.params (.num (.int n)) := by rw [hnames, hkept]
    obtain ⟨bound, hbound⟩ := locate_of_selected hb hr hkey (fun _ => holds_int.mpr hvalue) howned
    obtain ⟨r', hr', hresource, -, key, hkey', hholds, howned'⟩ := locate_selected hb hbound
    rw [hnames, hkept] at hkey'
    subst hkey'
    exact ⟨bound, hbound, r', hr', hresource, howned', holds_int.mp (hholds hother)⟩
  · intro hwide bound hbound
    have hdouble : Number.reread n = .float (Float.ofInt n) := if_neg (by omega)
    obtain ⟨r, hr, hresource, -, key, hkey, hholds, -⟩ := locate_selected hb hbound
    rw [hnames, hdouble] at hkey
    subst hkey
    exact ⟨r, hr, hresource, holds_float (hholds hother)⟩

/-- Lots that are read by their number. -/
def lotModel : ModelDecl where
  label := none
  storage := some "lots"
  owner := none
  fields := [("_id", .short [.str "ObjectId", .str "r"]), ("n", .short [.str "Number", .str "cru"])]
  createHooks := []
  updateHooks := []

/-- Everybody reads a lot. -/
def lotRoute : RouteDecl where
  path := "/lots"
  model := "Lot"
  rules := [("r", .full "@lot.n=@lot.n" (some (.field "n")))]

/-- A storage with one lot. -/
def oneLot (n : Int) : World Memory :=
  ⟨Supply.still, ⟨[("lots", [[("_id", .str "00"), ("n", .num (.int n))]])]⟩⟩

/-- Somebody asks for a lot by the text of its number. -/
def readsLot (n : Int) : Request :=
  ⟨[("n", (Number.int n).text)], none, .anonymous⟩

/-- The lot with the largest number of 64 signed bits is found. -/
theorem largest_signed_found :
    ∃ catalog route rule, Catalog.empty.declare "Lot" lotModel = .ok catalog ∧
      Route.compile lotRoute catalog = .ok route ∧ route.rule? .read = some rule ∧
      ∃ bound, ((bindContext route.model rule (readsLot 9223372036854775807)).run Memory.driver
          (oneLot 9223372036854775807)).1 = .ok bound ∧
        ∃ r ∈ (oneLot 9223372036854775807).store.rows route.model.collection,
          bound.resource = some r ∧ r.get? "n" = some (.num (.int 9223372036854775807)) := by
  have htest : okAnd (Catalog.empty.declare "Lot" lotModel) (fun catalog =>
      okAnd (Route.compile lotRoute catalog) fun route =>
        (route.rule? .read).any fun rule =>
          decide (rule.binding = some ⟨"n", "n"⟩) && decide (route.model.owner = none) &&
          decide (route.model.collection = "lots") &&
          (route.model.field? "n").any fun f => decide (f.type = .number)) = true := by
    decide +kernel
  obtain ⟨catalog, hcatalog, htest⟩ := okAnd_iff.mp htest
  obtain ⟨route, hroute, htest⟩ := okAnd_iff.mp htest
  obtain ⟨rule, hrule, htest⟩ := (Option.any_eq_true _ _).mp htest
  simp only [Bool.and_eq_true, decide_eq_true_eq] at htest
  obtain ⟨⟨⟨hb, howner⟩, hcollection⟩, hfield⟩ := htest
  obtain ⟨f, hf, htype⟩ := (Option.any_eq_true _ _).mp hfield
  obtain ⟨-, hlookup⟩ := number_by_text (n := 9223372036854775807) ⟨by decide, by decide⟩
  have hlookup := hlookup catalog route.model rule ⟨"n", "n"⟩ f (readsLot 9223372036854775807)
    (oneLot 9223372036854775807) (Catalog.Built.empty.declare hcatalog)
    (Route.compile_compiled hroute).model hb hf (of_decide_eq_true htype) rfl
  have hstored : [("_id", Json.str "00"), ("n", .num (.int 9223372036854775807))] ∈
      (oneLot 9223372036854775807).store.rows route.model.collection := by
    rw [hcollection]
    exact List.mem_cons_self
  have howned : Owned route.model (callerContext (readsLot 9223372036854775807).caller)
      [("_id", .str "00"), ("n", .num (.int 9223372036854775807))] := by
    intro w hw
    rw [howner] at hw
    cases hw
  obtain ⟨bound, hbound, r, hr, hresource, -, hvalue⟩ :=
    hlookup.1 (by decide) ⟨_, hstored, howned, rfl⟩
  exact ⟨catalog, route, rule, hcatalog, hroute, hrule, bound, hbound, r, hr, hresource, hvalue⟩

/-- The lot with the largest number without a sign is not found by this number,
    since its text is coerced to a double. -/
theorem wide_number_lost :
    ∃ catalog route rule, Catalog.empty.declare "Lot" lotModel = .ok catalog ∧
      Route.compile lotRoute catalog = .ok route ∧ route.rule? .read = some rule ∧
      ((bindContext route.model rule (readsLot 18446744073709551615)).run Memory.driver
          (oneLot 18446744073709551615)).1 = .error (missing route.model) ∧
      ¬ (Shape.coerce "n" .string (.num (.int 18446744073709551615)) >>=
        Shape.coerce "n" .number) = .ok (.num (.int 18446744073709551615)) := by
  have htest : okAnd (Catalog.empty.declare "Lot" lotModel) (fun catalog =>
      okAnd (Route.compile lotRoute catalog) fun route =>
        (route.rule? .read).any fun rule =>
          decide (rule.binding = some ⟨"n", "n"⟩) &&
          !okAnd ((bindContext route.model rule (readsLot 18446744073709551615)).run Memory.driver
            (oneLot 18446744073709551615)).1 (fun _ => true)) = true := by
    decide +kernel
  obtain ⟨catalog, hcatalog, htest⟩ := okAnd_iff.mp htest
  obtain ⟨route, hroute, htest⟩ := okAnd_iff.mp htest
  obtain ⟨rule, hrule, htest⟩ := (Option.any_eq_true _ _).mp htest
  simp only [Bool.and_eq_true, decide_eq_true_eq, Bool.not_eq_true'] at htest
  obtain ⟨hb, hfails⟩ := htest
  refine ⟨catalog, route, rule, hcatalog, hroute, hrule, ?_, ?_⟩
  · rw [run_bindContext] at hfails ⊢
    let rows := (oneLot 18446744073709551615).store.rows route.model.collection
    have hend : (∃ bound, locate route.model rule (readsLot 18446744073709551615) rows = .ok bound) ∨
        locate route.model rule (readsLot 18446744073709551615) rows =
          .error (missing route.model) := locate_error hb
    rcases hend with hok | hmissing
    · obtain ⟨bound, hbound⟩ := hok
      rw [okAnd_iff.mpr ⟨bound, hbound, rfl⟩] at hfails
      cases hfails
    · exact hmissing
  · have hread : (Shape.coerce "n" .string (.num (.int 18446744073709551615)) >>=
        Shape.coerce "n" .number) = .ok (.num (Number.reread 18446744073709551615)) :=
      Shape.coerce_number_text (n := 18446744073709551615) ⟨by decide, by decide⟩ "n"
    rw [hread, Number.reread, if_neg (by decide)]
    exact nofun

end Engine

end RecordGate

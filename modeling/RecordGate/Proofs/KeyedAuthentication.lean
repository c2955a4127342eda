import Mathlib.Data.List.Perm.Basic
import RecordGate.Auth.Validator

/-! # Authentication under keys

  With keys configured, nobody is authenticated but the bearer of a token that
  a key opens to claims in force. How tokens are opened is left open: every
  statement is about any opener.

  **Key idea.** The texts that are configured matter only through the keys
  that they are (`materials`), and among these the first that opens the token
  decides (`openSealed_eq`). What a later key makes of the token does not count,
  even if the first one opens it to nothing that is in force.

  - `opened?_eq_some`: which of the configured texts decides.
  - `authenticate_eq_authenticated`: who is authenticated, exactly.
  - `opened?_congr`: if no two keys open the token, their order, repetitions
    and texts that are no key make no difference.
-/

namespace RecordGate

/-! ### Searches with one hit -/

section
variable {α β : Type} {test : α → Option β} {xs ys : List α}

/-- The only hit is found wherever it stands. -/
theorem findSome?_of_sole {x : α} {v : β} (hx : x ∈ xs)
    (hsole : ∀ y ∈ xs, (test y).isSome → y = x) (hit : test x = some v) :
    xs.findSome? test = some v := by
  cases hfound : xs.findSome? test with
  | none =>
    have hnone : ∀ y ∈ xs, test y = none := List.findSome?_eq_none_iff.mp hfound
    rw [hnone x hx] at hit
    cases hit
  | some w =>
    obtain ⟨y, hy, hit'⟩ := List.exists_of_findSome?_eq_some hfound
    have hsame : y = x := hsole y hy (by rw [hit']; rfl)
    rw [hsame, hit] at hit'
    exact hit'.symm

/-- A search for the only hit comes to the same in any order. -/
theorem findSome?_congr (hsame : ∀ x, x ∈ xs ↔ x ∈ ys)
    (hsole : ∀ x ∈ xs, ∀ y ∈ xs, (test x).isSome → (test y).isSome → x = y) :
    xs.findSome? test = ys.findSome? test := by
  cases hfound : xs.findSome? test with
  | none =>
    have hnone : ∀ x ∈ xs, test x = none := List.findSome?_eq_none_iff.mp hfound
    symm
    apply List.findSome?_eq_none_iff.mpr
    intro x hx
    exact hnone x ((hsame x).mpr hx)
  | some v =>
    obtain ⟨x, hx, hit⟩ := List.exists_of_findSome?_eq_some hfound
    have hisSome : (test x).isSome := by rw [hit]; rfl
    symm
    apply findSome?_of_sole ((hsame x).mp hx) _ hit
    intro y hy hisSome'
    exact hsole y ((hsame y).mpr hy) x hx hisSome' hisSome

end

namespace Auth

/-- The header presents a token: what follows `Bearer `, without the blanks
    around it, if anything is left. -/
def Presents (header : Option String) (token : String) : Prop :=
  ∃ rest, header = some ("Bearer " ++ rest) ∧ token = Text.trim rest ∧ token ≠ ""

/-- Claims are in force unless the time has passed at which they expire. -/
def InForce (c : Claims) (now : Time.Instant) : Prop :=
  ∀ t, c.expiresAt = some t → t.lt now = false

/-- The keys that are configured, in order. -/
def materials (keys : List String) : List Sealed.Key :=
  keys.filterMap keyMaterial?

/-- What the first key that opens a token opens it to. -/
def opened? (opener : Opener) (ks : List Sealed.Key) (token : String) : Option Json :=
  ks.findSome? fun k => opener k token

/-- At most one of some keys opens a token. -/
def SoleKey (opener : Opener) (ks : List Sealed.Key) (token : String) : Prop :=
  ∀ k ∈ ks, ∀ k' ∈ ks, (opener k token).isSome → (opener k' token).isSome → k = k'

variable {opener : Opener} {now : Time.Instant} {keys keys' : List String}
  {ks ks' : List Sealed.Key} {header : Option String} {token : String} {c : Claims}

/-! ### The token of a header -/

theorem bearerToken?_eq_some {text : String} :
    bearerToken? text = some token ↔ Presents (some text) token := by
  unfold bearerToken? Presents
  constructor
  · intro h
    split at h
    · cases h
    next rest hrest =>
      have hback : (String.ofList rest).toList = rest := String.toList_ofList
      have htext : text = "Bearer " ++ String.ofList rest := by
        rw [← String.toList_inj, String.toList_append, hback]
        exact Text.dropStart?_eq_some.mp hrest
      dsimp only at h
      split at h
      · cases h
      next hleft =>
        cases h
        refine ⟨String.ofList rest, by rw [htext], ?_, ?_⟩
        · unfold Text.trim
          rw [hback]
        · intro hempty
          apply hleft
          rw [← String.toList_inj, String.toList_ofList] at hempty
          rw [hempty]
          rfl
  · rintro ⟨rest, htext, rfl, hleft⟩
    cases htext
    have hrest : Text.dropStart? "Bearer ".toList ("Bearer " ++ rest).toList = some rest.toList := by
      rw [Text.dropStart?_eq_some, String.toList_append]
    rw [hrest]
    dsimp only
    rw [if_neg]
    · rfl
    · intro hempty
      apply hleft
      unfold Text.trim
      rw [List.isEmpty_iff.mp hempty]

/-- The token of a header has no blanks around it any more. -/
theorem Presents.trimmed (h : Presents header token) : Text.trim token = token := by
  obtain ⟨rest, -, rfl, -⟩ := h
  exact Text.trim_trim rest

/-! ### The keys -/

/-- The first key that opens a token decides. -/
theorem openSealed_eq (opener : Opener) (token : String) (keys : List String) :
    openSealed opener token keys =
      match opened? opener (materials keys) token with
      | none => .error (.invalidToken "paseto validation failed")
      | some v =>
        match Claims.ofJson? v with
        | some c => .ok c
        | none => .error badClaims := by
  induction keys with
  | nil => rfl
  | cons raw rest ih =>
    unfold openSealed
    cases hraw : keyMaterial? raw with
    | none =>
      have hpassed : materials (raw :: rest) = materials rest := List.filterMap_cons_none hraw
      rw [hpassed]
      exact ih
    | some k =>
      have htried : materials (raw :: rest) = k :: materials rest := List.filterMap_cons_some hraw
      rw [htried]
      cases hopen : opener k token with
      | none =>
        have hlater : opened? opener (k :: materials rest) token =
            opened? opener (materials rest) token := by
          unfold opened?
          rw [List.findSome?_cons, hopen]
        rw [hlater, ← ih]
        simp only [hopen]
      | some v =>
        have hfirst : opened? opener (k :: materials rest) token = some v := by
          unfold opened?
          rw [List.findSome?_cons, hopen]
        rw [hfirst]
        cases hclaims : Claims.ofJson? v with
        | none => simp only [hopen, hclaims]
        | some c => simp only [hopen, hclaims]

theorem mem_materials {k : Sealed.Key} :
    k ∈ materials keys ↔ ∃ raw ∈ keys, keyMaterial? raw = some k := by
  unfold materials
  exact List.mem_filterMap

/-- The text that decides is the first of a key that opens the token. -/
theorem opened?_eq_some {v : Json} : opened? opener (materials keys) token = some v ↔
    ∃ before raw after k, keys = before ++ raw :: after ∧
      (∀ raw' ∈ before, ∀ k', keyMaterial? raw' = some k' → opener k' token = none) ∧
      keyMaterial? raw = some k ∧ opener k token = some v := by
  unfold opened? materials
  rw [← List.head?_filterMap, List.filterMap_filterMap, List.head?_filterMap,
    List.findSome?_eq_some_iff]
  constructor
  · rintro ⟨before, raw, after, hkeys, hopens, hbefore⟩
    obtain ⟨k, hk, hopen⟩ := Option.bind_eq_some_iff.mp hopens
    refine ⟨before, raw, after, k, hkeys, ?_, hk, hopen⟩
    intro raw' hraw' k' hk'
    have hnone := hbefore raw' hraw'
    rw [hk'] at hnone
    exact hnone
  · rintro ⟨before, raw, after, k, hkeys, hbefore, hk, hopen⟩
    refine ⟨before, raw, after, hkeys, Option.bind_eq_some_iff.mpr ⟨k, hk, hopen⟩, ?_⟩
    intro raw' hraw'
    cases hk' : keyMaterial? raw' with
    | none => rfl
    | some k' => exact hbefore raw' hraw' k' hk'

/-- The only key that opens a token decides wherever it stands. -/
theorem opened?_of_sole {k : Sealed.Key} {v : Json} (hk : k ∈ ks)
    (hsole : ∀ k' ∈ ks, (opener k' token).isSome → k' = k) (hopen : opener k token = some v) :
    opened? opener ks token = some v :=
  findSome?_of_sole hk hsole hopen

/-- The same keys in any order, any number of times, open a token to the same,
    if no two of them open it. -/
theorem opened?_congr (hsame : ∀ k, k ∈ ks ↔ k ∈ ks') (hsole : SoleKey opener ks token) :
    opened? opener ks token = opened? opener ks' token :=
  findSome?_congr hsame hsole

/-! ### The caller -/

theorem inForce_iff : InForce c now ↔ c.isExpired now = false := by
  unfold InForce Claims.isExpired
  cases c.expiresAt with
  | none => simp
  | some t => simp

/-- A token is valid if it opens to claims in force. -/
theorem validate_eq_ok : validate opener now keys token = .ok c ↔
    openToken opener keys (Text.trim token) = .ok c ∧ InForce c now := by
  rw [inForce_iff]
  unfold validate
  cases openToken opener keys (Text.trim token) with
  | error e => simp
  | ok c' =>
    dsimp only
    by_cases hexpired : c'.isExpired now = true
    · rw [if_pos hexpired]
      constructor
      · intro h
        cases h
      · rintro ⟨hc, hforce⟩
        cases hc
        rw [hexpired] at hforce
        cases hforce
    · rw [if_neg hexpired]
      constructor
      · intro h
        cases h
        exact ⟨rfl, eq_false_of_ne_true hexpired⟩
      · rintro ⟨hc, -⟩
        exact hc

/-- With keys, a plain token is not even tried. -/
theorem openToken_keyed (hkeys : keys ≠ []) (opener : Opener) (token : String) :
    openToken opener keys token = openSealed opener token keys := by
  unfold openToken
  rw [if_neg]
  intro hempty
  exact hkeys (List.isEmpty_iff.mp hempty)

theorem openSealed_eq_ok : openSealed opener token keys = .ok c ↔
    ∃ v, opened? opener (materials keys) token = some v ∧ Claims.ofJson? v = some c := by
  rw [openSealed_eq]
  cases opened? opener (materials keys) token with
  | none => simp
  | some v =>
    cases hread : Claims.ofJson? v with
    | none => simp [hread]
    | some c' => simp [hread]

theorem authenticate_eq_anonymous :
    authenticate opener now keys header = .anonymous ↔ header = none := by
  unfold authenticate
  split
  · exact iff_of_true rfl rfl
  · apply iff_of_false
    · split
      · intro h
        cases h
      · split <;> exact nofun
    · exact nofun

/-- Who is authenticated: the bearer of a token that the first key that opens
    it opens to claims in force. -/
theorem authenticate_eq_authenticated (hkeys : keys ≠ []) :
    authenticate opener now keys header = .authenticated c ↔
      ∃ token v, Presents header token ∧ opened? opener (materials keys) token = some v ∧
        Claims.ofJson? v = some c ∧ InForce c now := by
  constructor
  · intro h
    unfold authenticate at h
    split at h
    · cases h
    next text =>
      split at h
      · cases h
      next token htoken =>
        have hpresents : Presents (some text) token := bearerToken?_eq_some.mp htoken
        split at h
        next c' hvalid =>
          cases h
          obtain ⟨hopen, hforce⟩ := validate_eq_ok.mp hvalid
          rw [hpresents.trimmed, openToken_keyed hkeys] at hopen
          obtain ⟨v, hopened, hread⟩ := openSealed_eq_ok.mp hopen
          exact ⟨token, v, hpresents, hopened, hread, hforce⟩
        · cases h
  · rintro ⟨token, v, hpresents, hopened, hread, hforce⟩
    have hopen : openToken opener keys (Text.trim token) = .ok c := by
      rw [hpresents.trimmed, openToken_keyed hkeys]
      exact openSealed_eq_ok.mpr ⟨v, hopened, hread⟩
    have hvalid : validate opener now keys token = .ok c := validate_eq_ok.mpr ⟨hopen, hforce⟩
    obtain ⟨rest, hheader, -⟩ := id hpresents
    subst hheader
    unfold authenticate
    dsimp only
    rw [bearerToken?_eq_some.mpr hpresents]
    dsimp only
    rw [hvalid]

/-- Configurations of the same keys treat every header alike, if no two of
    these keys open one token. -/
theorem authenticate_congr (hkeys : keys ≠ []) (hkeys' : keys' ≠ [])
    (hsame : ∀ k, k ∈ materials keys ↔ k ∈ materials keys')
    (hsole : ∀ token, Presents header token → SoleKey opener (materials keys) token) :
    authenticate opener now keys' header = authenticate opener now keys header := by
  unfold authenticate
  split
  · rfl
  next text =>
    cases htoken : bearerToken? text with
    | none => rfl
    | some token =>
      have hpresents : Presents (some text) token := bearerToken?_eq_some.mp htoken
      have hopened := opened?_congr hsame (hsole token hpresents)
      dsimp only
      unfold validate
      rw [hpresents.trimmed, openToken_keyed hkeys, openToken_keyed hkeys', openSealed_eq,
        openSealed_eq, hopened]

/-- Whoever sends a header is authenticated or rejected. -/
theorem exists_rejected (hheader : header ≠ none)
    (hnobody : ∀ c, authenticate opener now keys header ≠ .authenticated c) :
    ∃ reason, authenticate opener now keys header = .rejected reason := by
  cases hcaller : authenticate opener now keys header with
  | anonymous => exact absurd (authenticate_eq_anonymous.mp hcaller) hheader
  | authenticated c => exact absurd hcaller (hnobody c)
  | rejected reason => exact ⟨reason, rfl⟩

/-- A header presents one token at most. -/
theorem Presents.unique {token' : String} (h : Presents header token)
    (h' : Presents header token') : token = token' := by
  obtain ⟨rest, rfl, -⟩ := id h
  have hboth := (bearerToken?_eq_some.mpr h).symm.trans (bearerToken?_eq_some.mpr h')
  exact Option.some.inj hboth

/-- Authentication under keys, for any way to open tokens.

    - The caller is anonymous exactly if there is no header.
    - Authenticated is exactly the bearer of a token that the first key that opens
      it opens to claims in force; in particular nobody, if no text is a key.
    - Whoever sends a header and is not authenticated is rejected.
    - If the first key that opens the token opens it to no claims in force, its
      bearer is rejected, whatever the keys behind make of it.
    - Where one key alone opens the token, and to claims in force, its bearer
      is authenticated, wherever the key stands.
    - The order of the keys, repetitions and texts that are no key make no
      difference, if no two keys open the token. -/
theorem keyed_authentication (opener : Opener) (now : Time.Instant) {keys : List String}
    (hkeys : keys ≠ []) (header : Option String) :
    (authenticate opener now keys header = .anonymous ↔ header = none) ∧
    (∀ c, authenticate opener now keys header = .authenticated c ↔
      ∃ token before raw after k v, Presents header token ∧ keys = before ++ raw :: after ∧
        (∀ raw' ∈ before, ∀ k', keyMaterial? raw' = some k' → opener k' token = none) ∧
        keyMaterial? raw = some k ∧ opener k token = some v ∧ Claims.ofJson? v = some c ∧
        InForce c now) ∧
    (header ≠ none → (∀ c, authenticate opener now keys header ≠ .authenticated c) →
      ∃ reason, authenticate opener now keys header = .rejected reason) ∧
    (∀ token before raw after k v, Presents header token → keys = before ++ raw :: after →
      (∀ raw' ∈ before, ∀ k', keyMaterial? raw' = some k' → opener k' token = none) →
      keyMaterial? raw = some k → opener k token = some v →
      (∀ c, Claims.ofJson? v = some c → ¬ InForce c now) →
      ∃ reason, authenticate opener now keys header = .rejected reason) ∧
    (∀ token raw k v c, Presents header token → raw ∈ keys → keyMaterial? raw = some k →
      (∀ raw' ∈ keys, ∀ k', keyMaterial? raw' = some k' → (opener k' token).isSome → k' = k) →
      opener k token = some v → Claims.ofJson? v = some c → InForce c now →
      authenticate opener now keys header = .authenticated c) ∧
    (∀ keys', keys' ≠ [] → (∀ k, k ∈ materials keys ↔ k ∈ materials keys') →
      (∀ token, Presents header token → SoleKey opener (materials keys) token) →
      authenticate opener now keys' header = authenticate opener now keys header) := by
  refine ⟨authenticate_eq_anonymous, ?_, exists_rejected, ?_, ?_, ?_⟩
  · intro c
    rw [authenticate_eq_authenticated hkeys]
    constructor
    · rintro ⟨token, v, hpresents, hopened, hread, hforce⟩
      obtain ⟨before, raw, after, k, hsplit, hbefore, hk, hopen⟩ := opened?_eq_some.mp hopened
      exact ⟨token, before, raw, after, k, v, hpresents, hsplit, hbefore, hk, hopen, hread, hforce⟩
    · rintro ⟨token, before, raw, after, k, v, hpresents, hsplit, hbefore, hk, hopen, hread, hforce⟩
      have hopened := opened?_eq_some.mpr ⟨before, raw, after, k, hsplit, hbefore, hk, hopen⟩
      exact ⟨token, v, hpresents, hopened, hread, hforce⟩
  · intro token before raw after k v hpresents hsplit hbefore hk hopen hexpired
    have hopened := opened?_eq_some.mpr ⟨before, raw, after, k, hsplit, hbefore, hk, hopen⟩
    apply exists_rejected
    · obtain ⟨rest, rfl, -⟩ := hpresents
      exact Option.some_ne_none _
    · intro c hc
      obtain ⟨token', v', hpresents', hopened', hread, hforce⟩ :=
        (authenticate_eq_authenticated hkeys).mp hc
      rw [← hpresents.unique hpresents', hopened] at hopened'
      cases hopened'
      exact hexpired c hread hforce
  · intro token raw k v c hpresents hraw hmaterial hsole hopen hread hforce
    have hopened : opened? opener (materials keys) token = some v := by
      apply opened?_of_sole (mem_materials.mpr ⟨raw, hraw, hmaterial⟩) _ hopen
      intro k' hk' hisSome
      obtain ⟨raw', hraw', hmaterial'⟩ := mem_materials.mp hk'
      exact hsole raw' hraw' k' hmaterial' hisSome
    exact (authenticate_eq_authenticated hkeys).mpr
      ⟨token, v, hpresents, hopened, hread, hforce⟩
  · intro keys' hkeys' hsame hsole
    exact authenticate_congr hkeys hkeys' hsame hsole

/-- A key in hexadecimal digits. -/
def annKey : String := "000102030405060708090a0b0c0d0e0f101112131415161718191a1b1c1d1e1f"

/-- An opener of one token, by one key. -/
def annOpener : Opener := fun k token =>
  if keyMaterial? annKey = some k ∧ token = "v4.local.ann" then some (.obj [("_id", .str "ann")])
  else none

/-- Behind a text that is no key and a key that does not open it, a token is
    opened; and a plain token is rejected, although no text is a key. -/
theorem ann_admitted :
    authenticate annOpener ⟨0, 0⟩ ["no key", "0123456789abcdef0123456789abcdef", annKey]
      (some "Bearer  v4.local.ann") = .authenticated ⟨"ann", [], none, none, []⟩ ∧
    ∃ reason, authenticate (Sealed.open? ⟨0, 0⟩) ⟨0, 0⟩ ["no key"]
      (some "Bearer json:\x7b\"_id\":\"ann\"\x7d") = .rejected reason := by
  constructor
  · have hsome : (keyMaterial? annKey).isSome = true := by decide +kernel
    obtain ⟨k, hk⟩ := Option.isSome_iff_exists.mp hsome
    have hopen : annOpener k "v4.local.ann" = some (.obj [("_id", .str "ann")]) :=
      if_pos ⟨hk, rfl⟩
    have hkeyed := keyed_authentication annOpener ⟨0, 0⟩
      (List.cons_ne_nil "no key" ["0123456789abcdef0123456789abcdef", annKey])
      (some "Bearer  v4.local.ann")
    apply hkeyed.2.2.2.2.1 "v4.local.ann" annKey k _ _ _ _ hk _ hopen
    · decide +kernel
    · exact inForce_iff.mpr rfl
    · exact ⟨" v4.local.ann", rfl, by decide +kernel, by decide⟩
    · simp
    · -- the opener opens by this key alone
      intro raw' _ k' _ hopens
      unfold annOpener at hopens
      split at hopens
      next hboth =>
        have hsame : some k = some k' := hk.symm.trans hboth.1
        exact (Option.some.inj hsame).symm
      · cases hopens
  · have hkeyed := keyed_authentication (Sealed.open? ⟨0, 0⟩) ⟨0, 0⟩
      (List.cons_ne_nil "no key" []) (some "Bearer json:\x7b\"_id\":\"ann\"\x7d")
    apply hkeyed.2.2.1
    · exact Option.some_ne_none _
    · intro c hc
      obtain ⟨token, before, raw, after, k, v, -, hsplit, -, hmaterial, -⟩ := (hkeyed.2.1 c).mp hc
      have hraw : raw ∈ ["no key"] := hsplit ▸ List.mem_append_right _ List.mem_cons_self
      have hnone : keyMaterial? "no key" = none := by decide +kernel
      rw [List.mem_singleton.mp hraw, hnone] at hmaterial
      cases hmaterial

/-! ### Keys that open a token in vain -/

/-- Claims of a bearer, and of nobody else. -/
def annClaims : Claims := ⟨"ann", [], none, none, []⟩

/-- Another key, as it stands. -/
def bobKey : String := "0123456789abcdef0123456789abcdef"

/-- An opener of one token by two keys, by the first one to claims of nobody. -/
def twiceOpener : Opener := fun k token =>
  if token = "v4.local.ann" then
    if keyMaterial? bobKey = some k then some (.obj [])
    else if keyMaterial? annKey = some k then some (.obj [("_id", .str "ann")])
    else none
  else none

/-- Both keys open the token, and one of them to claims. -/
theorem twice_opened : ∃ k k', keyMaterial? bobKey = some k ∧ keyMaterial? annKey = some k' ∧
    k ≠ k' ∧ (twiceOpener k "v4.local.ann").map Claims.ofJson? = some none ∧
    (twiceOpener k' "v4.local.ann").map Claims.ofJson? = some (some annClaims) := by
  have htest : ((keyMaterial? bobKey).bind fun k => (keyMaterial? annKey).map fun k' =>
      decide (k ≠ k' ∧ (twiceOpener k "v4.local.ann").map Claims.ofJson? = some none ∧
        (twiceOpener k' "v4.local.ann").map Claims.ofJson? = some (some annClaims))) =
          some true := by decide +kernel
  obtain ⟨k, hk, htest⟩ := Option.bind_eq_some_iff.mp htest
  obtain ⟨k', hk', htest⟩ := Option.map_eq_some_iff.mp htest
  exact ⟨k, k', hk, hk', of_decide_eq_true htest⟩

/-- A token that `annKey` sealed, with claims for a time to come. -/
def deferredToken : String :=
  "v4.local.AAECAwQFBgcICQoLDA0ODxAREhMUFRYXGBkaGxw" ++
    "dHh94UpB32xIjZG6hwtuNNurLVoF1onbnyaMtd9guok1qYOs3Rkx" ++
    "FbymEqdTSVi2fIvS0imvqtCtoM9DgoXV1bA8-wDsbta8Mc5rFmg"

/-- The claims in the token. -/
def deferredText : String := "\x7b\"_id\":\"ann\",\"nbf\":\"2999-01-01T00:00:00Z\"\x7d"

/-- The same as they are read. -/
def deferredClaims : Claims := ⟨"ann", [], none, none, [("nbf", .str "2999-01-01T00:00:00Z")]⟩

theorem openText?_deferredToken :
    (keyMaterial? annKey).bind (Sealed.openText? · deferredToken) = some deferredText := by
  decide +kernel

/-- Before its time the token is not opened, although its key gives its claims away. -/
theorem open?_deferredToken : ∃ k, keyMaterial? annKey = some k ∧
    Sealed.openText? k deferredToken = some deferredText ∧
    Sealed.open? ⟨0, 0⟩ k deferredToken = none := by
  obtain ⟨k, hk, htext⟩ := Option.bind_eq_some_iff.mp openText?_deferredToken
  have htimes : (Json.ofText? deferredText).map (fun v =>
      Sealed.timeClaim v "exp" (Time.Instant.lt ⟨0, 0⟩) &&
        Sealed.timeClaim v "nbf" fun t => t.lt ⟨0, 0⟩) = some false := by decide +kernel
  obtain ⟨v, hv, htimes⟩ := Option.map_eq_some_iff.mp htimes
  refine ⟨k, hk, htext, ?_⟩
  unfold Sealed.open?
  rw [htext]
  simp only [Option.bind_eq_bind, Option.bind_some, hv]
  rw [if_neg]
  rw [htimes]
  exact Bool.false_ne_true

/-- One key alone opens a token to claims in force, and its bearer is rejected all the
    same. So it is where a key before it opens the token to claims of nobody, but not
    where that key stands behind it; and so it is where the claims are for a time to
    come. -/
theorem first_key_decides :
    (∃ k k', keyMaterial? bobKey = some k ∧ keyMaterial? annKey = some k' ∧ k ≠ k' ∧
      (twiceOpener k "v4.local.ann").map Claims.ofJson? = some none ∧
      (twiceOpener k' "v4.local.ann").map Claims.ofJson? = some (some annClaims)) ∧
    InForce annClaims ⟨0, 0⟩ ∧
    (∃ reason, authenticate twiceOpener ⟨0, 0⟩ [bobKey, annKey] (some "Bearer v4.local.ann") =
      .rejected reason) ∧
    authenticate twiceOpener ⟨0, 0⟩ [annKey, bobKey] (some "Bearer v4.local.ann") =
      .authenticated annClaims ∧
    (∃ k, keyMaterial? annKey = some k ∧ Sealed.openText? k deferredToken = some deferredText) ∧
    Claims.ofText? deferredText = some deferredClaims ∧ InForce deferredClaims ⟨0, 0⟩ ∧
    ∃ reason, authenticate (Sealed.open? ⟨0, 0⟩) ⟨0, 0⟩ [annKey]
      (some ("Bearer " ++ deferredToken)) = .rejected reason := by
  obtain ⟨k, hk, htext, hshut⟩ := open?_deferredToken
  refine ⟨twice_opened, inForce_iff.mpr rfl, ⟨badClaims.message, by decide +kernel⟩,
    by decide +kernel, ⟨k, hk, htext⟩, by decide +kernel, inForce_iff.mpr rfl, ?_⟩
  apply exists_rejected (Option.some_ne_none _)
  intro c hc
  obtain ⟨token, v, hpresents, hopened, -⟩ :=
    (authenticate_eq_authenticated (List.cons_ne_nil annKey [])).mp hc
  have htoken : Presents (some ("Bearer " ++ deferredToken)) deferredToken :=
    ⟨deferredToken, rfl, by decide +kernel, by decide⟩
  have hmaterials : materials [annKey] = [k] := List.filterMap_cons_some hk
  rw [← htoken.unique hpresents, hmaterials] at hopened
  unfold opened? at hopened
  rw [List.findSome?_cons, hshut] at hopened
  cases hopened

end Auth

end RecordGate

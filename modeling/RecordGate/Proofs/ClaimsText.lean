import RecordGate.Proofs.JsonText

/-! # Claims read back

  What a token says is written as an object and read from one again.

  **Key idea.** Each member of the object belongs to one claim (`Claims.Part`), and the
  reader puts it into the place of that claim, whatever was read before it: after some
  members the draft holds what these say (`Claims.drafted`). So the order of the
  members does not matter, as long as no name occurs twice.

  - `proper_of_ofText?`: the further claims of a text are a record without the names
    of the known ones.
  - `Complete.ofMembers?`: members that say every claim are read as the claims.
  - `complete_written`, `complete_serialized`: what is written says every claim.
  - `round_trip` puts it together.
-/

namespace RecordGate.Claims

/-- The names of the known claims; the identifier has two. -/
def known : List String :=
  [idField, "sub", "roles", "iat", "exp"]

/-! ### Further claims -/

variable {c : Claims} {p p' : Draft} {name : String} {value : Json} {members : List (String × Json)}

/-- Reading a member leaves the further claims alone, unless it is one of them. -/
theorem readMember_extra (h : readMember p name value = some p') :
    p'.extra = p.extra ∨ name ∉ known ∧ p'.extra = p.extra.insert name value := by
  unfold readMember at h
  split at h
  · left
    split at h
    · cases h
      rfl
    · cases h
  next hid =>
    split at h
    · left
      split at h
      · obtain ⟨_, -, rfl⟩ := Option.map_eq_some_iff.mp h
        rfl
      · cases h
    next hroles =>
      split at h
      · left
        split at h
        · obtain ⟨_, -, rfl⟩ := Option.map_eq_some_iff.mp h
          rfl
        · cases h
      next hiat =>
        split at h
        · left
          split at h
          · obtain ⟨_, -, rfl⟩ := Option.map_eq_some_iff.mp h
            rfl
          · cases h
        next hexp =>
          right
          simp only [Bool.or_eq_true, decide_eq_true_eq, not_or] at hid
          cases h
          exact ⟨by simp [known, hid, hroles, hiat, hexp], rfl⟩

/-- The further claims that were read are a record of members whose names are not
    known. -/
theorem readMembers_extra (h : readMembers members p = some p') (hsorted : p.extra.Sorted) :
    p'.extra.Sorted ∧ ∀ m ∈ p'.extra, m ∈ p.extra ∨ m ∈ members ∧ m.1 ∉ known := by
  induction members generalizing p with
  | nil =>
    cases h
    exact ⟨hsorted, fun m hm => .inl hm⟩
  | cons first rest ih =>
    obtain ⟨name, value⟩ := first
    unfold readMembers at h
    split at h
    next q hq =>
      rcases readMember_extra hq with hsame | ⟨hname, hinsert⟩
      · obtain ⟨hsorted', hmembers⟩ := ih h (hsame ▸ hsorted)
        refine ⟨hsorted', fun m hm => ?_⟩
        rcases hmembers m hm with hold | ⟨hrest, hknown⟩
        · exact .inl (hsame ▸ hold)
        · exact .inr ⟨List.mem_cons_of_mem _ hrest, hknown⟩
      · obtain ⟨hsorted', hmembers⟩ := ih h (hinsert ▸ hsorted.insert name value)
        refine ⟨hsorted', fun m hm => ?_⟩
        rcases hmembers m hm with hold | ⟨hrest, hknown⟩
        · rw [hinsert] at hold
          rcases Record.mem_insert hold with rfl | hold
          · exact .inr ⟨List.mem_cons_self, hname⟩
          · exact .inl hold
        · exact .inr ⟨List.mem_cons_of_mem _ hrest, hknown⟩
    · cases h

/-- Further claims as a text can have them: a record of values that JSON can hold,
    without the names of the known claims. -/
structure Proper (extra : Record) : Prop where
  sorted : extra.Sorted
  fits : ∀ m ∈ extra, m.2.Fits (Json.Reader.maxDepth - 1)
  unknown : ∀ m ∈ extra, m.1 ∉ known

theorem proper_of_ofText? {text : String} (h : ofText? text = some c) : Proper c.extra := by
  obtain ⟨members, hmembers, hread⟩ := Option.bind_eq_some_iff.mp h
  have hfits := Json.fits_of_membersOfText? hmembers
  unfold ofMembers? at hread
  split at hread
  next p hp =>
    obtain ⟨id, -, rfl⟩ := Option.map_eq_some_iff.mp hread
    obtain ⟨hsorted, hextra⟩ := readMembers_extra hp Record.sorted_nil
    have hparts : ∀ m ∈ p.extra, m ∈ members ∧ m.1 ∉ known := fun m hm =>
      (hextra m hm).resolve_left List.not_mem_nil
    exact ⟨hsorted, fun m hm => hfits m (hparts m hm).1, fun m hm => (hparts m hm).2⟩
  · cases hread

/-! ### Members in any order -/

/-- A member says one of the claims. -/
inductive Part (c : Claims) : String × Json → Prop
  | id : Part c (idField, .str c.id)
  | roles : Part c ("roles", c.rolesJson)
  | issuedAt {s : String} (h : (Time.relaxed? s.toList).map some = some c.issuedAt) :
      Part c ("iat", .str s)
  | expiresAt {s : String} (h : (Time.relaxed? s.toList).map some = some c.expiresAt) :
      Part c ("exp", .str s)
  | extra {name : String} {value : Json} (h : name ∉ known) : Part c (name, value)

/-- What is known of the claims after some members. -/
def drafted (c : Claims) (members : List (String × Json)) : Draft where
  id := if idField ∈ Record.names members then some c.id else none
  roles := if "roles" ∈ Record.names members then some c.roles else none
  issuedAt := if "iat" ∈ Record.names members then some c.issuedAt else none
  expiresAt := if "exp" ∈ Record.names members then some c.expiresAt else none
  extra := Record.ofList (Record.keep members fun name => name ∉ known)

theorem texts?_rolesJson (roles : List String) : texts? (roles.map .str) = some roles := by
  induction roles with
  | nil => rfl
  | cons s rest ih =>
    rw [List.map_cons, texts?, ih]
    rfl

theorem ofList_append (pairs : List (String × Json)) (m : String × Json) :
    Record.ofList (pairs ++ [m]) = (Record.ofList pairs).insert m.1 m.2 := by
  unfold Record.ofList Record.merge
  rw [List.foldl_append]
  rfl

/-- One more member says one more claim. -/
theorem drafted_append (c : Claims) (members : List (String × Json)) (m : String × Json) :
    c.drafted (members ++ [m]) =
      { id := if m.1 = idField then some c.id else (c.drafted members).id
        roles := if m.1 = "roles" then some c.roles else (c.drafted members).roles
        issuedAt := if m.1 = "iat" then some c.issuedAt else (c.drafted members).issuedAt
        expiresAt := if m.1 = "exp" then some c.expiresAt else (c.drafted members).expiresAt
        extra := if m.1 ∈ known then (c.drafted members).extra
          else (c.drafted members).extra.insert m.1 m.2 } := by
  have hplace : ∀ {α : Type} (name : String) (a : α),
      (if name ∈ Record.names (members ++ [m]) then some a else none) =
        if m.1 = name then some a else if name ∈ Record.names members then some a else none := by
    intro α name a
    have hnames : name ∈ Record.names (members ++ [m]) ↔ name ∈ Record.names members ∨ name = m.1 := by
      unfold Record.names
      rw [List.map_append, List.mem_append, List.map_singleton, List.mem_singleton]
    by_cases hname : m.1 = name
    · simp [hnames, hname]
    · simp [hnames, hname, Ne.symm hname]
  unfold drafted
  simp only [hplace, Draft.mk.injEq, true_and]
  unfold Record.keep
  rw [List.filter_append]
  by_cases hknown : m.1 ∈ known
  · simp [hknown]
  · simp [hknown, ofList_append]

/-- A member is put into its place. -/
theorem readMember_part {m : String × Json} (h : Part c m) (hnew : m.1 ∉ Record.names members) :
    readMember (c.drafted members) m.1 m.2 = some (c.drafted (members ++ [m])) := by
  rw [drafted_append]
  cases h with
  | id =>
    have hnew : idField ∉ Record.names members := hnew
    unfold idField at hnew
    simp [readMember, drafted, hnew, known, idField]
  | roles => simp [readMember, drafted, hnew, known, idField, rolesJson, texts?_rolesJson]
  | issuedAt h => simp [readMember, drafted, hnew, known, idField, time?, h]
  | expiresAt h => simp [readMember, drafted, hnew, known, idField, time?, h]
  | extra h =>
    simp only [known, List.mem_cons, List.not_mem_nil, or_false, not_or] at h
    simp [readMember, known, h]

/-- So are all members, one after the other. -/
theorem readMembers_parts {done rest : List (String × Json)} (h : ∀ m ∈ rest, Part c m)
    (hnodup : (Record.names (done ++ rest)).Nodup) :
    readMembers rest (c.drafted done) = some (c.drafted (done ++ rest)) := by
  -- the draft says which members were read, so it takes the place of a counter
  induction rest generalizing done with
  | nil => rw [List.append_nil, readMembers]
  | cons m rest ih =>
    have hsplit : done ++ m :: rest = done ++ [m] ++ rest := by simp
    have hnew : m.1 ∉ Record.names done := by
      intro hold
      unfold Record.names at hnodup hold
      rw [List.map_append, List.map_cons] at hnodup
      exact (List.nodup_append.mp hnodup).2.2 _ hold _ List.mem_cons_self rfl
    unfold readMembers
    rw [readMember_part (h m List.mem_cons_self) hnew]
    rw [hsplit] at hnodup ⊢
    exact ih (fun m hm => h m (List.mem_cons_of_mem _ hm)) hnodup

/-- Every claim is said by a member. -/
structure Complete (c : Claims) (members : List (String × Json)) : Prop where
  parts : ∀ m ∈ members, Part c m
  once : (Record.names members).Nodup
  id : idField ∈ Record.names members
  roles : "roles" ∈ Record.names members ∨ c.roles = []
  issuedAt : "iat" ∈ Record.names members ∨ c.issuedAt = none
  expiresAt : "exp" ∈ Record.names members ∨ c.expiresAt = none
  extra : Record.ofList (Record.keep members fun name => name ∉ known) = c.extra

/-- Members that say every claim are read as the claims. -/
theorem Complete.ofMembers? (h : Complete c members) : Claims.ofMembers? members = some c := by
  have hread := @readMembers_parts c [] members h.parts h.once
  have hstart : c.drafted [] = ⟨none, none, none, none, []⟩ := by
    simp [drafted, Record.names, Record.keep, Record.ofList, Record.merge]
  rw [hstart, List.nil_append] at hread
  have hdefault : ∀ {α : Type} (name : String) (a b : α), name ∈ Record.names members ∨ a = b →
      (if name ∈ Record.names members then some a else none).getD b = a := by
    intro α name a b hname
    by_cases hin : name ∈ Record.names members
    · rw [if_pos hin]
      rfl
    · rw [if_neg hin, hname.resolve_left hin]
      rfl
  unfold Claims.ofMembers?
  rw [hread]
  dsimp only [drafted]
  rw [if_pos h.id, hdefault _ _ _ h.roles, hdefault _ _ _ h.issuedAt, hdefault _ _ _ h.expiresAt,
    h.extra]
  rfl

/-! ### The members that are written -/

/-- The member of a time claim, if there is a time. -/
def timeMembers (name : String) : Option Time.Instant → List (String × Json)
  | some t => [(name, .str (t.render .exact .zulu))]
  | none => []

/-- The members of the known claims; what is empty is left out. -/
def front (c : Claims) : List (String × Json) :=
  (idField, .str c.id) :: (if c.roles.isEmpty then [] else [("roles", c.rolesJson)]) ++
    timeMembers "iat" c.issuedAt ++ timeMembers "exp" c.expiresAt

/-- The members in the order in which they are written: the known claims, then the
    further ones. -/
def written (c : Claims) : List (String × Json) :=
  c.front ++ c.extra

/-- The claims as a text. -/
def text (c : Claims) : String :=
  (Json.obj c.written).text

theorem insertTime_eq (r : Record) (name : String) (t : Option Time.Instant) :
    insertTime r name .zulu t = r.merge (timeMembers name t) := by
  cases t <;> rfl

/-- The record form holds the members that are written. -/
theorem serialized_eq (c : Claims) : c.serialized = Record.ofList c.written := by
  unfold serialized written front Record.ofList
  dsimp only
  rw [insertTime_eq, insertTime_eq]
  unfold Record.merge
  rw [List.foldl_append, List.foldl_append, List.foldl_append]
  split <;> rfl

/-- The times of the claims are read from their texts. -/
def TimesReadBack (c : Claims) : Prop :=
  ∀ t, c.issuedAt = some t ∨ c.expiresAt = some t →
    Time.relaxed? (t.render .exact .zulu).toList = some t

/-- What the front is made of. -/
theorem mem_front {m : String × Json} (hm : m ∈ c.front) :
    m = (idField, .str c.id) ∨ m = ("roles", c.rolesJson) ∨
      (∃ t, c.issuedAt = some t ∧ m = ("iat", .str (t.render .exact .zulu))) ∨
      ∃ t, c.expiresAt = some t ∧ m = ("exp", .str (t.render .exact .zulu)) := by
  have htime : ∀ {name : String} {time : Option Time.Instant}, m ∈ timeMembers name time →
      ∃ t, time = some t ∧ m = (name, .str (t.render .exact .zulu)) := by
    intro name time hm
    cases time with
    | none => exact absurd hm List.not_mem_nil
    | some t => exact ⟨t, rfl, List.mem_singleton.mp hm⟩
  unfold front at hm
  simp only [List.mem_append, List.mem_cons] at hm
  obtain ((hid | hroles) | hiat) | hexp := hm
  · exact .inl hid
  · split at hroles
    · cases hroles
    · exact .inr (.inl (List.mem_singleton.mp hroles))
  · exact .inr (.inr (.inl (htime hiat)))
  · exact .inr (.inr (.inr (htime hexp)))

theorem known_of_mem_front {m : String × Json} (hm : m ∈ c.front) : m.1 ∈ known := by
  obtain rfl | rfl | ⟨t, -, rfl⟩ | ⟨t, -, rfl⟩ := mem_front hm
  · exact List.mem_cons_self
  all_goals simp [known]

theorem front_nodup (c : Claims) : (Record.names c.front).Nodup := by
  unfold front timeMembers
  -- each of the three further members is there or not
  cases c.roles.isEmpty <;> cases c.issuedAt <;> cases c.expiresAt <;>
    simp [Record.names, idField]

theorem Proper.written_nodup (h : Proper c.extra) : (Record.names c.written).Nodup := by
  unfold written Record.names
  rw [List.map_append, List.nodup_append]
  refine ⟨c.front_nodup, h.sorted.nodup, ?_⟩
  intro a ha b hb heq
  obtain ⟨m, hm, rfl⟩ := List.mem_map.mp ha
  obtain ⟨m', hm', rfl⟩ := List.mem_map.mp hb
  exact h.unknown m' hm' (heq ▸ known_of_mem_front hm)

theorem part_of_mem_written (h : Proper c.extra) (htimes : c.TimesReadBack) {m : String × Json}
    (hm : m ∈ c.written) : Part c m := by
  rcases List.mem_append.mp hm with hm | hm
  · obtain rfl | rfl | ⟨t, ht, rfl⟩ | ⟨t, ht, rfl⟩ := mem_front hm
    · exact .id
    · exact .roles
    · exact .issuedAt (by rw [htimes t (.inl ht), ht]; rfl)
    · exact .expiresAt (by rw [htimes t (.inr ht), ht]; rfl)
  · exact .extra (h.unknown m hm)

/-- Members are complete if they have the names that are written and say the further
    claims. -/
theorem complete_of_names (hparts : ∀ m ∈ members, Part c m) (honce : (Record.names members).Nodup)
    (hnames : ∀ name, name ∈ Record.names members ↔ name ∈ Record.names c.written)
    (hextra : Record.ofList (Record.keep members fun name => name ∉ known) = c.extra) :
    Complete c members := by
  refine ⟨hparts, honce, ?_, ?_, ?_, ?_, hextra⟩
  · rw [hnames]
    exact List.mem_cons_self
  · rw [hnames]
    by_cases hempty : c.roles = []
    · exact .inr hempty
    · left
      simp [written, front, Record.names, hempty]
  · rw [hnames]
    cases hiat : c.issuedAt with
    | none => exact .inr rfl
    | some t =>
      left
      simp [written, front, Record.names, hiat, timeMembers]
  · rw [hnames]
    cases hexp : c.expiresAt with
    | none => exact .inr rfl
    | some t =>
      left
      simp [written, front, Record.names, hexp, timeMembers]

theorem Proper.keep_unknown (h : Proper c.extra) :
    Record.keep c.extra (fun name => name ∉ known) = c.extra := by
  unfold Record.keep
  apply List.filter_eq_self.mpr
  intro m hm
  simpa using h.unknown m hm

/-- The members that are written say every claim. -/
theorem complete_written (h : Proper c.extra) (htimes : c.TimesReadBack) :
    Complete c c.written := by
  refine complete_of_names (fun m hm => part_of_mem_written h htimes hm) h.written_nodup
    (fun _ => Iff.rfl) ?_
  have hfront : Record.keep c.front (fun name => name ∉ known) = [] := by
    unfold Record.keep
    apply List.filter_eq_nil_iff.mpr
    intro m hm
    simpa using known_of_mem_front hm
  have hkeep : Record.keep c.written (fun name => name ∉ known) =
      Record.keep c.front (fun name => name ∉ known) ++
        Record.keep c.extra fun name => name ∉ known :=
    List.filter_append _ _
  rw [hkeep, hfront, h.keep_unknown, List.nil_append]
  exact Record.ofList_eq_self h.sorted

/-- So do those of the record form. -/
theorem complete_serialized (h : Proper c.extra) (htimes : c.TimesReadBack) :
    Complete c c.serialized := by
  have hsorted : c.serialized.Sorted := c.serialized_eq ▸ Record.sorted_ofList c.written
  refine complete_of_names ?_ hsorted.nodup ?_ ?_
  · intro m hm
    rw [serialized_eq] at hm
    exact part_of_mem_written h htimes (Record.mem_of_mem_ofList hm)
  · intro name
    rw [serialized_eq]
    exact Record.mem_names_merge.trans (or_iff_right List.not_mem_nil)
  · have hkept : (Record.keep c.serialized fun name => name ∉ known).Sorted := hsorted.filter _
    rw [Record.ofList_eq_self hkept]
    -- both records are sorted, so they are the same if they agree under each name
    apply hkept.ext h.sorted
    intro name
    rw [Record.get?_keep]
    by_cases hname : name ∈ known
    · rw [if_neg (by simpa using hname)]
      exact (Record.get?_eq_none fun m hm heq => h.unknown m hm (heq ▸ hname)).symm
    · rw [if_pos (by simpa using hname), serialized_eq]
      have hmerge : Record.ofList c.written = (Record.ofList c.front).merge c.extra :=
        List.foldl_append
      rw [hmerge]
      cases hvalue : c.extra.get? name with
      | some v => exact Record.get?_merge_of_some h.sorted hvalue _
      | none =>
        rw [Record.get?_merge_of_none _ hvalue]
        exact Record.get?_eq_none fun m hm heq =>
          hname (heq ▸ known_of_mem_front (Record.mem_of_mem_ofList hm))

/-! ### Texts -/

/-- What is written is written as values that JSON can hold, and their texts read back. -/
theorem Proper.values (h : Proper c.extra) (hdoubles : (Json.obj c.extra).DoublesReadBack)
    {m : String × Json} (hm : m ∈ c.written) :
    m.2.Fits (Json.Reader.maxDepth - 1) ∧ m.2.echo = m.2 := by
  have hvalue : m.2.Fits (Json.Reader.maxDepth - 1) ∧ m.2.DoublesReadBack := by
    rcases List.mem_append.mp hm with hm | hm
    · obtain rfl | rfl | ⟨t, -, rfl⟩ | ⟨t, -, rfl⟩ := mem_front hm
      · exact ⟨.str _, fun x hx => absurd hx List.not_mem_nil⟩
      · refine ⟨.arr fun v hv => ?_, fun x hx => ?_⟩
        · obtain ⟨s, -, rfl⟩ := List.mem_map.mp hv
          exact .str s
        · obtain ⟨v, hv, hx⟩ := Json.mem_numbersOfItems.mp hx
          obtain ⟨s, -, rfl⟩ := List.mem_map.mp hv
          exact absurd hx List.not_mem_nil
      · exact ⟨.str _, fun x hx => absurd hx List.not_mem_nil⟩
      · exact ⟨.str _, fun x hx => absurd hx List.not_mem_nil⟩
    · exact ⟨h.fits m hm, fun x hx => hdoubles x (Json.mem_numbersOfMembers.mpr ⟨m, hm, hx⟩)⟩
  exact ⟨hvalue.1, hvalue.1.echo_eq hvalue.2⟩

/-- Members among those that are written are read back. -/
theorem Proper.membersOfText? (h : Proper c.extra) (hdoubles : (Json.obj c.extra).DoublesReadBack)
    (hmembers : ∀ m ∈ members, m ∈ c.written) :
    Json.membersOfText? (Json.obj members).text = some members := by
  have hecho : Json.echoMembers members = members := by
    rw [Json.echoMembers_eq]
    have hsame : ∀ m ∈ members, (m.1, m.2.echo) = m := fun m hm => by
      rw [(h.values hdoubles (hmembers m hm)).2]
    exact (List.map_congr_left hsame).trans (List.map_id _)
  rw [Json.membersOfText?_text fun m hm => (h.values hdoubles (hmembers m hm)).1, hecho]

/-- Claims and their texts.

    - The further claims of a text have none of the names of the known claims.
    - If its doubles and its times are read back from their texts, so are the claims
      of a text: from the text that they are written as, from their record form and
      from its text.
    - To a permission, any claims show their identifier and their roles. -/
theorem round_trip :
    (∀ (text : String) (c : Claims), ofText? text = some c →
      (∀ name ∈ known, c.extra.get? name = none) ∧
      ((Json.obj c.extra).DoublesReadBack → c.TimesReadBack →
        ofText? c.text = some c ∧ ofJson? (.obj c.serialized) = some c ∧
          ofText? (Json.obj c.serialized).text = some c)) ∧
    ∀ c : Claims, c.toRecord.get? idField = some (.str c.id) ∧
      c.toRecord.get? "roles" = some c.rolesJson := by
  constructor
  · intro text c htext
    have hproper := proper_of_ofText? htext
    refine ⟨?_, ?_⟩
    · intro name hname
      exact Record.get?_eq_none fun m hm heq => hproper.unknown m hm (heq ▸ hname)
    · intro hdoubles htimes
      have hwritten := (complete_written hproper htimes).ofMembers?
      have hserialized := (complete_serialized hproper htimes).ofMembers?
      have hmembers : ∀ m ∈ c.serialized, m ∈ c.written := fun m hm =>
        Record.mem_of_mem_ofList (c.serialized_eq ▸ hm)
      refine ⟨?_, hserialized, ?_⟩
      · exact Option.bind_eq_some_iff.mpr
          ⟨_, hproper.membersOfText? hdoubles fun m hm => hm, hwritten⟩
      · exact Option.bind_eq_some_iff.mpr
          ⟨_, hproper.membersOfText? hdoubles hmembers, hserialized⟩
  · intro c
    have htime : ∀ (r : Record) (name other : String) (t : Option Time.Instant), name ≠ other →
        (insertTime r name .numeric t).get? other = r.get? other := by
      intro r name other t hne
      cases t with
      | none => rfl
      | some t => exact (Record.get?_insert r name other _).trans (if_neg hne)
    unfold toRecord
    dsimp only
    rw [htime _ _ _ _ (by decide), htime _ _ _ _ (by decide), htime _ _ _ _ (by decide),
      htime _ _ _ _ (by decide)]
    simp [Record.get?_insert, idField]

/-- Claims under other names than they are written, with a double among them. -/
def annsText : String :=
  "\x7b\"sub\":\"ann\",\"exp\":\"2030-01-01T09:00:00+09:00\",\"team\":[1,0.5,null]\x7d"

/-- Ann's claims are read back. -/
theorem anns_read_back :
    ∃ c, ofText? annsText = some c ∧ c.expiresAt.isSome = true ∧ ofText? c.text = some c := by
  have htest : (ofText? annsText).any (fun c =>
      (Json.obj c.extra).numbers.all (fun n =>
        decide (Json.Reader.number n.text.toList = some (.num n, []))) &&
      [c.issuedAt, c.expiresAt].all (fun time => time.all fun t =>
        decide (Time.relaxed? (t.render .exact .zulu).toList = some t)) &&
      c.expiresAt.isSome) = true := by decide +kernel
  obtain ⟨c, hc, htest⟩ := (Option.any_eq_true _ _).mp htest
  simp only [Bool.and_eq_true, List.all_eq_true, decide_eq_true_eq, List.forall_mem_cons] at htest
  obtain ⟨⟨hnumbers, hissued, hexpires, -⟩, hsome⟩ := htest
  have htimes : c.TimesReadBack := by
    rintro t (ht | ht)
    · exact of_decide_eq_true ((Option.all_eq_true _ _).mp hissued t ht)
    · exact of_decide_eq_true ((Option.all_eq_true _ _).mp hexpires t ht)
  have hback := (round_trip.1 annsText c hc).2 (fun x hx => hnumbers _ hx) htimes
  exact ⟨c, hc, hsome, hback.1⟩

end RecordGate.Claims

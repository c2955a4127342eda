import RecordGate.Proofs.OwnerIsolation

/-! # The record that a path names

  A rule that loads a record looks for one that holds the value of a path
  parameter, and on a model with an owner for one of the caller's.

  **Key idea.** The two conditions are put into one filter under the names of
  their fields. So both count (`lookupFilter?_accepts`) unless the fields are
  the same: then the owner takes the place of the parameter.

  - `lookup_exact` says for every rule what is found, and when nothing is.
  - `own_note_by_author`: a rule that loads records by their owner finds the
    caller's own, whoever is named by the path.
-/

namespace RecordGate.Engine

open Storage

/-- A path parameter is a value for the field that a rule loads by. -/
def Names (m : Model) (b : Binding) (params : Keyed String) (key : Json) : Prop :=
  ∃ raw f, params.get? b.param = some raw ∧ m.field? b.field = some f ∧
    Shape.coerce f.name f.type (.str raw) = .ok key

/-- A record has a value under a name. -/
def Holds (name : String) (value : Json) (r : Record) : Prop :=
  ∃ v, r.get? name = some v ∧ v.same value = true

/-- A record is the caller's, if the model has an owner. -/
def Owned (m : Model) (c : Context) (r : Record) : Prop :=
  ∀ w, m.owner = some w → ∃ id, ownerValue? m c = some id ∧ Holds w id r

variable {m : Model} {b : Binding} {c : Context} {params : Keyed String} {key : Json}
  {filter : Record} {rule : Rule} {req : Request} {rows : List Record} {bound : Bound}

/-! ### The filter -/

theorem keyValue?_eq_some : keyValue? m b params = some key ↔ Names m b params key := by
  unfold keyValue? Names
  constructor
  · intro h
    obtain ⟨raw, hraw, h⟩ := Option.bind_eq_some_iff.mp h
    obtain ⟨f, hf, h⟩ := Option.bind_eq_some_iff.mp h
    refine ⟨raw, f, hraw, hf, ?_⟩
    cases hcoerce : Shape.coerce f.name f.type (.str raw) with
    | ok value =>
      rw [hcoerce] at h
      cases h
      rfl
    | error e =>
      rw [hcoerce] at h
      cases h
  · rintro ⟨raw, f, hraw, hf, hcoerce⟩
    have hvalue : (Shape.coerce f.name f.type (.str raw)).toOption = some key := by
      rw [hcoerce]
      rfl
    exact Option.bind_eq_some_iff.mpr ⟨raw, hraw, Option.bind_eq_some_iff.mpr ⟨f, hf, hvalue⟩⟩

/-- There is a filter exactly if the path has a key and, on a model with an
    owner, the caller is one. -/
theorem lookupFilter?_isSome : (∃ filter, lookupFilter? m b c params = some filter) ↔
    (∃ key, Names m b params key) ∧ (m.owner.isSome = true → (ownerValue? m c).isSome = true) := by
  cases howner : m.owner with
  | none =>
    rw [lookupFilter?_unowned howner]
    simp only [Option.map_eq_some_iff, keyValue?_eq_some]
    constructor
    · rintro ⟨filter, key, hkey, -⟩
      exact ⟨⟨key, hkey⟩, nofun⟩
    · rintro ⟨⟨key, hkey⟩, -⟩
      exact ⟨_, key, hkey, rfl⟩
  | some w =>
    rw [lookupFilter?_owned howner]
    simp only [Option.bind_eq_some_iff, Option.map_eq_some_iff, keyValue?_eq_some]
    constructor
    · rintro ⟨filter, key, hkey, id, hid, -⟩
      refine ⟨⟨key, hkey⟩, fun _ => ?_⟩
      rw [hid]
      rfl
    · rintro ⟨⟨key, hkey⟩, hcaller⟩
      obtain ⟨id, hid⟩ := Option.isSome_iff_exists.mp (hcaller rfl)
      exact ⟨_, key, hkey, id, hid, rfl⟩

/-- The filter is for the records of the caller that hold the key; where
    records are loaded by their owner, the key does not count. -/
theorem lookupFilter?_accepts (h : lookupFilter? m b c params = some filter) :
    ∃ key, Names m b params key ∧ ∀ r, accepts filter r = true ↔
      (m.owner ≠ some b.field → Holds b.field key r) ∧ Owned m c r := by
  cases howner : m.owner with
  | none =>
    rw [lookupFilter?_unowned howner] at h
    obtain ⟨key, hkey, rfl⟩ := Option.map_eq_some_iff.mp h
    refine ⟨key, keyValue?_eq_some.mp hkey, fun r => ?_⟩
    rw [accepts_singleton]
    constructor
    · intro hholds
      refine ⟨fun _ => hholds, fun w hw => ?_⟩
      rw [howner] at hw
      cases hw
    · rintro ⟨hholds, -⟩
      exact hholds nofun
  | some w =>
    rw [lookupFilter?_owned howner] at h
    obtain ⟨key, hkey, h⟩ := Option.bind_eq_some_iff.mp h
    obtain ⟨id, hid, rfl⟩ := Option.map_eq_some_iff.mp h
    refine ⟨key, keyValue?_eq_some.mp hkey, fun r => ?_⟩
    rw [accepts_insert, accepts_singleton, accepts_singleton]
    constructor
    · rintro ⟨hkeyed, howned⟩
      refine ⟨fun hother => ?_, fun w' hw' => ?_⟩
      · rcases hkeyed with hsame | hholds
        · exact absurd (congrArg some hsame).symm hother
        · exact hholds
      · rw [howner] at hw'
        cases hw'
        exact ⟨id, hid, howned⟩
    · rintro ⟨hholds, howned⟩
      obtain ⟨id', hid', hr⟩ := howned w howner
      rw [hid] at hid'
      cases hid'
      refine ⟨?_, hr⟩
      by_cases hsame : b.field = w
      · exact .inl hsame
      · refine .inr (hholds fun hfield => ?_)
        exact hsame (Option.some.inj hfield).symm

/-! ### The record -/

/-- A located record is a stored one that the filter is for. -/
theorem locate_selected (hb : rule.binding = some b) (h : locate m rule req rows = .ok bound) :
    ∃ r ∈ rows, bound.resource = some r ∧
      bound.context = (callerContext req.caller).bind m.bindingName (.obj r) ∧
      ∃ key, Names m b req.params key ∧ (m.owner ≠ some b.field → Holds b.field key r) ∧
        Owned m (callerContext req.caller) r := by
  obtain ⟨filter, before, r, after, hfilter, hit, rfl⟩ := locate_eq_ok hb h
  obtain ⟨key, hkey, haccepts⟩ := lookupFilter?_accepts hfilter
  exact ⟨r, hit.mem, rfl, rfl, key, hkey, (haccepts r).mp hit.hit⟩

/-- Nothing else than a missing record is an error of the lookup. -/
theorem locate_error (hb : rule.binding = some b) :
    (∃ bound, locate m rule req rows = .ok bound) ∨ locate m rule req rows = .error (missing m) := by
  unfold locate
  simp only [hb]
  split
  · exact .inr rfl
  · split
    · exact .inr rfl
    · exact .inl ⟨_, rfl⟩

/-- There is a record to locate if a stored one is for the filter. -/
theorem locate_of_selected (hb : rule.binding = some b) {r : Record} (hr : r ∈ rows)
    (hkey : Names m b req.params key) (hholds : m.owner ≠ some b.field → Holds b.field key r)
    (howned : Owned m (callerContext req.caller) r) :
    ∃ bound, locate m rule req rows = .ok bound := by
  have hcaller : m.owner.isSome = true → (ownerValue? m (callerContext req.caller)).isSome = true := by
    intro hsome
    obtain ⟨w, hw⟩ := Option.isSome_iff_exists.mp hsome
    obtain ⟨id, hid, -⟩ := howned w hw
    rw [hid]
    rfl
  obtain ⟨filter, hfilter⟩ := lookupFilter?_isSome.mpr ⟨⟨key, hkey⟩, hcaller⟩
  obtain ⟨key', hkey', haccepts⟩ := lookupFilter?_accepts hfilter
  -- a path has one key at most
  have hsame : key' = key :=
    Option.some.inj ((keyValue?_eq_some.mpr hkey').symm.trans (keyValue?_eq_some.mpr hkey))
  subst hsame
  have hit : accepts filter r = true := (haccepts r).mpr ⟨hholds, howned⟩
  unfold locate
  simp only [hb, hfilter]
  cases hfound : rows.find? (accepts filter) with
  | some record => exact ⟨_, rfl⟩
  | none => exact absurd hit (List.find?_eq_none.mp hfound r hr)

/-- Where records are loaded by their owner, the record that is found holds the
    key exactly if the path names the caller. -/
theorem holds_of_owned {r : Record} (hm : m.Checked) (howner : m.owner = some b.field)
    (howned : Owned m c r) : Holds b.field key r ↔ ownerValue? m c = some key := by
  obtain ⟨id, hid, v, hv, hsame⟩ := howned _ howner
  -- an owner is a text, and that is equal to itself alone
  obtain ⟨s, rfl⟩ := ownerValue?_text hm hid
  have htext : v = .str s := (Json.same_str v s).mp hsame
  subst htext
  rw [hid]
  constructor
  · rintro ⟨w, hw, hkey⟩
    rw [hv] at hw
    cases hw
    cases key with
    | str t =>
      have heq : s = t := by simpa [Json.same] using hkey
      rw [heq]
    | _ => simp [Json.same] at hkey
  · intro hkey
    cases hkey
    exact ⟨_, hv, hsame⟩

/-- What a rule that loads a record of a model finds in a storage in memory.

    - The storage stays as it is.
    - A record that is found is stored and, on a model with an owner, the
      caller's. It holds the value of the path parameter, except where records
      are loaded by their owner and the path does not name the caller.
    - The only error is that the record is missing. It is missing exactly if no
      stored record is the caller's and holds the value of the parameter, which
      does not count where records are loaded by their owner; in particular if
      there is no such value, or no caller who could be the owner. -/
theorem lookup_exact {catalog : Catalog} (hcatalog : catalog.Built) (hm : m ∈ catalog.models)
    (hb : rule.binding = some b) (req : Request) (w : World Memory) :
    let c := callerContext req.caller
    let rows := w.store.rows m.collection
    let run := (bindContext m rule req).run Memory.driver w
    run.2 = w ∧
    (∀ bound, run.1 = .ok bound → ∃ r ∈ rows, bound.resource = some r ∧
      bound.context = c.bind m.bindingName (.obj r) ∧ Owned m c r ∧
      ∃ key, Names m b req.params key ∧
        (Holds b.field key r ↔ (m.owner = some b.field → ownerValue? m c = some key))) ∧
    (∀ e, run.1 = .error e → e = missing m) ∧
    (run.1 = .error (missing m) ↔ ¬ ∃ key, Names m b req.params key ∧ ∃ r ∈ rows,
      (m.owner ≠ some b.field → Holds b.field key r) ∧ Owned m c r) := by
  intro c rows run
  have hrun : run = (locate m rule req rows, w) := run_bindContext m rule req w
  have hend : (∃ bound, locate m rule req rows = .ok bound) ∨
      locate m rule req rows = .error (missing m) := locate_error hb
  rw [hrun]
  refine ⟨rfl, ?_, ?_, ?_⟩
  · intro bound hbound
    obtain ⟨r, hr, hresource, hcontext, key, hkey, hholds, howned⟩ := locate_selected hb hbound
    refine ⟨r, hr, hresource, hcontext, howned, key, hkey, ?_⟩
    by_cases howner : m.owner = some b.field
    · rw [holds_of_owned (hcatalog.checked m hm) howner howned]
      exact ⟨fun hid _ => hid, fun hid => hid howner⟩
    · exact iff_of_true (hholds howner) fun hsame => absurd hsame howner
  · intro e he
    rcases hend with ⟨bound, hok⟩ | hmissing
    · rw [hok] at he
      cases he
    · rw [hmissing] at he
      cases he
      rfl
  · constructor
    · rintro hmissing ⟨key, hkey, r, hr, hholds, howned⟩
      obtain ⟨bound, hok⟩ := locate_of_selected hb hr hkey hholds howned
      rw [hok] at hmissing
      cases hmissing
    · intro hnone
      rcases hend with ⟨bound, hok⟩ | hmissing
      · obtain ⟨r, hr, -, -, key, hkey, hselected⟩ := locate_selected hb hok
        exact absurd ⟨key, hkey, r, hr, hselected⟩ hnone
      · exact hmissing

/-- An author reads a note by its title, or by its author. -/
def readRoute (name : String) : RouteDecl where
  path := "/notes"
  model := "Note"
  rules := [("r", .full "@note.by=@req_user._id" (some (.field name)))]

/-- Ann reads a note. -/
def annReads (params : Keyed String) : Request :=
  ⟨params, none, .authenticated ⟨"ann", [], none, none, []⟩⟩

/-- Ann's note and Bob's. -/
def bothNotes : World Memory := ⟨Supply.still, ⟨[("notes", [annsNote, bobsNote])]⟩⟩

/-- By its title Ann finds a note of her own, and it has that title. -/
theorem note_by_title :
    ∃ catalog route rule, Catalog.empty.declare "Note" noteModel = .ok catalog ∧
      Route.compile (readRoute "title") catalog = .ok route ∧ route.rule? .read = some rule ∧
      rule.binding = some ⟨"title", "title"⟩ ∧
      ∃ bound, ((bindContext route.model rule (annReads [("title", "Home")])).run Memory.driver
          bothNotes).1 = .ok bound ∧
        ∃ r ∈ bothNotes.store.rows route.model.collection, bound.resource = some r ∧
          Owned route.model (callerContext (annReads []).caller) r ∧
          ∃ key, Names route.model ⟨"title", "title"⟩ [("title", "Home")] key ∧
            Holds "title" key r := by
  have htest : okAnd (Catalog.empty.declare "Note" noteModel) (fun catalog =>
      okAnd (Route.compile (readRoute "title") catalog) fun route =>
        (route.rule? .read).any fun rule =>
          decide (rule.binding = some ⟨"title", "title"⟩) &&
          decide (route.model.owner = some "by") &&
          okAnd ((bindContext route.model rule (annReads [("title", "Home")])).run Memory.driver
            bothNotes).1 fun _ => true) = true := by decide +kernel
  obtain ⟨catalog, hcatalog, htest⟩ := okAnd_iff.mp htest
  obtain ⟨route, hroute, htest⟩ := okAnd_iff.mp htest
  obtain ⟨rule, hrule, htest⟩ := (Option.any_eq_true _ _).mp htest
  simp only [Bool.and_eq_true, decide_eq_true_eq] at htest
  obtain ⟨⟨hb, howner⟩, hbound⟩ := htest
  obtain ⟨bound, hok, -⟩ := okAnd_iff.mp hbound
  have hfound := lookup_exact (Catalog.Built.empty.declare hcatalog)
    (Route.compile_compiled hroute).model hb (annReads [("title", "Home")]) bothNotes
  obtain ⟨r, hr, hresource, -, howned, key, hkey, hholds⟩ := hfound.2.1 bound hok
  refine ⟨catalog, route, rule, hcatalog, hroute, hrule, hb, bound, hok, r, hr, hresource, howned,
    key, hkey, hholds.mpr fun hsame => ?_⟩
  rw [howner] at hsame
  exact absurd hsame (by decide)

/-- By its author Ann finds her own note although the path names Bob. -/
theorem own_note_by_author :
    ∃ catalog route rule, Catalog.empty.declare "Note" noteModel = .ok catalog ∧
      Route.compile (readRoute "by") catalog = .ok route ∧ route.rule? .read = some rule ∧
      rule.binding = some ⟨"by", "by"⟩ ∧
      ∃ bound r, ((bindContext route.model rule (annReads [("by", "bob")])).run Memory.driver
          bothNotes).1 = .ok bound ∧ bound.resource = some r ∧
        Names route.model ⟨"by", "by"⟩ [("by", "bob")] (.str "bob") ∧
        ¬ Holds "by" (.str "bob") r := by
  have htest : okAnd (Catalog.empty.declare "Note" noteModel) (fun catalog =>
      okAnd (Route.compile (readRoute "by") catalog) fun route =>
        (route.rule? .read).any fun rule =>
          decide (rule.binding = some ⟨"by", "by"⟩) &&
          okAnd ((bindContext route.model rule (annReads [("by", "bob")])).run Memory.driver
            bothNotes).1 (fun bound => bound.resource.any fun r =>
              (r.get? "by").any fun v => !v.same (.str "bob")) &&
          (keyValue? route.model ⟨"by", "by"⟩ [("by", "bob")]).any fun key =>
            key.same (.str "bob")) = true := by decide +kernel
  obtain ⟨catalog, hcatalog, htest⟩ := okAnd_iff.mp htest
  obtain ⟨route, hroute, htest⟩ := okAnd_iff.mp htest
  obtain ⟨rule, hrule, htest⟩ := (Option.any_eq_true _ _).mp htest
  simp only [Bool.and_eq_true, decide_eq_true_eq] at htest
  obtain ⟨⟨hb, hbound⟩, hkey⟩ := htest
  obtain ⟨bound, hok, hresource⟩ := okAnd_iff.mp hbound
  obtain ⟨r, hr, hby⟩ := (Option.any_eq_true _ _).mp hresource
  obtain ⟨v, hv, hother⟩ := (Option.any_eq_true _ _).mp hby
  obtain ⟨key, hnames, hsame⟩ := (Option.any_eq_true _ _).mp hkey
  rw [(Json.same_str key "bob").mp hsame] at hnames
  refine ⟨catalog, route, rule, hcatalog, hroute, hrule, hb, bound, r, hok, hr,
    keyValue?_eq_some.mp hnames, ?_⟩
  rintro ⟨w, hw, hbob⟩
  rw [hv, Option.some.injEq] at hw
  subst hw
  rw [hbob] at hother
  cases hother

end RecordGate.Engine

import RecordGate.Proofs.StorageCalls
import RecordGate.Proofs.StoredForm
import RecordGate.Proofs.Whitelist

/-! # Written values fit their fields

  A value gets into a write from five sources: the input, a fixed default, a
  generator, a hook, and the stamp of the owner. Registration checks the first
  three and the last against the type of the field, each in its own place. It
  does not check the hooks, and `timestamps` writes a date.

  **Key idea.** A field is followed through the preparation twice.

  - Where no stamp misses the type, every stage keeps the field `Typed`.
  - Where one does, the hooks leave the field `Dated`, whatever was there
    before them, and a date is in the form of no other type but a text.

  So `writes_typed` says exactly which writes leave the stored form of a type:
  those of a `Misdated` field.
-/

namespace RecordGate

/-! ### Defaults of registered models -/

/-- A default that gives values for fields of a type. -/
def Default.Fits (type : FieldType) : Default → Prop
  | .literal v => type.Stores v
  | .now => type = .date ∨ type = .string
  | .freshId => type = .objectId ∨ type = .string
  | .computed produce => type.Stores (produce ())

theorem Default.Fits.produce {type : FieldType} {d : Default} (h : d.Fits type) :
    d.produce.Yields type.Stores := by
  cases d with
  | literal v => exact Flow.yields_pure h
  | now =>
    refine (Flow.yields_true _).bind fun t _ => Flow.yields_pure ?_
    exact (type.stores_date_iff t).mpr h
  | freshId =>
    refine (Flow.yields_true _).bind fun id _ => Flow.yields_pure ?_
    exact FieldType.stores_toHex h id
  | computed produce => exact Flow.yields_pure h

/-- A written default fits the type of its field. -/
theorem Default.Written.fits {field : String} {type : FieldType} {written : Json} {d : Default}
    (h : Default.Written field type written d) : d.Fits type := by
  cases h with
  | now htype => exact htype
  | freshId _ htype => exact htype
  | escaped hvalue => exact Shape.coerce_stores hvalue
  | plain _ hvalue => exact Shape.coerce_stores hvalue

/-- Every default of a registered model fits the type of its field. -/
theorem Schema.register_fits {name : String} {decl : ModelDecl} {m : Model} {d : Default}
    (h : register name decl = .ok m) {f : Field} (hf : f ∈ m.fields) (hd : f.fallback = some d) :
    d.Fits f.type := by
  obtain ⟨_, -, _, _, _, -, -, hfallback⟩ := exists_of_forall₂ (register_eq_ok.mp h).fields hf
  rw [hd] at hfallback
  cases hfallback with
  | some hwritten => exact hwritten.fits

/-! ### What the stamps write -/

/-- The names that `timestamps` writes a date under. -/
def Hook.stamped : Operation → List String
  | .create => [Hook.createdAt, Hook.updatedAt]
  | .update => [Hook.updatedAt]
  | .read | .delete => []

/-- A write stamps the field with a date, but its type has another form. The
    owner field is spared, because the stamp of the owner comes later. -/
structure Model.Misdated (m : Model) (op : Operation) (f : Field) : Prop where
  /-- The hooks of the write stamp dates. -/
  stamps : "timestamps" ∈ (m.hooks op).map Hook.name
  /-- The field is one that they stamp. -/
  name : f.name ∈ Hook.stamped op
  /-- It is for something else. -/
  type : ¬ (f.type = .date ∨ f.type = .string)
  /-- No owner is written over the date. -/
  unowned : m.owner ≠ some f.name

namespace Shape

open RecordGate.Flow

/-- The field, if it has a value, has one in the stored form of its type. -/
def Typed (f : Field) (r : Record) : Prop :=
  ∀ v, r.get? f.name = some v → f.type.Stores v

/-- There is a date under the name. -/
def Dated (name : String) (r : Record) : Prop :=
  ∃ t : Time.Instant, r.get? name = some (.str t.stored)

variable {name : String} {op : Operation} {f : Field} {values : Record} {hook : Hook}
  {m : Model} {raw : Record}

theorem typed_nil (f : Field) : Typed f [] := by
  intro v hv
  cases hv

theorem Typed.insert (h : Typed f values) {k : String} {v : Json}
    (hv : k = f.name → f.type.Stores v) : Typed f (values.insert k v) := by
  intro w hw
  rw [Record.get?_insert] at hw
  by_cases hk : k = f.name
  · rw [if_pos hk] at hw
    cases hw
    exact hv hk
  · rw [if_neg hk] at hw
    exact h w hw

theorem Typed.trimmed (h : Typed f values) : Typed f (values.mapValues Hook.trimValue) := by
  intro w hw
  rw [Record.get?_mapValues] at hw
  obtain ⟨v, hv, rfl⟩ := Option.map_eq_some_iff.mp hw
  exact Hook.trimValue_stores (h v hv)

theorem Dated.insert (h : Dated name values) (k : String) (t : Time.Instant) :
    Dated name (values.insert k (.str t.stored)) := by
  obtain ⟨t', ht'⟩ := h
  unfold Dated
  rw [Record.get?_insert]
  by_cases hk : k = name
  · rw [if_pos hk]
    exact ⟨t, rfl⟩
  · rw [if_neg hk]
    exact ⟨t', ht'⟩

theorem dated_insert (values : Record) (name : String) (t : Time.Instant) :
    Dated name (values.insert name (.str t.stored)) :=
  ⟨t, by rw [Record.get?_insert, if_pos rfl]⟩

theorem Dated.trimmed (h : Dated name values) : Dated name (values.mapValues Hook.trimValue) := by
  obtain ⟨t, ht⟩ := h
  have hblank : ∀ c ∈ t.stored.toList, Text.isBlank c = false := fun c hc =>
    Time.isBlank_of_isMark (Time.marked_stored t c hc)
  refine ⟨t, ?_⟩
  rw [Record.get?_mapValues, ht]
  show some (Json.str (Text.trim t.stored)) = _
  rw [Text.trim_eq_self hblank]

/-! ### Through a hook -/

/-- What a hook that a configuration can name does. -/
theorem hook_cases {hookName : String} (h : Hook.ofName? hookName op = some hook) :
    (hook.name = "timestamps" ∧ ∀ t r, hook.run t r = (Hook.stamped op).foldl
      (fun out k => Record.insert out k (.str t.stored)) r) ∨
    (hook.name = "trim" ∧ ∀ t r, hook.run t r = r.mapValues Hook.trimValue) := by
  unfold Hook.ofName? at h
  split at h <;> cases h
  · exact .inl ⟨rfl, fun _ _ => rfl⟩
  · exact .inl ⟨rfl, fun _ _ => rfl⟩
  · exact .inr ⟨rfl, fun _ _ => rfl⟩
  · exact .inr ⟨rfl, fun _ _ => rfl⟩

/-- Dates under some names leave a field typed whose type has the form of a
    date, or that is not among them. -/
theorem Typed.stamp (h : Typed f values) {names : List String} (t : Time.Instant)
    (hnames : f.name ∈ names → f.type = .date ∨ f.type = .string) :
    Typed f (names.foldl (fun out k => Record.insert out k (.str t.stored)) values) := by
  induction names generalizing values with
  | nil => exact h
  | cons k names ih =>
    have hrest := fun hmem => hnames (List.mem_cons_of_mem _ hmem)
    refine ih (h.insert fun hk => ?_) hrest
    exact (f.type.stores_date_iff t).mpr (hnames (hk ▸ List.mem_cons_self))

/-- There is a date under each of the names afterwards, and wherever there was
    one before. -/
theorem Dated.stamp {names : List String} (t : Time.Instant)
    (h : Dated name values ∨ name ∈ names) :
    Dated name (names.foldl (fun out k => Record.insert out k (.str t.stored)) values) := by
  induction names generalizing values with
  | nil =>
    rcases h with h | h
    · exact h
    · cases h
  | cons k names ih =>
    apply ih
    rcases h with h | h
    · exact .inl (h.insert k t)
    · rcases List.mem_cons.mp h with rfl | h
      · exact .inl (dated_insert values name t)
      · exact .inr h

/-- A hook leaves a field typed that no stamp misses. -/
theorem Typed.run_hook {hookName : String} (hhook : Hook.ofName? hookName op = some hook)
    (hfits : hook.name = "timestamps" → f.name ∈ Hook.stamped op →
      f.type = .date ∨ f.type = .string)
    (h : Typed f values) (t : Time.Instant) : Typed f (hook.run t values) := by
  rcases hook_cases hhook with ⟨hname, hrun⟩ | ⟨-, hrun⟩
  · rw [hrun]
    exact h.stamp t (hfits hname)
  · rw [hrun]
    exact h.trimmed

/-- A date that was there, or that the hook stamps, is there after the hook. -/
theorem Dated.run_hook {hookName : String} (hhook : Hook.ofName? hookName op = some hook)
    (h : Dated name values ∨ hook.name = "timestamps" ∧ name ∈ Hook.stamped op)
    (t : Time.Instant) : Dated name (hook.run t values) := by
  rcases hook_cases hhook with ⟨-, hrun⟩ | ⟨hname, hrun⟩
  · rw [hrun]
    exact Dated.stamp t (h.imp_right And.right)
  · rw [hrun]
    rcases h with h | ⟨hstamps, -⟩
    · exact h.trimmed
    · rw [hname] at hstamps
      exact absurd hstamps (by decide)

/-- Once the stamps have run there is a date, and no later hook changes that. -/
theorem runHooks_dated {hooks : List Hook}
    (hhooks : ∀ hook ∈ hooks, ∃ hookName, Hook.ofName? hookName op = some hook)
    (hname : name ∈ Hook.stamped op)
    (h : Dated name values ∨ "timestamps" ∈ hooks.map Hook.name) :
    (runHooks hooks values).Yields (Dated name) := by
  induction hooks generalizing values with
  | nil =>
    rcases h with h | h
    · exact yields_pure h
    · cases h
  | cons hook hooks ih =>
    obtain ⟨hookName, hhook⟩ := hhooks hook List.mem_cons_self
    have hrest := fun hook' h' => hhooks hook' (List.mem_cons_of_mem _ h')
    refine (yields_true _).bind fun t _ => ih hrest ?_
    rcases h with h | h
    · exact .inl (Dated.run_hook hhook (.inl h) t)
    · rcases List.mem_cons.mp h with hstamps | h
      · exact .inl (Dated.run_hook hhook (.inr ⟨hstamps.symm, hname⟩) t)
      · exact .inr h

/-! ### Through a preparation -/

theorem Typed.of_keep {test : String → Bool} (h : Typed f values) : Typed f (values.keep test) := by
  intro v hv
  rw [Record.get?_keep] at hv
  split at hv
  · exact h v hv
  · cases hv

/-- What a field takes from the input is in its stored form. -/
theorem inputValue_stores (hfits : ∀ d, f.fallback = some d → d.Fits f.type) :
    (inputValue op raw f).Yields fun taken => ∀ v, taken = some v → f.type.Stores v := by
  unfold inputValue
  split
  · split
    next value _ =>
      intro s taken htaken v hv
      subst hv
      cases hcoerce : coerce f.name f.type value with
      | ok stored =>
        rw [hcoerce] at htaken
        cases htaken
        exact coerce_stores hcoerce
      | error e =>
        rw [hcoerce] at htaken
        cases htaken
    · split
      next d hd _ =>
        refine (hfits d hd).produce.bind fun v hv => yields_pure ?_
        intro w hw
        cases hw
        exact hv
      · exact yields_pure fun v hv => by cases hv
  · exact yields_pure fun v hv => by cases hv

/-- The fields before the hooks, if no other field has the name. -/
theorem takes_typed (honly : ∀ f' ∈ m.fields, f'.name = f.name → f' = f)
    (hfits : ∀ f' ∈ m.fields, ∀ d, f'.fallback = some d → d.Fits f'.type) (op : Operation)
    (raw : Record) : Takes op raw m.fields (Typed f) := by
  constructor
  case empty => exact typed_nil f
  case input =>
    intro f' hf' s taken htaken v hv values hvalues
    have hstores := inputValue_stores (hfits f' hf') s taken htaken v hv
    exact hvalues.insert fun hname => honly f' hf' hname ▸ hstores
  case fallback =>
    intro _ f' hf' _ d hd s v hv values hvalues
    have hstores := (hfits f' hf' d hd).produce s v hv
    exact hvalues.insert fun hname => honly f' hf' hname ▸ hstores

variable {modelName : String} {decl : ModelDecl}

/-- A preparation keeps a field typed that no stamp misses. -/
theorem prepare_typed (h : Schema.register modelName decl = .ok m)
    (hnodup : (decl.fields.map Prod.fst).Nodup) (hf : f ∈ m.fields)
    (hstamps : "timestamps" ∈ (m.hooks op).map Hook.name → f.name ∈ Hook.stamped op →
      f.type = .date ∨ f.type = .string) (raw : Record) :
    (prepare m op raw).Yields (Typed f) := by
  have honly : ∀ f' ∈ m.fields, f'.name = f.name → f' = f := fun f' hf' =>
    Schema.register_fields_inj h hnodup hf hf'
  have hfits : ∀ f' ∈ m.fields, ∀ d, f'.fallback = some d → d.Fits f'.type := fun f' hf' d =>
    Schema.register_fits h hf'
  refine (takes_typed honly hfits op raw).prepare (applyHooks_keeps ?_ fun values => Typed.of_keep)
  intro hook hhook t values hvalues
  obtain ⟨hookName, hnamed⟩ := Schema.register_hooks h op hook hhook
  refine hvalues.run_hook hnamed (fun hname => hstamps ?_) t
  rw [← hname]
  exact List.mem_map_of_mem hhook

/-- A preparation that stamps a field leaves a date in it. -/
theorem prepare_dated (h : Schema.register modelName decl = .ok m) (hf : f ∈ m.fields)
    (hstamps : "timestamps" ∈ (m.hooks op).map Hook.name) (hname : f.name ∈ Hook.stamped op)
    (raw : Record) : (prepare m op raw).Yields (Dated f.name) := by
  have htakes : Takes op raw m.fields fun _ => True := by
    constructor
    case empty => trivial
    case input => exact fun _ _ _ _ _ _ _ _ _ => trivial
    case fallback => exact fun _ _ _ _ _ _ _ _ _ _ _ => trivial
  refine htakes.prepare fun values _ => ?_
  unfold applyHooks
  split
  next hnone =>
    -- there is a hook, because the stamps are one
    rw [hnone] at hstamps
    cases hstamps
  · have hrun : (runHooks (m.hooks op) values).Yields (Dated f.name) :=
      runHooks_dated (Schema.register_hooks h op) hname (.inr hstamps)
    refine hrun.bind fun out hout => yields_pure ?_
    obtain ⟨t, ht⟩ := hout
    refine ⟨t, ?_⟩
    rw [Record.get?_keep, Model.declares_of_mem hf, if_pos rfl, ht]

end Shape

/-! ### What is written -/

/-- The values that a call writes, and the operation that it does so for. -/
def Storage.Call.written? : Storage.Call → Option (Operation × Record)
  | .insertOne _ values => some (.create, values)
  | .updateOne _ _ values => some (.update, values)
  | .findOne .. | .findAll .. | .deleteOne .. => none

namespace Engine

open Storage RecordGate.Flow

/-- The values of a field fit it, unless the write stamps a date on another
    type. -/
def Fits (m : Model) (op : Operation) (f : Field) (values : Record) : Prop :=
  ∀ v, values.get? f.name = some v → (f.type.Stores v ↔ ¬ m.Misdated op f)

variable {m : Model} {modelName : String} {decl : ModelDecl} {op : Operation} {f : Field}
  {c : Context} {values written : Record}

theorem fits_of_lacks (h : Shape.Lacks f.name values) : Fits m op f values := by
  intro v hv
  have hnone : values.get? f.name = none := h
  rw [hnone] at hv
  cases hv

/-- What a preparation gives to a field that is not the owner. -/
theorem prepare_fits (h : Schema.register modelName decl = .ok m)
    (hnodup : (decl.fields.map Prod.fst).Nodup) (op : Operation) (raw : Record) :
    (Shape.prepare m op raw).Yields fun values =>
      ∀ f ∈ m.fields, m.owner ≠ some f.name → Fits m op f values := by
  intro s values hdraw f hf howner v hv
  by_cases hmisdated : m.Misdated op f
  · -- the date that is there has not the form of the type
    obtain ⟨t, ht⟩ := Shape.prepare_dated h hf hmisdated.stamps hmisdated.name raw s values hdraw
    rw [hv] at ht
    cases ht
    rw [FieldType.stores_date_iff]
    exact iff_of_false hmisdated.type (not_not_intro hmisdated)
  · have hstamps : "timestamps" ∈ (m.hooks op).map Hook.name → f.name ∈ Hook.stamped op →
        f.type = .date ∨ f.type = .string := by
      intro hstamps hname
      by_contra htype
      exact hmisdated ⟨hstamps, hname, htype, howner⟩
    have htyped := Shape.prepare_typed h hnodup hf hstamps raw s values hdraw
    exact iff_of_true (htyped v hv) hmisdated

/-- The owner that a create stamps is in the form of its field. -/
theorem ownerValue?_stores {id : Json} (hid : ownerValue? m c = some id)
    (honly : ∀ f' ∈ m.fields, f'.name = f.name → f' = f) (howner : m.owner = some f.name) :
    f.type.Stores id := by
  obtain ⟨w, f', raw, hw, hf', hcoerce, -⟩ := ownerValue?_coerced hid
  have hname : f'.name = w := by simpa using List.find?_some hf'
  rw [howner] at hw
  cases hw
  have hsame : f' = f := honly f' (List.mem_of_find?_eq_some hf') hname
  subst hsame
  exact Shape.coerce_stores hcoerce

/-- The stamp of the owner fits as well, and it comes last: no date is written
    over it. -/
theorem stampOwner_fits (hstamp : stampOwner m c values = .ok written)
    (honly : ∀ f' ∈ m.fields, f'.name = f.name → f' = f)
    (h : m.owner ≠ some f.name → Fits m op f values) : Fits m op f written := by
  unfold stampOwner at hstamp
  split at hstamp
  next hnone =>
    cases hstamp
    apply h
    rw [hnone]
    intro hsome
    cases hsome
  next owner howner =>
    split at hstamp
    next id hid =>
      cases hstamp
      intro v hv
      rw [Record.get?_insert] at hv
      by_cases hname : owner = f.name
      · subst hname
        rw [if_pos rfl] at hv
        cases hv
        refine iff_of_true (ownerValue?_stores hid honly howner) ?_
        intro hmisdated
        exact hmisdated.unowned howner
      · rw [if_neg hname] at hv
        have hother : m.owner ≠ some f.name := by
          rw [howner]
          intro hsame
          exact hname (Option.some.inj hsame)
        exact h hother v hv
    · cases hstamp

/-- An update writes no owner, and leaves the rest as prepared. -/
theorem dropOwner_fits (h : m.owner ≠ some f.name → Fits m op f values) :
    Fits m op f (dropOwner m values) := by
  by_cases howner : m.owner = some f.name
  · exact fits_of_lacks (dropOwner_lacks (.inr howner))
  · intro v hv
    unfold dropOwner at hv
    split at hv
    · exact h howner v hv
    · rw [Record.get?_erase] at hv
      split at hv
      · cases hv
      · exact h howner v hv

theorem newValues_fits (h : Schema.register modelName decl = .ok m)
    (hnodup : (decl.fields.map Prod.fst).Nodup) (req : Request) (c : Context) :
    (newValues m req c).Yields fun values => ∀ f ∈ m.fields, Fits m .create f values := by
  refine (yields_true _).bind fun raw _ =>
    (prepare_fits h hnodup .create raw).bind fun values hvalues => ?_
  intro s written hstamp f hf
  have honly : ∀ f' ∈ m.fields, f'.name = f.name → f' = f := fun f' hf' =>
    Schema.register_fields_inj h hnodup hf hf'
  exact stampOwner_fits hstamp honly (hvalues f hf)

theorem changedValues_fits (h : Schema.register modelName decl = .ok m)
    (hnodup : (decl.fields.map Prod.fst).Nodup) (req : Request) :
    (changedValues m req).Yields fun values => ∀ f ∈ m.fields, Fits m .update f values := by
  refine (yields_true _).bind fun raw _ =>
    (prepare_fits h hnodup .update raw).bind fun values hvalues => yields_pure ?_
  intro f hf
  exact dropOwner_fits (hvalues f hf)

theorem covers_fits (h : Schema.register modelName decl = .ok m)
    (hnodup : (decl.fields.map Prod.fst).Nodup) :
    Covers m fun call => ∀ op values, call.written? = some (op, values) →
      ∀ f ∈ m.fields, Fits m op f values where
  findOne _ := nofun
  findAll _ := nofun
  insertOne req c := by
    intro s values hdraw op written hwritten
    cases hwritten
    exact newValues_fits h hnodup req c s values hdraw
  updateOne req _ := by
    intro s values hdraw op written hwritten
    cases hwritten
    exact changedValues_fits h hnodup req s values hdraw
  deleteOne _ := nofun

/-- In what a request to a registered model writes, under any storage, each
    field that is there holds `null` or a value in the stored form of its type;
    the one exception, and always one, is a field that the hooks of the write
    stamp with a date although its type has another form. -/
theorem writes_typed {route : Route} (h : Schema.register modelName decl = .ok route.model)
    (hnodup : (decl.fields.map Prod.fst).Nodup) (action : Action) (req : Request) {σ : Type}
    (driver : Driver σ) (w : World σ) :
    ∀ e ∈ (execute route action req).exchanges driver w,
      ∀ op values, e.call.written? = some (op, values) →
        ∀ f ∈ route.model.fields, ∀ v, values.get? f.name = some v →
          (f.type.Stores v ↔ ¬ route.model.Misdated op f) := by
  intro e he op values hwritten f hf
  exact execute_asks (covers_fits h hnodup) action req σ driver w e he op values hwritten f hf

/-- Log lines. The time of their creation is declared as a number. -/
def logModel : ModelDecl where
  label := none
  storage := some "logs"
  owner := none
  fields := [("_id", .short [.str "ObjectId", .str "r"]),
    ("created_at", .short [.str "Number", .str "r"]), ("line", .short [.str "String", .str "cr"])]
  createHooks := ["timestamps", "trim"]
  updateHooks := []

/-- Every caller adds lines. -/
def logRoute : RouteDecl where
  path := "/logs"
  model := "Log"
  rules := [("c", .permission "@req_user=@req_user")]

/-- Adds a line. -/
def logRequest : Request :=
  ⟨[], some (.obj [("line", .str " up ")]), .authenticated ⟨"ann", [], none, none, []⟩⟩

/-- Adding a line writes a text into a field for numbers. -/
theorem log_written :
    ∃ route, Schema.register "Log" logModel = .ok route.model ∧
      ∃ e ∈ (execute route .create logRequest).exchanges Memory.driver ⟨Supply.still, Memory.empty⟩,
        ∃ values, e.call.written? = some (.create, values) ∧
          ∃ f ∈ route.model.fields, f.type = .number ∧
            ∃ s, values.get? f.name = some (.str s) := by
  have htest : okAnd (Schema.register "Log" logModel) (fun m =>
      okAnd (Route.compile logRoute ⟨[m]⟩) fun route =>
        ((execute route .create logRequest).exchanges Memory.driver
          ⟨Supply.still, Memory.empty⟩).any fun e =>
            e.call.written?.any fun write => decide (write.1 = .create) &&
              route.model.fields.any fun f => decide (f.type = .number) &&
                ((write.2.get? f.name).bind Json.str?).isSome) = true := by decide +kernel
  obtain ⟨m, hm, htest⟩ := okAnd_iff.mp htest
  obtain ⟨route, hroute, htest⟩ := okAnd_iff.mp htest
  have hmodel : route.model = m := List.mem_singleton.mp (Route.compile_compiled hroute).model
  obtain ⟨e, he, htest⟩ := List.any_eq_true.mp htest
  obtain ⟨⟨op, values⟩, hwritten, htest⟩ := (Option.any_eq_true _ _).mp htest
  rw [Bool.and_eq_true, decide_eq_true_eq] at htest
  obtain ⟨rfl, htest⟩ := htest
  obtain ⟨f, hf, htest⟩ := List.any_eq_true.mp htest
  rw [Bool.and_eq_true, decide_eq_true_eq] at htest
  obtain ⟨htype, htext⟩ := htest
  obtain ⟨s, hs⟩ := Option.isSome_iff_exists.mp htext
  obtain ⟨v, hv, hs⟩ := Option.bind_eq_some_iff.mp hs
  exact ⟨route, hmodel ▸ hm, e, he, values, hwritten, f, hf, htype, s,
    hv.trans (congrArg some (Json.str?_eq_some.mp hs))⟩

/-- In the values of such a line every field is judged by whether it is
    misdated. -/
theorem log_judged :
    ∃ route, Schema.register "Log" logModel = .ok route.model ∧
      (logModel.fields.map Prod.fst).Nodup ∧
      ∃ e ∈ (execute route .create logRequest).exchanges Memory.driver ⟨Supply.still, Memory.empty⟩,
        ∃ values, e.call.written? = some (.create, values) ∧
          ∀ f ∈ route.model.fields, ∀ v, values.get? f.name = some v →
            (f.type.Stores v ↔ ¬ route.model.Misdated .create f) := by
  obtain ⟨route, hregister, e, he, values, hwritten, -⟩ := log_written
  have hnodup : (logModel.fields.map Prod.fst).Nodup := by decide
  refine ⟨route, hregister, hnodup, e, he, values, hwritten, ?_⟩
  exact writes_typed hregister hnodup .create logRequest Memory.driver
    ⟨Supply.still, Memory.empty⟩ e he .create values hwritten

/-- Not every value that is written is in the stored form of its field's type. -/
theorem log_misfits :
    ∃ route, Schema.register "Log" logModel = .ok route.model ∧
      ∃ e ∈ (execute route .create logRequest).exchanges Memory.driver ⟨Supply.still, Memory.empty⟩,
        ∃ values, e.call.written? = some (.create, values) ∧
          ∃ f ∈ route.model.fields, ∃ v, values.get? f.name = some v ∧ ¬ f.type.Stores v := by
  obtain ⟨route, hregister, e, he, values, hwritten, f, hf, htype, s, hs⟩ := log_written
  refine ⟨route, hregister, e, he, values, hwritten, f, hf, .str s, hs, ?_⟩
  rw [htype]
  exact id

end Engine

end RecordGate

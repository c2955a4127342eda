import RecordGate.Proofs.Registration
import RecordGate.Schema.Document
import RecordGate.Shape.Write

/-! # The two notations of a field

  A field is written as a list, `[T, O]` or `[T, O, d]`, or as a map with `type`,
  `ops` and `default`.

  **Key idea.** Registration looks at a field through its entries alone
  (`Schema.fieldEntries`), so two notations with the same entries make the same
  model, whatever stands around the field (`register_congr`). A list keeps the
  default that is written. A map takes a default of `null` for none.

  - `ofValue?_map`: what a map with these keys is read as, in any order.
  - `register_null`: what becomes of a model if a list says `null`.
  - `notations_exact` compares the notations; `null_default_differs` is a model
    for which they differ.
-/

namespace RecordGate

open Yaml

/-! ### Reading -/

namespace Yaml.Value

variable {keys : List String} {named named' : Keyed Value}

/-- The pairs of a map with texts for keys. -/
def ofNamed (named : Keyed Value) : Value :=
  .map (named.map fun e => (.str e.1, e.2))

/-- Where no name occurs twice, the order of the pairs does not matter. -/
theorem lookup_perm (hperm : named.Perm named') (hnames : (named.map Prod.fst).Nodup)
    (key : String) : named.lookup key = named'.lookup key := by
  induction hperm with
  | nil => rfl
  | cons e _ ih =>
    obtain ⟨k, v⟩ := e
    rw [List.lookup_cons, List.lookup_cons, ih (List.nodup_cons.mp hnames).2]
  | swap e e' rest =>
    obtain ⟨k, v⟩ := e
    obtain ⟨k', v'⟩ := e'
    have hne : k' ≠ k := by
      intro hsame
      exact (List.nodup_cons.mp hnames).1 (hsame ▸ List.mem_cons_self)
    by_cases hkey : key = k
    · subst hkey
      simp [List.lookup_cons, beq_eq_false_iff_ne.mpr (Ne.symm hne)]
    · simp [List.lookup_cons, beq_eq_false_iff_ne.mpr hkey]
  | trans hfirst _ ih₁ ih₂ =>
    rw [ih₁ hnames, ih₂ ((hfirst.map Prod.fst).nodup hnames)]

/-- Known names are keys. -/
theorem mapM_keyOf? (hknown : ∀ e ∈ named, e.1 ∈ keys) :
    (named.map fun e => (Value.str e.1, e.2)).mapM
      (fun ((k, v) : Value × Value) => do some (← keyOf? keys k, v)) =
        some (named.map fun e => (some e.1, e.2)) := by
  rw [List.mapM_map]
  induction named with
  | nil => rfl
  | cons e rest ih =>
    have hkey : e.1 ∈ keys := hknown e List.mem_cons_self
    rw [List.mapM_cons, ih fun e he => hknown e (List.mem_cons_of_mem _ he)]
    simp [keyOf?, hkey]

/-- The entries of a map with named keys. -/
theorem filterMap_named (named : Keyed Value) :
    (named.map fun e => (some e.1, e.2)).filterMap
      (fun ((k, v) : Option String × Value) => k.map (·, v)) = named := by
  simp [List.filterMap_map]

/-- The long notation of a map whose keys are all known, in any order. -/
theorem long?_ofNamed (hperm : named.Perm named') (hknown : ∀ e ∈ named', e.1 ∈ keys)
    (hnames : (named'.map Prod.fst).Nodup) :
    long? keys (ofNamed named) = some (keys.map fun key => named'.lookup key) := by
  have hnames : (named.map Prod.fst).Nodup := (hperm.map Prod.fst).nodup_iff.mpr hnames
  have hfound := mapM_keyOf? fun e he => hknown e (hperm.mem_iff.mp he)
  refine Option.bind_eq_some_iff.mpr ⟨_, hfound, ?_⟩
  dsimp only
  rw [filterMap_named, if_pos hnames]
  simp only [lookup_perm hperm hnames]

/-- A value that is not `null` is read as it stands. -/
theorem optional?_of_ne {v : Value} (hv : v ≠ .null) :
    v.optional? toJson? = v.toJson?.map some := by
  cases v with
  | null => exact absurd rfl hv
  | _ => rfl

end Yaml.Value

namespace FieldDecl

variable {T O : String} {v : Value} {named : Keyed Value}

/-- A list of three is read item by item. -/
theorem ofValue?_triple (T O : String) (v : Value) :
    ofValue? (.seq [.str T, .str O, v]) = v.toJson?.map fun d => .short [.str T, .str O, d] := by
  unfold ofValue?
  simp only [Value.itemsToJson?, Value.toJson?]
  cases v.toJson? <;> rfl

theorem ofValue?_map_eq (named : Keyed Value) :
    ofValue? (.ofNamed named) = (do
      match ← Value.long? ["type", "ops", "default"] (.ofNamed named) with
      | [some type, operations, fallback] =>
        let operations ← (operations.getD (.str "")).text?
        let fallback ← (fallback.getD .null).optional? Value.toJson?
        some (.long (← type.text?) operations fallback)
      | _ => none) :=
  rfl

/-- A map is read by its keys. -/
theorem ofValue?_ofNamed {written : Option Value}
    (hlong : Value.long? ["type", "ops", "default"] (.ofNamed named) =
      some [some (.str T), some (.str O), written]) :
    ofValue? (.ofNamed named) =
      ((written.getD .null).optional? Value.toJson?).map fun d => .long T O d := by
  rw [ofValue?_map_eq, hlong]
  cases hd : (written.getD .null).optional? Value.toJson? <;> simp [Value.text?, hd]

/-- A map with all three keys. -/
theorem ofValue?_map (hentries : named.Perm [("type", .str T), ("ops", .str O), ("default", v)]) :
    ofValue? (.ofNamed named) = (v.optional? Value.toJson?).map fun d => .long T O d := by
  apply @ofValue?_ofNamed T O named (some v)
  rw [Value.long?_ofNamed hentries]
  · rfl
  · simp
  · simp

/-- A map without a default. -/
theorem ofValue?_map_two (hentries : named.Perm [("type", .str T), ("ops", .str O)]) :
    ofValue? (.ofNamed named) = some (.long T O none) := by
  apply @ofValue?_ofNamed T O named none
  rw [Value.long?_ofNamed hentries]
  · rfl
  · simp
  · simp

end FieldDecl

namespace Schema

variable {model name field : String} {short long : FieldDecl} {before after : Keyed FieldDecl}
  {decl : ModelDecl}

/-! ### Registration -/

theorem field_congr (h : fieldEntries model name short = fieldEntries model name long) :
    Schema.field model name short = Schema.field model name long := by
  unfold Schema.field
  rw [h]

/-- The fields around one of them. -/
theorem fields_split (model field : String) (d : FieldDecl) (before after : Keyed FieldDecl) :
    fields model (before ++ (field, d) :: after) = (do
      let first ← fields model before
      let f ← Schema.field model field d
      let rest ← fields model after
      pure (first ++ f :: rest)) := by
  induction before with
  | nil => rfl
  | cons entry before ih =>
    obtain ⟨k, e⟩ := entry
    show (do
      let f ← Schema.field model k e
      let fs ← fields model (before ++ (field, d) :: after)
      pure (f :: fs)) = _
    rw [ih]
    simp [fields, bind_assoc]

/-- Fields with the same entries make the same model, whatever stands around
    them. -/
theorem register_congr (h : ∀ model, fieldEntries model field short = fieldEntries model field long)
    (name : String) (decl : ModelDecl) (before after : Keyed FieldDecl) :
    register name { decl with fields := before ++ (field, short) :: after } =
      register name { decl with fields := before ++ (field, long) :: after } := by
  have hfields : fields name (before ++ (field, short) :: after) =
      fields name (before ++ (field, long) :: after) := by
    rw [fields_split, fields_split, field_congr (h name)]
  unfold register
  dsimp only
  rw [hfields]

/-! ### A default of `null` -/

theorem ok_map {α β : Type} (g : α → β) (a : α) :
    (Except.ok a : Except Error α).map g = .ok (g a) := rfl

/-- A list that says `null` makes a field that is `null` by default. -/
theorem field_null (model field T O : String) :
    Schema.field model field (.short [.str T, .str O, .null]) =
      (Schema.field model field (.long T O none)).map fun f =>
        { f with fallback := some (.literal .null) } := by
  have hshort : fieldEntries model field (.short [.str T, .str O, .null]) =
      .ok (T, O, some .null) := rfl
  have hlong : fieldEntries model field (.long T O none) = .ok (T, O, none) := rfl
  unfold Schema.field
  simp only [hshort, hlong, ok_bind]
  cases Text.isIdent field with
  | false => rfl
  | true =>
    cases FieldType.ofTag? T with
    | none => rfl
    | some type =>
      cases OperationSet.ofLetters? O with
      | none => rfl
      | some operations => rfl

/-- The fields, if one of them is `null` by default. -/
theorem fields_null (model T O : String) (hbefore : field ∉ before.map Prod.fst)
    (hafter : field ∉ after.map Prod.fst) :
    fields model (before ++ (field, .short [.str T, .str O, .null]) :: after) =
      (fields model (before ++ (field, .long T O none) :: after)).map fun fs =>
        fs.map fun f =>
          if f.name = field then { f with fallback := some (.literal .null) } else f := by
  -- no other field has the name
  have hothers : ∀ {ds fs}, fields model ds = .ok fs → field ∉ ds.map Prod.fst →
      (fs.map fun f => if f.name = field then
        { f with fallback := some (Default.literal .null) } else f) = fs := by
    intro ds fs hfs hname
    rw [← Field.declared_names (fields_eq_ok.mp hfs)] at hname
    have hsame : ∀ f ∈ fs, (if f.name = field then
        { f with fallback := some (Default.literal .null) } else f) = id f := by
      intro f hf
      apply if_neg
      intro hfield
      subst hfield
      exact hname (List.mem_map_of_mem hf)
    rw [List.map_congr_left hsame, List.map_id]
  rw [fields_split, fields_split, field_null]
  cases hfirst : fields model before with
  | error e => rfl
  | ok first =>
    cases hf : Schema.field model field (.long T O none) with
    | error e => rfl
    | ok f =>
      cases hrest : fields model after with
      | error e => rfl
      | ok rest =>
        obtain ⟨_, _, _, -, hshaped, -⟩ := field_eq_ok.mp hf
        show Except.ok (first ++ { f with fallback := some (.literal .null) } :: rest) =
          Except.ok ((first ++ f :: rest).map _)
        rw [List.map_append, List.map_cons, hothers hfirst hbefore, hothers hrest hafter,
          if_pos hshaped.name]

/-- A default does not matter for the owner. -/
theorem checkOwner_fallback (model field : String) (d : Default) (fs : List Field)
    (owner : Option String) :
    checkOwner model (fs.map fun f => if f.name = field then { f with fallback := some d } else f)
      owner = checkOwner model fs owner := by
  cases owner with
  | none => rfl
  | some w =>
    unfold checkOwner
    dsimp only
    rw [Field.find?_fallback]
    cases fs.find? fun f => f.name = w with
    | none => rfl
    | some f =>
      simp only [Option.map_some]
      split <;> rfl

/-- The default of another field does not matter for the identifier. -/
theorem checkIdentifier_fallback (model : String) (hfield : field ≠ idField) (d : Default)
    (fs : List Field) :
    checkIdentifier model
      (fs.map fun f => if f.name = field then { f with fallback := some d } else f) =
        checkIdentifier model fs := by
  unfold checkIdentifier
  rw [Field.find?_fallback]
  cases hf : fs.find? fun f => f.name = idField with
  | none => rfl
  | some f =>
    have hname : f.name = idField := by simpa using List.find?_some hf
    rw [Option.map_some, if_neg fun hsame => hfield (hsame.symm.trans hname)]

/-- An identifier with a default is the last thing that is refused. -/
theorem checkIdentifier_idField {model : String} {fs : List Field} (d : Default)
    (h : checkIdentifier model fs = .ok ()) :
    checkIdentifier model
      (fs.map fun f => if f.name = idField then { f with fallback := some d } else f) =
        .error (SchemaFault.identifierDefault model).error := by
  obtain ⟨f, hf, htype, hcreate, hupdate, hread, -⟩ := checkIdentifier_eq_ok.mp h
  have hname : f.name = idField := by simpa using List.find?_some hf
  unfold checkIdentifier
  rw [Field.find?_fallback, hf, Option.map_some, if_pos hname]
  dsimp only [Field.allows] at *
  simp [htype, hcreate, hupdate, hread]

/-- A model with a list that says `null` is the one with a map instead, but that
    the field is `null` by default. -/
theorem register_null {T O : String} (hfield : field ≠ idField)
    (hbefore : field ∉ before.map Prod.fst) (hafter : field ∉ after.map Prod.fst) :
    register name { decl with
      fields := before ++ (field, .short [.str T, .str O, .null]) :: after } =
      (register name { decl with fields := before ++ (field, .long T O none) :: after }).map
        fun m => m.setFallback field (.literal .null) := by
  unfold register
  dsimp only
  rw [fields_null name T O hbefore hafter]
  split
  · rfl
  · split
    · rfl
    · split
      · rfl
      · cases fields name (before ++ (field, .long T O none) :: after) with
        | error e => rfl
        | ok fs =>
          rw [ok_map, ok_bind, ok_bind, checkIdentifier_fallback name hfield,
            checkOwner_fallback]
          cases checkIdentifier name fs with
          | error e => rfl
          | ok _ =>
            cases checkOwner name fs decl.owner with
            | error e => rfl
            | ok _ =>
              cases hooks name .create decl.createHooks with
              | error e => rfl
              | ok createHooks =>
                cases hooks name .update decl.updateHooks with
                | error e => rfl
                | ok updateHooks => rfl

/-- A model whose identifier is `null` by default is refused. -/
theorem register_null_idField {T O : String} (hbefore : idField ∉ before.map Prod.fst)
    (hafter : idField ∉ after.map Prod.fst) {m : Model}
    (h : register name { decl with fields := before ++ (idField, .long T O none) :: after } =
      .ok m) :
    register name { decl with
      fields := before ++ (idField, .short [.str T, .str O, .null]) :: after } =
        .error (SchemaFault.identifierDefault name).error := by
  unfold register at h ⊢
  dsimp only at h ⊢
  rw [fields_null name T O hbefore hafter]
  split at h
  · cases h
  next hblank =>
    rw [if_neg hblank]
    split at h
    · cases h
    next hlabel =>
      rw [if_neg hlabel]
      split at h
      · cases h
      next hcollection =>
        rw [if_neg hcollection]
        obtain ⟨fs, hfields, h⟩ := bind_eq_ok_iff.mp h
        obtain ⟨⟨⟩, hidentifier, -⟩ := bind_eq_ok_iff.mp h
        rw [hfields, ok_map, ok_bind, checkIdentifier_idField _ hidentifier]
        rfl

/-! ### The notations of a field among others -/

/-- A field written as a list, or as a map with the same type, letters and
    default, between any other fields of any model.

    - Without a default, and with any default but `null`, both are unreadable,
      or both are refused with the same error, or both make the same model.
    - A map takes `null` for no default. A list makes a field that is `null` by
      default, which refuses the identifier field and otherwise is all that the
      models differ in. -/
theorem notations_exact (name field T O : String) (v : Value) (decl : ModelDecl)
    (before after : Keyed FieldDecl) {two three : Keyed Value}
    (htwo : two.Perm [("type", .str T), ("ops", .str O)])
    (hthree : three.Perm [("type", .str T), ("ops", .str O), ("default", v)]) :
    let registered (written : Value) : Option (Except Error Model) :=
      (FieldDecl.ofValue? written).map fun d =>
        register name { decl with fields := before ++ (field, d) :: after }
    registered (.seq [.str T, .str O]) = registered (.ofNamed two) ∧
    (v ≠ .null → registered (.seq [.str T, .str O, v]) = registered (.ofNamed three)) ∧
    (v = .null → registered (.ofNamed three) = registered (.ofNamed two) ∧
      (field ∉ before.map Prod.fst → field ∉ after.map Prod.fst →
        (field ≠ idField → registered (.seq [.str T, .str O, v]) =
          (registered (.ofNamed three)).map fun result =>
            result.map fun m => m.setFallback field (.literal .null)) ∧
        (field = idField → ∀ m, registered (.ofNamed three) = some (.ok m) →
          registered (.seq [.str T, .str O, v]) =
            some (.error (SchemaFault.identifierDefault name).error)))) := by
  intro registered
  have hpair : registered (.seq [.str T, .str O]) = some (register name
      { decl with fields := before ++ (field, .short [.str T, .str O]) :: after }) := rfl
  have htriple : registered (.seq [.str T, .str O, v]) = v.toJson?.map fun d => register name
      { decl with fields := before ++ (field, .short [.str T, .str O, d]) :: after } := by
    show (FieldDecl.ofValue? _).map _ = _
    rw [FieldDecl.ofValue?_triple, Option.map_map]
    rfl
  have hmap₂ : registered (.ofNamed two) = some (register name
      { decl with fields := before ++ (field, .long T O none) :: after }) := by
    show (FieldDecl.ofValue? _).map _ = _
    rw [FieldDecl.ofValue?_map_two htwo]
    rfl
  have hmap₃ : registered (.ofNamed three) = (v.optional? Value.toJson?).map fun d => register name
      { decl with fields := before ++ (field, .long T O d) :: after } := by
    show (FieldDecl.ofValue? _).map _ = _
    rw [FieldDecl.ofValue?_map hthree, Option.map_map]
    rfl
  refine ⟨?_, ?_, ?_⟩
  · have hentries : ∀ model, fieldEntries model field (.short [.str T, .str O]) =
        fieldEntries model field (.long T O none) := fun _ => rfl
    rw [hpair, hmap₂, register_congr hentries]
  · intro hv
    have hentries : ∀ d model, fieldEntries model field (.short [.str T, .str O, d]) =
        fieldEntries model field (.long T O (some d)) := fun _ _ => rfl
    rw [htriple, hmap₃, Value.optional?_of_ne hv, Option.map_map]
    apply Option.map_congr
    intro d _
    exact register_congr (hentries d) name decl before after
  · intro hv
    subst hv
    have hmap : registered (.ofNamed three) = some (register name
        { decl with fields := before ++ (field, .long T O none) :: after }) := hmap₃
    have hlist : registered (.seq [.str T, .str O, .null]) = some (register name
        { decl with fields := before ++ (field, .short [.str T, .str O, .null]) :: after }) :=
      htriple
    refine ⟨hmap.trans hmap₂.symm, ?_⟩
    intro hbefore hafter
    constructor
    · intro hfield
      rw [hlist, hmap, Option.map_some, register_null hfield hbefore hafter]
    · intro hfield m hm
      subst hfield
      rw [hmap, Option.some.injEq] at hm
      rw [hlist, register_null_idField hbefore hafter hm]

/-- A model of memos whose field `at` is written as a value. -/
def memoWith (written : Value) : Option (Except Error Model) :=
  (FieldDecl.ofValue? written).map fun d => register "Memo" {
    label := none
    storage := none
    owner := none
    fields := [("_id", .short [.str "ObjectId", .str "r"])] ++ ("at", d) :: []
    createHooks := []
    updateHooks := [] }

/-- A date with the time as its default, in both notations. -/
theorem same_memo :
    ∃ m, memoWith (.seq [.str "Date", .str "cr", .str "$now"]) = some (.ok m) ∧
      memoWith (.ofNamed [("default", .str "$now"), ("type", .str "Date"), ("ops", .str "cr")]) =
        some (.ok m) := by
  have htest : (memoWith (.seq [.str "Date", .str "cr", .str "$now"])).any
      (fun result => okAnd result fun _ => true) = true := by decide +kernel
  obtain ⟨result, hresult, htest⟩ := (Option.any_eq_true _ _).mp htest
  obtain ⟨m, hm, -⟩ := okAnd_iff.mp htest
  subst hm
  obtain ⟨-, hsame, -⟩ := notations_exact "Memo" "at" "Date" "cr" (.str "$now")
    ⟨none, none, none, [], [], []⟩ [("_id", .short [.str "ObjectId", .str "r"])] []
    (List.Perm.refl [("type", Value.str "Date"), ("ops", .str "cr")])
    ((List.Perm.swap _ _ _).trans ((List.Perm.swap _ _ _).cons _))
  exact ⟨m, hresult, (hsame nofun).symm.trans hresult⟩

/-- A text that is `null` by default as a list, and has no default as a map. Only
    the list fills it in. -/
theorem null_default_differs :
    ∃ m m', memoWith (.seq [.str "String", .str "cr", .null]) = some (.ok m) ∧
      memoWith (.ofNamed [("type", .str "String"), ("ops", .str "cr"), ("default", .null)]) =
        some (.ok m') ∧
      ((Shape.prepare m .create []).draw Supply.still).1.toOption = some [("at", .null)] ∧
      ((Shape.prepare m' .create []).draw Supply.still).1.toOption = some [] := by
  have htest : (memoWith (.seq [.str "String", .str "cr", .null])).any (fun result =>
      okAnd result fun m =>
        (memoWith (.ofNamed [("type", .str "String"), ("ops", .str "cr"),
          ("default", .null)])).any fun result' =>
            okAnd result' fun m' =>
              decide (((Shape.prepare m .create []).draw Supply.still).1.toOption =
                some [("at", .null)]) &&
              decide (((Shape.prepare m' .create []).draw Supply.still).1.toOption = some []))
      = true := by
    decide +kernel
  obtain ⟨result, hresult, htest⟩ := (Option.any_eq_true _ _).mp htest
  obtain ⟨m, hm, htest⟩ := okAnd_iff.mp htest
  obtain ⟨result', hresult', htest⟩ := (Option.any_eq_true _ _).mp htest
  obtain ⟨m', hm', htest⟩ := okAnd_iff.mp htest
  simp only [Bool.and_eq_true, decide_eq_true_eq] at htest
  exact ⟨m, m', hm ▸ hresult, hm' ▸ hresult', htest⟩

end Schema

end RecordGate

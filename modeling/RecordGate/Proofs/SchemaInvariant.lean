import RecordGate.Proofs.CatalogHistory

/-! # What every declared model keeps

  Registration checks a declared model once. Afterwards code adds hooks and
  defaults to it, and none of these goes through the checks again. What the
  checks established stays true all the same.

  - `Field.Conforms` and `Model.Conforms`: a model that is what its declaration
    says, whatever edits came after it.
  - `Catalog.run_conforms`: so is every declared model after every run of
    edits; and while its hooks are the built-in ones, no preparation of a write
    gives a value to the identifier field.

  **Key idea.** An edit reaches a field only through its default, and the
  identifier field is the one whose default no edit can set.
-/

namespace RecordGate

open Text

/-- A field that is what its declaration says, but perhaps for a default that
    code gave it. -/
def Field.Conforms (f : Field) (fieldName : String) (decl : FieldDecl) (model : String)
    (edits : List Catalog.Edit) : Prop :=
  ∃ typeName letters written, decl.Says typeName letters written ∧
    f.Shaped fieldName typeName letters ∧
    ((∃ produce, Catalog.Edit.setDefault model fieldName produce ∈ edits ∧
        f.fallback = some (.computed produce)) ∨
      Option.Rel (Default.Written fieldName f.type) written f.fallback)

/-- A model that is what its declaration says, but perhaps for the hooks and the
    defaults that code gave it. -/
structure Model.Conforms (m : Model) (modelName : String) (decl : ModelDecl)
    (edits : List Catalog.Edit) : Prop extends m.Checked where
  /-- The name is the declared one. -/
  name : m.name = modelName
  /-- The singular label is an identifier. -/
  label : Identifier m.label.singular.toList
  /-- So is the collection. -/
  collection : Identifier m.collection.toList
  /-- The fields are the declared ones, in their order. -/
  fields : List.Forall₂ (fun entry f => f.Conforms entry.1 entry.2 modelName edits)
    decl.fields m.fields
  /-- Every field is found under its name. -/
  stored : ∀ f ∈ m.fields, m.field? f.name = some f
  /-- The owner is the declared one. -/
  ownerName : m.owner = decl.owner
  /-- Only writes have hooks. -/
  hooks : ∀ op, m.hooks op ≠ [] → op = .create ∨ op = .update

/-! ### Edits of one model -/

namespace Catalog

variable {c c' : Catalog} {edits : List Edit} {e : Edit}

/-- An edit that succeeds gives no default to the identifier field. -/
theorem Edit.default?_idField (h : e.apply c = .ok c') (model : String) :
    e.default? model idField = none := by
  refine Option.eq_none_iff_forall_ne_some.mpr fun d hd => ?_
  obtain ⟨produce, rfl, -⟩ := Edit.default?_eq_some.mp hd
  exact (setDefault_eq_ok.mp h).1 rfl

/-- Nor does a run of them. -/
theorem lastDefault?_idField (h : c.run edits = .ok c') (model : String) :
    lastDefault? edits model idField = none := by
  induction edits generalizing c with
  | nil => rfl
  | cons first rest ih =>
    obtain ⟨c₁, hfirst, hrest⟩ := bind_eq_ok_iff.mp h
    unfold lastDefault?
    rw [List.filterMap_cons_none (Edit.default?_idField hfirst model)]
    exact ih hrest

/-- The last default of a field comes from one of the edits. -/
theorem lastDefault?_mem {model field : String} {d : Default}
    (h : lastDefault? edits model field = some d) :
    ∃ produce, Edit.setDefault model field produce ∈ edits ∧ d = .computed produce := by
  obtain ⟨e, he, hd⟩ := List.mem_filterMap.mp (List.mem_of_getLast? h)
  obtain ⟨produce, rfl, rfl⟩ := Edit.default?_eq_some.mp hd
  exact ⟨produce, he, rfl⟩

end Catalog

namespace Model

variable {m : Model} {modelName : String} {decl : ModelDecl} {edits : List Catalog.Edit}

/-- The rules about the identifier and the owner outlast the edits. -/
theorem Checked.edited (h : m.Checked)
    (hid : Catalog.lastDefault? edits m.name idField = none) : (m.edited edits).Checked := by
  constructor
  · obtain ⟨f, hf, htype, hcreate, hupdate, hread, hfallback⟩ := h.identifier
    have hname : f.name = idField := by simpa using List.find?_some hf
    rw [edited_field?, hf]
    refine ⟨_, rfl, htype, hcreate, hupdate, hread, ?_⟩
    show (Catalog.lastDefault? edits m.name f.name).or f.fallback = none
    rw [hname, hid, hfallback, Option.none_or]
  · intro w hw
    obtain ⟨f, hf, htype⟩ := h.owner w hw
    rw [edited_field?, hf]
    exact ⟨_, rfl, htype⟩

/-- The edited model has the fields of the model. -/
theorem edited_names : (m.edited edits).fields.map Field.name = m.fields.map Field.name := by
  unfold edited
  rw [List.map_map]
  rfl

/-- If the hooks of a model and those of the edits are built in, so are those of
    the edited model. -/
theorem edited_builtIn (hm : ∀ op, ∀ hook ∈ m.hooks op, hook.BuiltIn)
    (hedits : ∀ op hook, Catalog.Edit.addHook m.name op hook ∈ edits → hook.BuiltIn) :
    ∀ op, ∀ hook ∈ (m.edited edits).hooks op, hook.BuiltIn := by
  have hadded : ∀ op, ∀ hook ∈ Catalog.addedHooks edits m.name op, hook.BuiltIn := by
    intro op hook hhook
    obtain ⟨e, he, hmem⟩ := List.mem_filterMap.mp hhook
    exact hedits op hook (Catalog.Edit.hook?_eq_some.mp hmem ▸ he)
  intro op hook hhook
  cases op with
  | create => exact (List.mem_append.mp hhook).elim (hm .create hook) (hadded .create hook)
  | update => exact (List.mem_append.mp hhook).elim (hm .update hook) (hadded .update hook)
  | read => cases hhook
  | delete => cases hhook

/-- What is registered conforms, and goes on to under edits that give no default
    to the identifier field. -/
theorem Registered.conforms (h : m.Registered modelName decl)
    (hnodup : (decl.fields.map Prod.fst).Nodup)
    (hid : Catalog.lastDefault? edits m.name idField = none) :
    (m.edited edits).Conforms modelName decl edits where
  toChecked := h.toChecked.edited hid
  name := h.name
  label := h.labelIdent
  collection := h.collectionIdent
  fields := by
    show List.Forall₂ _ _ (m.fields.map _)
    rw [List.forall₂_map_right_iff]
    refine h.fields.imp fun entry f hf => ?_
    obtain ⟨typeName, letters, written, hsays, hshaped, hfallback⟩ := hf
    refine ⟨typeName, letters, written, hsays,
      ⟨hshaped.name, hshaped.ident, hshaped.type, hshaped.known, hshaped.allows⟩, ?_⟩
    rw [← h.name, ← hshaped.name]
    cases hlast : Catalog.lastDefault? edits m.name f.name with
    | none => exact .inr (hshaped.name ▸ hfallback)
    | some d =>
      obtain ⟨produce, hmem, rfl⟩ := Catalog.lastDefault?_mem hlast
      exact .inl ⟨produce, hmem, rfl⟩
  stored := by
    have hnames : ((m.edited edits).fields.map Field.name).Nodup := by
      rw [edited_names, h.field_names]
      exact hnodup
    intro f hf
    refine (find?_of_unique fun f' hf' f'' hf'' hname hname' => ?_).mpr ⟨hf, decide_eq_true rfl⟩
    exact List.inj_on_of_nodup_map hnames hf' hf''
      ((of_decide_eq_true hname).trans (of_decide_eq_true hname').symm)
  ownerName := h.ownerName
  hooks := by
    intro op hop
    cases op with
    | create => exact .inl rfl
    | update => exact .inr rfl
    | read => exact absurd rfl hop
    | delete => exact absurd rfl hop

end Model

namespace Catalog

variable {c : Catalog} {edits : List Edit} {name : String} {decl : ModelDecl} {m₀ : Model}

/-- A model that was accepted by registration is what its declaration says after
    every run of edits that brings it in, whichever hooks and defaults code gave
    it meanwhile. A declaration has no two fields of one name, since it is read
    from a map. If the hooks of the model are the built-in ones, no preparation
    of a write gives a value to the identifier field. -/
theorem run_conforms (hrun : empty.run edits = .ok c) (hregister : Schema.register name decl = .ok m₀)
    (hmem : m₀ ∈ registered edits) (hnodup : (decl.fields.map Prod.fst).Nodup) :
    ∃ m, c.get? name = some m ∧ m.Conforms name decl edits ∧
      ((∀ op, ∀ hook ∈ m.hooks op, hook.BuiltIn) → m.Sealed) := by
  have hregistered := Schema.register_eq_ok.mp hregister
  have hrecorded : Recorded c edits := recorded_empty.run hrun
  have hconforms := hregistered.conforms hnodup (lastDefault?_idField hrun m₀.name)
  refine ⟨m₀.edited edits, hrecorded.get?_eq_some.mpr ⟨m₀, hmem, hregistered.name, rfl⟩,
    hconforms, hconforms.toChecked.sealed ?_⟩
  rw [Model.edited_names, hregistered.field_names]
  exact hnodup

/-- The books conform after their edits, and no write of them prepares a value
    for the identifier field. -/
theorem books_conform :
    ∃ c m₀ m, empty.run bookEdits = .ok c ∧ Schema.register "Books" bookModel = .ok m₀ ∧
      m₀ ∈ registered bookEdits ∧ (bookModel.fields.map Prod.fst).Nodup ∧
      c.get? "Books" = some m ∧ m.Conforms "Books" bookModel bookEdits ∧ m.Sealed := by
  have htest : okAnd (empty.run bookEdits) (fun _ => okAnd (Schema.register "Books" bookModel)
      fun _ => true) = true := by decide +kernel
  obtain ⟨c, hrun, htest⟩ := okAnd_iff.mp htest
  obtain ⟨m₀, hregister, -⟩ := okAnd_iff.mp htest
  have hmem : m₀ ∈ registered bookEdits := by
    refine List.mem_filterMap.mpr ⟨.declare "Books" bookModel, List.mem_cons_self, ?_⟩
    rw [Edit.model?, hregister]
    rfl
  have hnodup : (bookModel.fields.map Prod.fst).Nodup := by decide
  obtain ⟨m, hget, hconforms, hsealed⟩ := run_conforms hrun hregister hmem hnodup
  refine ⟨c, m₀, m, hrun, hregister, hmem, hnodup, hget, hconforms, hsealed ?_⟩
  -- the declaration names a hook, and the edits add the same one
  have hrecorded : Recorded c bookEdits := recorded_empty.run hrun
  obtain ⟨_, hm₁, -, rfl⟩ := hrecorded.get?_eq_some.mp hget
  have honly : registered bookEdits = [m₀] := by
    simp [registered, bookEdits, Edit.model?, hregister, Except.toOption]
  rw [honly, List.mem_singleton] at hm₁
  subst hm₁
  refine Model.edited_builtIn (fun op hook hhook => ?_) fun op hook hedit => ?_
  · obtain ⟨hookName, hnamed⟩ := Schema.register_hooks hregister op hook hhook
    exact ⟨hookName, op, hnamed⟩
  · have hhook : hook = Hook.trimTexts := by
      simp only [bookEdits, List.mem_cons, reduceCtorEq, Edit.addHook.injEq, List.not_mem_nil,
        or_false, false_or] at hedit
      exact hedit.2.2
    exact ⟨"trim", .update, hhook ▸ rfl⟩

end Catalog

end RecordGate

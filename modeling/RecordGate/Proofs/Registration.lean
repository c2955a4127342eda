import Mathlib.Data.List.Nodup
import RecordGate.Config
import RecordGate.Proofs.Preparation
import RecordGate.Proofs.RegistrationChecks

/-! # What registered models keep

  Models get into a catalog by registration, and code may add hooks and
  defaults to them afterwards. What the rules of registration say about the
  identifier and the owner stays true.

  - `Model.Checked.sealed`: where no field is declared twice and the hooks can
    be named, no preparation of a write gives a value to the identifier field.
  - `Catalog.Built`: the catalogs that can be built; their models are checked
    (`Catalog.Built.checked`).
  - `Config.ofText_sealed`: in a configuration from a text no preparation of a
    write gives a value to the identifier field.
-/

namespace RecordGate

/-- A model whose writes never give a value to the identifier field. -/
structure Model.Sealed (m : Model) : Prop where
  /-- No create does. -/
  create : ∀ raw, (Shape.prepare m .create raw).Yields (Shape.Lacks idField)
  /-- No update does. -/
  update : ∀ raw, (Shape.prepare m .update raw).Yields (Shape.Lacks idField)

/-! ### Built-in hooks -/

/-- A hook that a configuration can name. -/
def Hook.BuiltIn (hook : Hook) : Prop :=
  ∃ name op, Hook.ofName? name op = some hook

/-- A built-in hook never gives a value to the identifier field. -/
theorem Hook.BuiltIn.lacks {hook : Hook} (h : hook.BuiltIn) (t : Time.Instant) {r : Record}
    (hr : Shape.Lacks idField r) : Shape.Lacks idField (hook.run t r) := by
  obtain ⟨name, op, h⟩ := h
  unfold Hook.ofName? at h
  split at h <;> cases h
  case h_1 => exact (hr.insert (by decide) _).insert (by decide) _
  case h_2 => exact hr.insert (by decide) _
  -- what is left is `trim`, once for each operation
  all_goals
    show (r.mapValues Hook.trimValue).get? idField = none
    rw [Record.get?_mapValues, hr]
    rfl

/-- If no two fields have the same name and all hooks are built in, the writes
    of a checked model never give a value to the identifier field. -/
theorem Model.Checked.sealed {m : Model} (h : m.Checked) (hnodup : (m.fields.map Field.name).Nodup)
    (hhooks : ∀ op, ∀ hook ∈ m.hooks op, hook.BuiltIn) : m.Sealed := by
  obtain ⟨f, hf, -, hnoCreate, hnoUpdate, -, hnoDefault⟩ := h.identifier
  -- the rules are about the first field of this name, so there must be no other
  have honly : ∀ f' ∈ m.fields, f'.name = idField → f' = f := by
    intro f' hf' hname
    have hfname : f.name = idField := by simpa using List.find?_some hf
    exact List.inj_on_of_nodup_map hnodup hf' (List.mem_of_find?_eq_some hf)
      (hname.trans hfname.symm)
  have hlacks : ∀ op, ∀ hook ∈ m.hooks op, ∀ t r,
      Shape.Lacks idField r → Shape.Lacks idField (hook.run t r) :=
    fun op hook hhook t _ hr => (hhooks op hook hhook).lacks t hr
  constructor
  · intro raw
    refine Shape.prepare_lacks raw (fun f' hf' hname => ?_) (fun _ f' hf' hname => ?_)
      (hlacks .create)
    · rw [honly f' hf' hname, hnoCreate]
    · rw [honly f' hf' hname, hnoDefault]
  · intro raw
    refine Shape.prepare_lacks raw (fun f' hf' hname => ?_) nofun (hlacks .update)
    rw [honly f' hf' hname, hnoUpdate]

/-! ### Registration -/

namespace Schema

variable {name : String} {decl : ModelDecl} {m : Model}

/-- A registered model keeps the rules about the identifier and the owner. -/
theorem register_checked (h : register name decl = .ok m) : m.Checked :=
  (register_eq_ok.mp h).toChecked

/-- If no field is declared twice, no two fields of a registered model have the
    same name. -/
theorem register_fields_inj (h : register name decl = .ok m)
    (hnodup : (decl.fields.map Prod.fst).Nodup) {f f' : Field} (hf : f ∈ m.fields)
    (hf' : f' ∈ m.fields) (hname : f'.name = f.name) : f' = f := by
  rw [← (register_eq_ok.mp h).field_names] at hnodup
  exact List.inj_on_of_nodup_map hnodup hf' hf hname

/-- The hooks of a registered model are those that a configuration can name. -/
theorem register_hooks (h : register name decl = .ok m) (op : Operation) :
    ∀ hook ∈ m.hooks op, ∃ hookName, Hook.ofName? hookName op = some hook := by
  intro hook hmem
  have hregistered := register_eq_ok.mp h
  cases op with
  | create =>
    obtain ⟨hookName, -, hnamed⟩ := exists_of_forall₂ hregistered.createHooks hmem
    exact ⟨hookName, hnamed⟩
  | update =>
    obtain ⟨hookName, -, hnamed⟩ := exists_of_forall₂ hregistered.updateHooks hmem
    exact ⟨hookName, hnamed⟩
  | read => cases hmem
  | delete => cases hmem

/-- If no field is declared twice, a registered model's writes never give a
    value to the identifier field. -/
theorem register_sealed (h : register name decl = .ok m)
    (hnodup : (decl.fields.map Prod.fst).Nodup) : m.Sealed := by
  refine (register_checked h).sealed ((register_eq_ok.mp h).field_names ▸ hnodup) ?_
  intro op hook hhook
  obtain ⟨hookName, hnamed⟩ := register_hooks h op hook hhook
  exact ⟨hookName, op, hnamed⟩

end Schema

/-! ### Catalogs -/

theorem Model.Checked.addHook {m m' : Model} (h : m.Checked) {op : Operation} {hook : Hook}
    (hadd : m.addHook? op hook = some m') : m'.Checked := by
  cases op with
  | create => cases hadd; exact ⟨h.identifier, h.owner⟩
  | update => cases hadd; exact ⟨h.identifier, h.owner⟩
  | read => cases hadd
  | delete => cases hadd

/-- A search by name comes upon the same fields when one of them is given a
    default. -/
theorem Field.find?_fallback (fs : List Field) (name other : String) (d : Default) :
    (fs.map fun f => if f.name = name then { f with fallback := some d } else f).find?
        (fun f => f.name = other) =
      (fs.find? fun f => f.name = other).map fun f =>
        if f.name = name then { f with fallback := some d } else f := by
  rw [List.find?_map]
  congr 2
  funext f
  simp only [Function.comp_apply]
  split <;> rfl

/-- A default changes nothing of a field but its default. -/
theorem Model.field?_setFallback (m : Model) (name other : String) (d : Default) :
    (m.setFallback name d).field? other =
      (m.field? other).map fun f => if f.name = name then { f with fallback := some d } else f :=
  Field.find?_fallback m.fields name other d

theorem Model.Checked.setFallback {m : Model} (h : m.Checked) {name : String}
    (hname : name ≠ idField) (d : Default) : (m.setFallback name d).Checked := by
  constructor
  · -- the identifier field is another one, so it stays as it is
    obtain ⟨f, hf, hrules⟩ := h.identifier
    have hfname : f.name = idField := by simpa using List.find?_some hf
    refine ⟨f, ?_, hrules⟩
    rw [Model.field?_setFallback, hf, Option.map_some, if_neg (hfname ▸ hname.symm)]
  · intro w hw
    obtain ⟨f, hf, htype⟩ := h.owner w hw
    rw [Model.field?_setFallback, hf, Option.map_some]
    split
    · exact ⟨_, rfl, htype⟩
    · exact ⟨_, rfl, htype⟩

namespace Catalog

/-- The catalogs that can be built: declared models, checked models that come
    from elsewhere, and the hooks and defaults that code adds. -/
inductive Built : Catalog → Prop where
  /-- The empty catalog. -/
  | empty : Built empty
  /-- A declared model is registered and added. -/
  | declare {c c' : Catalog} {name : String} {decl : ModelDecl} (hc : Built c)
      (h : c.declare name decl = .ok c') : Built c'
  /-- A checked model is added. -/
  | add {c c' : Catalog} {m : Model} (hc : Built c) (hm : m.Checked) (h : c.add m = .ok c') :
      Built c'
  /-- Code adds a hook. -/
  | addHook {c c' : Catalog} {model : String} {op : Operation} {hook : Hook} (hc : Built c)
      (h : c.addHook model op hook = .ok c') : Built c'
  /-- Code adds a default. -/
  | setDefault {c c' : Catalog} {model field : String} {produce : Unit → Json} (hc : Built c)
      (h : c.setDefault model field produce = .ok c') : Built c'

variable {c c' : Catalog} {m : Model}

/-- A model is added at the end, if its name and its label are new. -/
theorem add_eq_ok :
    c.add m = .ok c' ↔ (∀ old ∈ c.models, old.name ≠ m.name) ∧
      (∀ old ∈ c.models, old.label.singular ≠ m.label.singular) ∧
      c' = ⟨c.models ++ [m]⟩ := by
  have hname : c.get? m.name = none ↔ ∀ old ∈ c.models, old.name ≠ m.name := by
    simp [get?]
  have hlabel : (c.models.find? fun old => old.label.singular = m.label.singular) = none ↔
      ∀ old ∈ c.models, old.label.singular ≠ m.label.singular := by
    simp
  rw [← hname, ← hlabel]
  unfold add
  split
  next hsome => simp [hsome]
  next hnone =>
    split
    next hsome => simp [hsome]
    next hnone' =>
      rw [Except.ok.injEq, and_iff_right hnone, and_iff_right hnone']
      exact eq_comm

/-- A declared model is added once it is registered. -/
theorem declare_eq_ok {name : String} {decl : ModelDecl} :
    c.declare name decl = .ok c' ↔ ∃ m, Schema.register name decl = .ok m ∧ c.add m = .ok c' :=
  bind_eq_ok_iff

/-- A hook is added to a model that is there, for a write. -/
theorem addHook_eq_ok {model : String} {op : Operation} {hook : Hook} :
    c.addHook model op hook = .ok c' ↔ ∃ m m', c.get? model = some m ∧
      m.addHook? op hook = some m' ∧ c' = c.replace model m' := by
  unfold Catalog.addHook
  split
  next hnone => simp [hnone]
  next m hsome =>
    rw [hsome]
    split
    next m' hadd =>
      rw [Except.ok.injEq]
      constructor
      · rintro rfl
        exact ⟨m, m', rfl, hadd, rfl⟩
      · rintro ⟨_, _, hsame, hadd', rfl⟩
        cases hsame
        rw [Option.some.inj (hadd.symm.trans hadd')]
    next hnone =>
      refine ⟨nofun, ?_⟩
      rintro ⟨_, _, hsame, hadd, -⟩
      cases hsame
      cases hnone.symm.trans hadd

/-- A default is given to a declared field of a model that is there, but never
    to the identifier. -/
theorem setDefault_eq_ok {model field : String} {produce : Unit → Json} :
    c.setDefault model field produce = .ok c' ↔ field ≠ idField ∧ ∃ m, c.get? model = some m ∧
      m.declares field = true ∧ c' = c.replace model (m.setFallback field (.computed produce)) := by
  unfold Catalog.setDefault
  split
  next hid => simp [hid]
  next hid =>
    split
    next hnone => simp [hnone]
    next m hsome =>
      rw [hsome]
      split
      next hdeclares =>
        rw [Except.ok.injEq, and_iff_right hid]
        constructor
        · rintro rfl
          exact ⟨m, rfl, hdeclares, rfl⟩
        · rintro ⟨_, hsame, -, rfl⟩
          cases hsame
          rfl
      next hdeclares =>
        refine ⟨nofun, ?_⟩
        rintro ⟨-, _, hsame, hdeclares', -⟩
        cases hsame
        exact absurd hdeclares' hdeclares

theorem get?_mem {name : String} (h : c.get? name = some m) : m ∈ c.models :=
  List.mem_of_find?_eq_some h

/-- A catalog of checked models stays one if a model is replaced by a checked
    one. -/
theorem replace_checked (hc : ∀ m ∈ c.models, m.Checked) (hm : m.Checked) (name : String) :
    ∀ m' ∈ (c.replace name m).models, m'.Checked := by
  intro m' hm'
  obtain ⟨old, hold, rfl⟩ := List.mem_map.mp hm'
  split
  · exact hm
  · exact hc old hold

/-- A catalog of checked models stays one if a checked one is added. -/
theorem add_checked (hc : ∀ m ∈ c.models, m.Checked) (hm : m.Checked) (h : c.add m = .ok c') :
    ∀ m' ∈ c'.models, m'.Checked := by
  obtain ⟨-, -, rfl⟩ := add_eq_ok.mp h
  intro m' hm'
  rcases List.mem_append.mp hm' with hm' | hm'
  · exact hc m' hm'
  · exact List.mem_singleton.mp hm' ▸ hm

/-- Every model of a catalog that can be built is checked. -/
theorem Built.checked (h : Built c) : ∀ m ∈ c.models, m.Checked := by
  induction h with
  | empty => exact fun m hm => by cases hm
  | declare _ h ih =>
    obtain ⟨m, hm, h⟩ := declare_eq_ok.mp h
    exact add_checked ih (Schema.register_checked hm) h
  | add _ hm h ih => exact add_checked ih hm h
  | addHook _ h ih =>
    obtain ⟨m, m', hget, hadd, rfl⟩ := addHook_eq_ok.mp h
    exact replace_checked ih ((ih m (get?_mem hget)).addHook hadd) _
  | setDefault _ h ih =>
    obtain ⟨hfield, m, hget, -, rfl⟩ := setDefault_eq_ok.mp h
    exact replace_checked ih ((ih m (get?_mem hget)).setFallback hfield _) _

theorem Built.declareAll {decls : Keyed ModelDecl} (hc : Built c)
    (h : c.declareAll decls = .ok c') : Built c' := by
  induction decls generalizing c with
  | nil =>
    cases h
    exact hc
  | cons entry rest ih =>
    obtain ⟨c₁, hdeclare, h⟩ := bind_eq_ok_iff.mp h
    exact ih (hc.declare hdeclare) h

/-- Every model of a declared catalog is one of those before, or was
    registered. -/
theorem declareAll_mem {decls : Keyed ModelDecl} (h : c.declareAll decls = .ok c')
    (hm : m ∈ c'.models) :
    m ∈ c.models ∨ ∃ entry ∈ decls, Schema.register entry.1 entry.2 = .ok m := by
  induction decls generalizing c with
  | nil =>
    cases h
    exact .inl hm
  | cons entry rest ih =>
    obtain ⟨c₁, hdeclare, h⟩ := bind_eq_ok_iff.mp h
    obtain ⟨m₁, hregister, hadd⟩ := declare_eq_ok.mp hdeclare
    obtain ⟨-, -, rfl⟩ := add_eq_ok.mp hadd
    rcases ih h with hm | ⟨entry', hentry', hm⟩
    · rcases List.mem_append.mp hm with hm | hm
      · exact .inl hm
      · rw [List.mem_singleton.mp hm]
        exact .inr ⟨entry, List.mem_cons_self, hregister⟩
    · exact .inr ⟨entry', List.mem_cons_of_mem _ hentry', hm⟩

end Catalog

/-! ### Documents -/

section documents
variable {α : Type} {read : Yaml.Node → Option α} {n : Yaml.Node}

/-- No name occurs twice in what is read from a map. -/
theorem keyed?_nodup {entries : Keyed α} (h : n.keyed? read = some entries) :
    (entries.map Prod.fst).Nodup := by
  unfold Yaml.Node.keyed? at h
  split at h
  · obtain ⟨pairs, -, rfl⟩ := Option.map_eq_some_iff.mp h
    exact Keyed.ofList_nodup pairs
  · split at h <;> cases h
    exact .nil

/-- What is read item by item was each read from an item. -/
theorem mapM_mem {β γ : Type} {f : β → Option γ} {items : List β} {results : List γ}
    (h : items.mapM f = some results) {c : γ} (hc : c ∈ results) : ∃ b ∈ items, f b = some c := by
  induction items generalizing results with
  | nil =>
    cases h
    cases hc
  | cons b rest ih =>
    rw [List.mapM_cons] at h
    obtain ⟨c', hb, h⟩ := Option.bind_eq_some_iff.mp h
    obtain ⟨results', hrest, h⟩ := Option.bind_eq_some_iff.mp h
    cases h
    rcases List.mem_cons.mp hc with rfl | hc
    · exact ⟨b, List.mem_cons_self, hb⟩
    · obtain ⟨b', hb', hf⟩ := ih hrest hc
      exact ⟨b', List.mem_cons_of_mem _ hb', hf⟩

/-- Every entry of what is read from a map was made by the reader. -/
theorem keyed?_mem {entries : Keyed α} (h : n.keyed? read = some entries)
    {entry : String × α} (hentry : entry ∈ entries) : ∃ v, read v = some entry.2 := by
  unfold Yaml.Node.keyed? at h
  split at h
  · obtain ⟨pairs, hpairs, rfl⟩ := Option.map_eq_some_iff.mp h
    obtain ⟨⟨k, v⟩, -, hread⟩ := mapM_mem hpairs (Keyed.mem_of_mem_ofList hentry)
    obtain ⟨name, -, hread⟩ := Option.bind_eq_some_iff.mp hread
    obtain ⟨value, hvalue, hread⟩ := Option.bind_eq_some_iff.mp hread
    cases hread
    exact ⟨v, hvalue⟩
  · split at h <;> cases h
    cases hentry

end documents

/-- No field of a model is written twice. -/
theorem ModelDecl.ofNode?_nodup {n : Yaml.Node} {decl : ModelDecl}
    (h : ModelDecl.ofNode? n = some decl) : (decl.fields.map Prod.fst).Nodup := by
  unfold ofNode? at h
  obtain ⟨entries, -, h⟩ := Option.bind_eq_some_iff.mp h
  split at h
  · obtain ⟨label, -, h⟩ := Option.bind_eq_some_iff.mp h
    obtain ⟨storage, -, h⟩ := Option.bind_eq_some_iff.mp h
    obtain ⟨owner, -, h⟩ := Option.bind_eq_some_iff.mp h
    obtain ⟨fields, hfields, h⟩ := Option.bind_eq_some_iff.mp h
    obtain ⟨⟨createHooks, updateHooks⟩, -, h⟩ := Option.bind_eq_some_iff.mp h
    cases h
    exact keyed?_nodup hfields
  · cases h

/-- No field of a model of a configuration text is written twice. -/
theorem ApiDecl.ofText_nodup {text : String} {api : ApiDecl} (h : ApiDecl.ofText text = .ok api)
    {entry : String × ModelDecl} (hentry : entry ∈ api.models) :
    (entry.2.fields.map Prod.fst).Nodup := by
  unfold ofText readDocument at h
  split at h
  next api' hread =>
    cases h
    obtain ⟨n, -, hread⟩ := Option.bind_eq_some_iff.mp hread
    unfold ofNode? at hread
    obtain ⟨entries, -, hread⟩ := Option.bind_eq_some_iff.mp hread
    split at hread
    next models routes =>
      obtain ⟨decls, hdecls, hread⟩ := Option.bind_eq_some_iff.mp hread
      obtain ⟨routes, -, hread⟩ := Option.bind_eq_some_iff.mp hread
      cases hread
      cases models with
      | none =>
        cases hdecls
        cases hentry
      | some models =>
        obtain ⟨v, hv⟩ := keyed?_mem hdecls hentry
        exact ModelDecl.ofNode?_nodup hv
    · cases hread
  · cases h

namespace Config

variable {text : String} {cfg : Config}

/-- The catalog of a configuration text is built by declarations alone. -/
theorem ofText_catalog (h : ofText text = .ok cfg) :
    ∃ api, ApiDecl.ofText text = .ok api ∧
      Catalog.empty.declareAll api.models = .ok cfg.catalog ∧
      Route.compileAll cfg.catalog [] api.routes = .ok cfg.routes := by
  obtain ⟨api, hapi, h⟩ := bind_eq_ok_iff.mp h
  obtain ⟨catalog, hcatalog, h⟩ := bind_eq_ok_iff.mp h
  obtain ⟨routes, hroutes, h⟩ := bind_eq_ok_iff.mp h
  cases h
  exact ⟨api, hapi, hcatalog, hroutes⟩

theorem ofText_built (h : ofText text = .ok cfg) : cfg.catalog.Built := by
  obtain ⟨api, -, hcatalog, -⟩ := ofText_catalog h
  exact Catalog.Built.empty.declareAll hcatalog

/-- The models of a configuration text were registered from declarations that
    have no field twice. -/
theorem ofText_registered (h : ofText text = .ok cfg) {m : Model} (hm : m ∈ cfg.catalog.models) :
    ∃ name decl, Schema.register name decl = .ok m ∧ (decl.fields.map Prod.fst).Nodup := by
  obtain ⟨api, hapi, hcatalog, -⟩ := ofText_catalog h
  rcases Catalog.declareAll_mem hcatalog hm with hm | ⟨entry, hentry, hregister⟩
  · cases hm
  · exact ⟨entry.1, entry.2, hregister, ApiDecl.ofText_nodup hapi hentry⟩

/-- The fields of a configuration text are named by identifiers. -/
theorem ofText_ident (h : ofText text = .ok cfg) {m : Model} (hm : m ∈ cfg.catalog.models)
    {name : String} {f : Field} (hf : m.field? name = some f) : Text.isIdent name = true := by
  obtain ⟨_, decl, hregister, -⟩ := ofText_registered h hm
  obtain ⟨_, -, _, _, _, -, hshaped, -⟩ := exists_of_forall₂
    (Schema.register_eq_ok.mp hregister).fields (List.mem_of_find?_eq_some hf)
  have hname : f.name = name := by simpa using List.find?_some hf
  exact Text.isIdent_iff.mpr (hname ▸ hshaped.ident)

/-- No write under a configuration text prepares a value for the identifier
    field. -/
theorem ofText_sealed (h : ofText text = .ok cfg) : ∀ m ∈ cfg.catalog.models, m.Sealed := by
  -- a document has no field twice, so the checks were about the only identifier field
  intro m hm
  obtain ⟨name, decl, hregister, hnodup⟩ := ofText_registered h hm
  exact Schema.register_sealed hregister hnodup

end Config

end RecordGate

import RecordGate.Proofs.Registration

/-! # A catalog is what its history says

  A catalog is built by edits: models are declared or added ready-made, and
  code gives them hooks and defaults. What the catalog holds in the end can be
  read off the list of its edits.

  - `Catalog.Edit` and `Catalog.run`: the edits, one after the other.
  - `Model.edited`: a registered model with the hooks and defaults of a list
    of edits.
  - `Catalog.Recorded` is the invariant: one edit keeps it (`Recorded.step`),
    and so does a run (`Recorded.run`).
  - `Catalog.run_follows`: names and labels lead to the registered models, each
    as it was edited, and an edit fails exactly where it is `Refused`.
  - `Catalog.ofText_follows`: the catalog of a configuration text is one of
    these.

  The models are found by name in one map and by label in another. The second
  is made from the first, so that both agree is a matter of the labels being
  as distinct as the names.
-/

namespace RecordGate

/-! ### Edits -/

/-- A change to a catalog before it is used. -/
inductive Catalog.Edit where
  /-- A declared model is registered and added. -/
  | declare (name : String) (decl : ModelDecl)
  /-- A ready-made model is added. -/
  | add (m : Model)
  /-- A model gets a hook for an operation. -/
  | addHook (model : String) (op : Operation) (hook : Hook)
  /-- A field of a model gets a default. -/
  | setDefault (model field : String) (produce : Unit → Json)

namespace Catalog.Edit

/-- What an edit makes of a catalog. -/
def apply (c : Catalog) : Edit → Except Error Catalog
  | declare name decl => c.declare name decl
  | add m => c.add m
  | addHook model op hook => c.addHook model op hook
  | setDefault model field produce => c.setDefault model field produce

/-- Whether an edit brings a model in. -/
def registers : Edit → Bool
  | declare .. | add .. => true
  | addHook .. | setDefault .. => false

/-- The model that an edit brings in. -/
def model? : Edit → Option Model
  | declare name decl => (Schema.register name decl).toOption
  | add m => some m
  | addHook .. | setDefault .. => none

/-- The name of the model that an edit changes. -/
def target? : Edit → Option String
  | declare .. | add .. => none
  | addHook model .. | setDefault model .. => some model

/-- The hook that an edit gives to a model for an operation. -/
def hook? (model : String) (op : Operation) : Edit → Option Hook
  | addHook model' op' hook => if model' = model ∧ op' = op then some hook else none
  | _ => none

/-- The default that an edit gives to a field of a model. -/
def default? (model field : String) : Edit → Option Default
  | setDefault model' field' produce =>
    if model' = model ∧ field' = field then some (.computed produce) else none
  | _ => none

theorem registers_eq_false {e : Edit} : e.registers = false ↔ e.target?.isSome = true := by
  cases e <;> simp [registers, target?]

/-- An edit that brings a model in adds it. -/
theorem apply_of_model? {c : Catalog} {e : Edit} {m : Model} (h : e.model? = some m) :
    e.apply c = c.add m := by
  cases e with
  | declare name decl =>
    simp only [model?] at h
    cases hregister : Schema.register name decl with
    | ok m' =>
      rw [hregister] at h
      cases h
      show Schema.register name decl >>= c.add = c.add m
      rw [hregister, ok_bind]
    | error cause =>
      rw [hregister] at h
      cases h
  | add m' =>
    cases h
    rfl
  | addHook model op hook => cases h
  | setDefault model field produce => cases h

/-- The edits that a catalog of the registered models refuses. -/
inductive Refused (seen : List Model) : Edit → Prop where
  /-- The declaration breaks a rule of registration. -/
  | invalid {name : String} {decl : ModelDecl} {cause : Error}
      (h : Schema.register name decl = .error cause) : Refused seen (declare name decl)
  /-- A model has the name already. -/
  | nameTaken {e : Edit} {m old : Model} (hm : e.model? = some m) (hold : old ∈ seen)
      (h : old.name = m.name) : Refused seen e
  /-- A model has the singular label already. -/
  | labelTaken {e : Edit} {m old : Model} (hm : e.model? = some m) (hold : old ∈ seen)
      (h : old.label.singular = m.label.singular) : Refused seen e
  /-- No model has the name. -/
  | unknownModel {e : Edit} {name : String} (he : e.target? = some name)
      (h : ∀ m ∈ seen, m.name ≠ name) : Refused seen e
  /-- Only writes have hooks. -/
  | unhookable {model : String} {op : Operation} {hook : Hook} (h : op = .read ∨ op = .delete) :
      Refused seen (addHook model op hook)
  /-- The storage assigns the identifier. -/
  | identifier {model : String} {produce : Unit → Json} :
      Refused seen (setDefault model idField produce)
  /-- The model has no such field. -/
  | unknownField {m : Model} {field : String} {produce : Unit → Json} (hm : m ∈ seen)
      (h : m.declares field = false) : Refused seen (setDefault m.name field produce)

end Catalog.Edit

namespace Catalog

/-- Applies edits in order, up to the first that fails. -/
def run (c : Catalog) : List Edit → Except Error Catalog
  | [] => .ok c
  | e :: edits => do
    let c ← e.apply c
    c.run edits

/-- The models that edits bring in, in order. -/
def registered (edits : List Edit) : List Model :=
  edits.filterMap Edit.model?

/-- The hooks that edits give to a model for an operation, in order. -/
def addedHooks (edits : List Edit) (model : String) (op : Operation) : List Hook :=
  edits.filterMap (·.hook? model op)

/-- The last default that edits give to a field of a model. -/
def lastDefault? (edits : List Edit) (model field : String) : Option Default :=
  (edits.filterMap (·.default? model field)).getLast?

end Catalog

/-- A model with the hooks that edits add, in their order, and with the last
    default that they give to each field. -/
def Model.edited (m : Model) (edits : List Catalog.Edit) : Model :=
  { m with
    fields := m.fields.map fun f =>
      { f with fallback := (Catalog.lastDefault? edits m.name f.name).or f.fallback }
    createHooks := m.createHooks ++ Catalog.addedHooks edits m.name .create
    updateHooks := m.updateHooks ++ Catalog.addedHooks edits m.name .update }

/-! ### Edited models -/

namespace Catalog

variable {edits : List Edit} {e : Edit} {model : String}

theorem Edit.hook?_eq_some {op : Operation} {hook : Hook} :
    e.hook? model op = some hook ↔ e = .addHook model op hook := by
  cases e <;> simp [hook?, and_assoc]

theorem Edit.default?_eq_some {field : String} {d : Default} :
    e.default? model field = some d ↔
      ∃ produce, e = .setDefault model field produce ∧ d = .computed produce := by
  cases e <;> simp [default?, and_assoc, eq_comm]

theorem Edit.hook?_of_target (h : e.target? ≠ some model) (op : Operation) :
    e.hook? model op = none :=
  Option.eq_none_iff_forall_ne_some.mpr fun _ hhook => h (Edit.hook?_eq_some.mp hhook ▸ rfl)

theorem Edit.default?_of_target (h : e.target? ≠ some model) (field : String) :
    e.default? model field = none := by
  refine Option.eq_none_iff_forall_ne_some.mpr fun d hd => h ?_
  obtain ⟨produce, rfl, -⟩ := Edit.default?_eq_some.mp hd
  rfl

theorem addedHooks_append (op : Operation) :
    addedHooks (edits ++ [e]) model op = addedHooks edits model op ++ (e.hook? model op).toList := by
  unfold addedHooks
  rw [List.filterMap_append]
  cases h : e.hook? model op <;> simp [h]

theorem lastDefault?_append (field : String) :
    lastDefault? (edits ++ [e]) model field =
      (e.default? model field).or (lastDefault? edits model field) := by
  unfold lastDefault?
  rw [List.filterMap_append]
  cases h : e.default? model field <;> simp [h]

end Catalog

namespace Model

variable {m m' : Model} {edits : List Catalog.Edit} {e : Catalog.Edit}

/-- Edits change nothing of a field but its default. -/
theorem edited_field? (name : String) :
    (m.edited edits).field? name = (m.field? name).map fun f =>
      { f with fallback := (Catalog.lastDefault? edits m.name f.name).or f.fallback } :=
  List.find?_map

/-- A name is a field of the edited model iff it is one of the model. -/
theorem edited_declares (field : String) : (m.edited edits).declares field = m.declares field := by
  unfold declares
  rw [edited_field?, Option.isSome_map]

/-- An edit of another model changes nothing. -/
theorem edited_append (h : e.target? ≠ some m.name) :
    m.edited (edits ++ [e]) = m.edited edits := by
  simp only [edited, Catalog.addedHooks_append, Catalog.lastDefault?_append, e.hook?_of_target h,
    e.default?_of_target h, Option.toList_none, List.append_nil, Option.none_or]

/-- A model that no edit is about is as it was registered. -/
theorem edited_of_untouched (h : ∀ e ∈ edits, e.target? ≠ some m.name) : m.edited edits = m := by
  have hhooks : ∀ op, Catalog.addedHooks edits m.name op = [] := fun op =>
    List.filterMap_eq_nil_iff.mpr fun e he => e.hook?_of_target (h e he) op
  have hdefault : ∀ field, Catalog.lastDefault? edits m.name field = none := by
    intro field
    unfold Catalog.lastDefault?
    rw [List.filterMap_eq_nil_iff.mpr fun e he => e.default?_of_target (h e he) field]
    rfl
  simp only [edited, hhooks, hdefault, List.append_nil, Option.none_or]
  simp

/-- A hook of an edit comes after those of the edits before. -/
theorem edited_addHook {op : Operation} {hook : Hook}
    (h : (m.edited edits).addHook? op hook = some m') :
    m' = m.edited (edits ++ [.addHook m.name op hook]) := by
  cases op with
  | create =>
    cases h
    simp [edited, Catalog.addedHooks_append, Catalog.lastDefault?_append, Catalog.Edit.hook?,
      Catalog.Edit.default?]
  | update =>
    cases h
    simp [edited, Catalog.addedHooks_append, Catalog.lastDefault?_append, Catalog.Edit.hook?,
      Catalog.Edit.default?]
  | read => cases h
  | delete => cases h

/-- A default of an edit replaces those of the edits before. -/
theorem edited_setDefault (field : String) (produce : Unit → Json) :
    (m.edited edits).setFallback field (.computed produce) =
      m.edited (edits ++ [.setDefault m.name field produce]) := by
  simp only [edited, setFallback, Catalog.addedHooks_append, Catalog.lastDefault?_append,
    Catalog.Edit.hook?, Catalog.Edit.default?, Option.toList_none, List.append_nil, List.map_map]
  congr 1
  -- the field is the one of the edit, or keeps the default that it has so far
  refine List.map_congr_left fun f _ => ?_
  by_cases hf : f.name = field
  · simp [hf]
  · simp [hf, Ne.symm hf]

end Model

/-! ### What a history leaves behind -/

namespace Catalog

variable {c c' : Catalog} {edits : List Edit} {e : Edit} {m : Model}

/-- A catalog holds the models that edits bring in, each as it was edited. -/
structure Recorded (c : Catalog) (edits : List Edit) : Prop where
  /-- The models are those that were registered, in order. -/
  models : c.models = (registered edits).map (·.edited edits)
  /-- No two of them have the same name. -/
  names : ((registered edits).map Model.name).Nodup
  /-- No two of them have the same singular label. -/
  labels : ((registered edits).map fun m => m.label.singular).Nodup
  /-- Every edit that brings a model in did so. -/
  count : (registered edits).length = edits.countP Edit.registers
  /-- Every edit of a model comes after its registration. -/
  targets : ∀ e ∈ edits, ∀ name, e.target? = some name → ∃ m ∈ registered edits, m.name = name

theorem registered_append (edits : List Edit) (e : Edit) :
    registered (edits ++ [e]) = registered edits ++ e.model?.toList := by
  unfold registered
  rw [List.filterMap_append]
  cases h : e.model? <;> simp [h]

theorem recorded_empty : Recorded empty [] :=
  ⟨rfl, List.nodup_nil, List.nodup_nil, rfl, nofun⟩

/-- A condition on the names of the models is one on the registered ones. -/
theorem Recorded.forall_models (h : Recorded c edits) {P : Model → Prop}
    (hP : ∀ m, P (m.edited edits) ↔ P m) :
    (∀ m ∈ c.models, P m) ↔ ∀ m ∈ registered edits, P m := by
  rw [h.models]
  simp [hP]

/-- The models of a catalog are found by their names. -/
theorem Recorded.get?_eq_some (h : Recorded c edits) {name : String} :
    c.get? name = some m ↔
      ∃ m₀ ∈ registered edits, m₀.name = name ∧ m = m₀.edited edits := by
  -- edits leave the names alone, so no two models of the catalog share one either
  have hone : ∀ m ∈ c.models, ∀ m' ∈ c.models,
      decide (m.name = name) = true → decide (m'.name = name) = true → m = m' := by
    intro m hm m' hm' hname hname'
    rw [h.models] at hm hm'
    obtain ⟨m₀, hm₀, rfl⟩ := List.mem_map.mp hm
    obtain ⟨m₀', hm₀', rfl⟩ := List.mem_map.mp hm'
    have hsame : m₀.name = m₀'.name := (of_decide_eq_true hname).trans (of_decide_eq_true hname').symm
    rw [List.inj_on_of_nodup_map h.names hm₀ hm₀' hsame]
  unfold get?
  rw [find?_of_unique hone, h.models, List.mem_map, decide_eq_true_eq]
  constructor
  · rintro ⟨⟨m₀, hm₀, rfl⟩, hname⟩
    exact ⟨m₀, hm₀, hname, rfl⟩
  · rintro ⟨m₀, hm₀, hname, rfl⟩
    exact ⟨⟨m₀, hm₀, rfl⟩, hname⟩

/-- The models of a catalog are found by their labels. -/
theorem Recorded.byLabel?_eq_some (h : Recorded c edits) {label : String} :
    c.byLabel? label = some m ↔
      ∃ m₀ ∈ registered edits, m₀.label.singular = label ∧ m = m₀.edited edits := by
  have hpairs : (c.models.map fun m => (m.label.singular, m.name)) =
      (registered edits).map fun m => (m.label.singular, m.name) := by
    rw [h.models, List.map_map]
    rfl
  have hnodup : (((registered edits).map fun m => (m.label.singular, m.name)).map Prod.fst).Nodup := by
    rw [List.map_map]
    exact h.labels
  -- the pairs of label and name are the map itself, so a label leads to the name beside it
  unfold byLabel? Catalog.labels
  rw [hpairs, Keyed.ofList_of_nodup hnodup, Option.bind_eq_some_iff]
  simp only [Keyed.get?_eq_some hnodup, h.get?_eq_some, List.mem_map, Prod.mk.injEq]
  constructor
  · rintro ⟨name, ⟨m₁, hm₁, hlabel, hname₁⟩, m₀, hm₀, hname, rfl⟩
    have hsame := List.inj_on_of_nodup_map h.names hm₀ hm₁ (hname.trans hname₁.symm)
    exact ⟨m₀, hm₀, hsame ▸ hlabel, rfl⟩
  · rintro ⟨m₀, hm₀, hlabel, rfl⟩
    exact ⟨m₀.name, ⟨m₀, hm₀, hlabel, rfl⟩, m₀, hm₀, rfl, rfl⟩

/-! ### One edit -/

/-- A model that is added is the last one, and as it came in. -/
theorem Recorded.add (h : Recorded c edits) (hmodel : e.model? = some m) (htarget : e.target? = none)
    (hadd : c.add m = .ok c') : Recorded c' (edits ++ [e]) := by
  obtain ⟨hname, hlabel, rfl⟩ := add_eq_ok.mp hadd
  have hregistered : registered (edits ++ [e]) = registered edits ++ [m] := by
    rw [registered_append, hmodel]
    rfl
  have hname' := (h.forall_models (P := (·.name ≠ m.name)) fun _ => Iff.rfl).mp hname
  have hlabel' :=
    (h.forall_models (P := (·.label.singular ≠ m.label.singular)) fun _ => Iff.rfl).mp hlabel
  have hsame : ∀ m', Model.edited m' (edits ++ [e]) = m'.edited edits := fun m' =>
    Model.edited_append (by rw [htarget]; nofun)
  -- an edit of the new model would come after a registration of its name
  have hfresh : m.edited edits = m := by
    refine Model.edited_of_untouched fun e he hname => ?_
    obtain ⟨old, hold, hsame⟩ := h.targets e he m.name hname
    exact hname' old hold hsame
  constructor
  · simp only [hregistered, hsame, List.map_append, List.map_singleton, hfresh, h.models]
  · rw [hregistered, List.map_append, List.nodup_append]
    refine ⟨h.names, List.nodup_singleton _, ?_⟩
    simpa using hname'
  · rw [hregistered, List.map_append, List.nodup_append]
    refine ⟨h.labels, List.nodup_singleton _, ?_⟩
    simpa using hlabel'
  · have hregisters : e.registers = true := by
      rw [← Bool.not_eq_false, Edit.registers_eq_false, htarget]
      nofun
    rw [hregistered, List.length_append, List.countP_append, h.count]
    simp [hregisters]
  · intro e' he' name hname
    rcases List.mem_append.mp he' with he' | he'
    · obtain ⟨old, hold, hsame⟩ := h.targets e' he' name hname
      exact ⟨old, hregistered ▸ List.mem_append_left _ hold, hsame⟩
    · rw [List.mem_singleton.mp he', htarget] at hname
      cases hname

/-- A model that is replaced by its edit stays where it is. -/
theorem Recorded.replace (h : Recorded c edits) {name : String} {m' : Model}
    (hget : c.get? name = some m) (htarget : e.target? = some name) (hmodel : e.model? = none)
    (hedit : ∀ m₀ : Model, m₀.name = name → m = m₀.edited edits → m' = m₀.edited (edits ++ [e])) :
    Recorded (c.replace name m') (edits ++ [e]) := by
  have hregistered : registered (edits ++ [e]) = registered edits := by
    rw [registered_append, hmodel]
    exact List.append_nil _
  obtain ⟨m₀, hm₀, hname, hm⟩ := h.get?_eq_some.mp hget
  constructor
  · rw [hregistered]
    unfold Catalog.replace
    rw [h.models, List.map_map]
    -- the model of the name is replaced, and the edit is about no other
    refine List.map_congr_left fun m₁ hm₁ => ?_
    simp only [Function.comp_apply]
    change (if m₁.name = name then m' else m₁.edited edits) = _
    split
    next hname₁ =>
      obtain rfl := List.inj_on_of_nodup_map h.names hm₀ hm₁ (hname.trans hname₁.symm)
      exact hedit m₀ hname hm
    next hname₁ =>
      refine (Model.edited_append fun hsame => hname₁ ?_).symm
      exact (Option.some.inj (htarget.symm.trans hsame)).symm
  · rw [hregistered]
    exact h.names
  · rw [hregistered]
    exact h.labels
  · have hregisters : e.registers = false := Edit.registers_eq_false.mpr (by rw [htarget]; rfl)
    rw [hregistered, List.countP_append, h.count]
    simp [hregisters]
  · intro e' he' name' hname'
    rw [hregistered]
    rcases List.mem_append.mp he' with he' | he'
    · exact h.targets e' he' name' hname'
    · rw [List.mem_singleton.mp he', htarget] at hname'
      exact ⟨m₀, hm₀, hname.trans (Option.some.inj hname')⟩

/-- What is recorded of a catalog is recorded after one more edit. -/
theorem Recorded.step (h : Recorded c edits) (hstep : e.apply c = .ok c') :
    Recorded c' (edits ++ [e]) := by
  cases e with
  | declare name decl =>
    obtain ⟨m, hm, hadd⟩ := declare_eq_ok.mp hstep
    refine h.add ?_ rfl hadd
    simp only [Edit.model?, hm]
    rfl
  | add m => exact h.add rfl rfl hstep
  | addHook model op hook =>
    obtain ⟨m, m', hget, hadd, rfl⟩ := addHook_eq_ok.mp hstep
    refine h.replace hget rfl rfl fun m₀ hname hm => ?_
    subst hm hname
    exact Model.edited_addHook hadd
  | setDefault model field produce =>
    obtain ⟨-, m, hget, -, rfl⟩ := setDefault_eq_ok.mp hstep
    refine h.replace hget rfl rfl fun m₀ hname hm => ?_
    subst hm hname
    exact Model.edited_setDefault field produce

/-- It is recorded after a run. -/
theorem Recorded.run {before : List Edit} (h : Recorded c before) (hrun : c.run edits = .ok c') :
    Recorded c' (before ++ edits) := by
  induction edits generalizing c before with
  | nil =>
    cases hrun
    rwa [List.append_nil]
  | cons e edits ih =>
    obtain ⟨c₁, hstep, hrun⟩ := bind_eq_ok_iff.mp hrun
    have hrest := ih (h.step hstep) hrun
    rwa [List.append_assoc] at hrest

/-! ### Refused edits -/

/-- A model that cannot be added shares its name or its label. -/
theorem Recorded.add_refused (h : Recorded c edits) (hmodel : e.model? = some m)
    (hadd : ¬∃ c', c.add m = .ok c') : e.Refused (registered edits) := by
  by_cases hname : ∀ old ∈ c.models, old.name ≠ m.name
  · by_cases hlabel : ∀ old ∈ c.models, old.label.singular ≠ m.label.singular
    · exact absurd ⟨_, add_eq_ok.mpr ⟨hname, hlabel, rfl⟩⟩ hadd
    · rw [h.forall_models (P := (·.label.singular ≠ m.label.singular)) fun _ => Iff.rfl] at hlabel
      push Not at hlabel
      obtain ⟨old, hold, hsame⟩ := hlabel
      exact .labelTaken hmodel hold hsame
  · rw [h.forall_models (P := (·.name ≠ m.name)) fun _ => Iff.rfl] at hname
    push Not at hname
    obtain ⟨old, hold, hsame⟩ := hname
    exact .nameTaken hmodel hold hsame

/-- An edit of a model that is not there is refused. -/
theorem Recorded.exists_get? (h : Recorded c edits) {name : String} (he : e.target? = some name)
    (hrefused : ¬e.Refused (registered edits)) :
    ∃ m ∈ registered edits, m.name = name ∧ c.get? name = some (m.edited edits) := by
  by_contra hno
  refine hrefused (.unknownModel he fun m hm hname => hno ?_)
  exact ⟨m, hm, hname, h.get?_eq_some.mpr ⟨m, hm, hname, rfl⟩⟩

/-- An edit that is not refused succeeds. -/
theorem Recorded.exists_apply (h : Recorded c edits) (hrefused : ¬e.Refused (registered edits)) :
    ∃ c', e.apply c = .ok c' := by
  cases e with
  | declare name decl =>
    cases hregister : Schema.register name decl with
    | error cause => exact absurd (.invalid hregister) hrefused
    | ok m =>
      have hmodel : (Edit.declare name decl).model? = some m := by
        rw [Edit.model?, hregister]
        rfl
      rw [Edit.apply_of_model? hmodel]
      by_contra hadd
      exact hrefused (h.add_refused hmodel hadd)
  | add m =>
    by_contra hadd
    exact hrefused (h.add_refused rfl hadd)
  | addHook model op hook =>
    obtain ⟨m, hm, rfl, hget⟩ := h.exists_get? rfl hrefused
    cases hadd : (m.edited edits).addHook? op hook with
    | some m' => exact ⟨_, addHook_eq_ok.mpr ⟨_, m', hget, hadd, rfl⟩⟩
    | none =>
      refine absurd (.unhookable ?_) hrefused
      cases op with
      | create => cases hadd
      | update => cases hadd
      | read => exact .inl rfl
      | delete => exact .inr rfl
  | setDefault model field produce =>
    obtain ⟨m, hm, rfl, hget⟩ := h.exists_get? rfl hrefused
    have hfield : field ≠ idField := by
      rintro rfl
      exact hrefused .identifier
    cases hdeclares : m.declares field with
    | true =>
      refine ⟨_, setDefault_eq_ok.mpr ⟨hfield, _, hget, ?_, rfl⟩⟩
      rw [Model.edited_declares, hdeclares]
    | false => exact absurd (.unknownField hm hdeclares) hrefused

/-- An edit that is refused does not succeed. -/
theorem Recorded.not_refused (h : Recorded c edits) (hstep : e.apply c = .ok c') :
    ¬e.Refused (registered edits) := by
  intro hrefused
  cases hrefused with
  | invalid hregister =>
    obtain ⟨m, hm, -⟩ := declare_eq_ok.mp hstep
    cases hregister.symm.trans hm
  | nameTaken hmodel hold hsame =>
    rw [Edit.apply_of_model? hmodel] at hstep
    have hname := (add_eq_ok.mp hstep).1
    rw [h.forall_models (P := (·.name ≠ _)) fun _ => Iff.rfl] at hname
    exact hname _ hold hsame
  | labelTaken hmodel hold hsame =>
    rw [Edit.apply_of_model? hmodel] at hstep
    have hlabel := (add_eq_ok.mp hstep).2.1
    rw [h.forall_models (P := (·.label.singular ≠ _)) fun _ => Iff.rfl] at hlabel
    exact hlabel _ hold hsame
  | @unknownModel _ name he hno =>
    -- both edits that change a model look it up first
    have hmissing : ∀ m, c.get? name ≠ some m := by
      intro m hget
      obtain ⟨m₀, hm₀, hname, -⟩ := h.get?_eq_some.mp hget
      exact hno m₀ hm₀ hname
    cases e with
    | declare name decl => cases he
    | add m => cases he
    | addHook model op hook =>
      cases he
      obtain ⟨m, _, hget, -⟩ := addHook_eq_ok.mp hstep
      exact hmissing m hget
    | setDefault model field produce =>
      cases he
      obtain ⟨-, m, hget, -⟩ := setDefault_eq_ok.mp hstep
      exact hmissing m hget
  | unhookable hop =>
    obtain ⟨m, m', -, hadd, -⟩ := addHook_eq_ok.mp hstep
    rcases hop with rfl | rfl <;> cases hadd
  | identifier => exact (setDefault_eq_ok.mp hstep).1 rfl
  | @unknownField m₀ field produce hm hno =>
    obtain ⟨-, m, hget, hdeclares, -⟩ := setDefault_eq_ok.mp hstep
    obtain ⟨m₁, hm₁, hname, rfl⟩ := h.get?_eq_some.mp hget
    obtain rfl := List.inj_on_of_nodup_map h.names hm₁ hm hname
    rw [Model.edited_declares, hno] at hdeclares
    cases hdeclares

/-! ### What a catalog holds -/

/-- A catalog holds what its edits say. -/
structure Follows (c : Catalog) (edits : List Edit) : Prop where
  /-- No two models have the same name. -/
  names : (c.models.map Model.name).Nodup
  /-- No two models have the same singular label. -/
  labels : (c.models.map fun m => m.label.singular).Nodup
  /-- The models are in the order of their registration, each as it was
      edited. -/
  models : c.models = (registered edits).map (·.edited edits)
  /-- There are as many as there were registrations. -/
  length : c.models.length = edits.countP Edit.registers
  /-- A name leads to the model that was registered under it, and nowhere
      else. -/
  byName : ∀ name m, c.get? name = some m ↔
    ∃ m₀ ∈ registered edits, m₀.name = name ∧ m = m₀.edited edits
  /-- So does a singular label. -/
  byLabel : ∀ label m, c.byLabel? label = some m ↔
    ∃ m₀ ∈ registered edits, m₀.label.singular = label ∧ m = m₀.edited edits

theorem Recorded.follows (h : Recorded c edits) : c.Follows edits where
  names := by
    rw [h.models, List.map_map]
    exact h.names
  labels := by
    rw [h.models, List.map_map]
    exact h.labels
  models := h.models
  length := by rw [h.models, List.length_map, h.count]
  byName := fun _ _ => h.get?_eq_some
  byLabel := fun _ _ => h.byLabel?_eq_some

/-- After edits that all succeed, the catalog holds what they say, and one more
    edit fails exactly if it is one of the refused. -/
theorem run_follows (h : empty.run edits = .ok c) :
    c.Follows edits ∧
      ∀ e : Edit, (∃ cause, e.apply c = .error cause) ↔ e.Refused (registered edits) := by
  have hrecorded : Recorded c edits := recorded_empty.run h
  refine ⟨hrecorded.follows, fun e => ?_⟩
  rw [exists_error_iff]
  constructor
  · intro hfails
    by_contra hrefused
    exact hfails (hrecorded.exists_apply hrefused)
  · rintro hrefused ⟨c', hstep⟩
    exact hrecorded.not_refused hstep hrefused

/-- Declaring models in order is a run of edits. -/
theorem declareAll_eq_run (c : Catalog) (decls : Keyed ModelDecl) :
    c.declareAll decls = c.run (decls.map fun entry => .declare entry.1 entry.2) := by
  induction decls generalizing c with
  | nil => rfl
  | cons entry rest ih =>
    show c.declare entry.1 entry.2 >>= (·.declareAll rest) = c.declare entry.1 entry.2 >>= _
    congr 1
    funext c'
    exact ih c'

/-- The catalog of a configuration text holds what the text declares. -/
theorem ofText_follows {text : String} {cfg : Config} (h : Config.ofText text = .ok cfg) :
    ∃ api, ApiDecl.ofText text = .ok api ∧
      cfg.catalog.Follows (api.models.map fun entry => .declare entry.1 entry.2) := by
  obtain ⟨api, hapi, hcatalog, -⟩ := Config.ofText_catalog h
  rw [declareAll_eq_run] at hcatalog
  exact ⟨api, hapi, (recorded_empty.run hcatalog).follows⟩

/-- Books, with a discount that opens with a dollar sign. -/
def bookModel : ModelDecl where
  label := none
  storage := none
  owner := some "by"
  fields := [("_id", .short [.str "ObjectId", .str "r"]),
    ("by", .short [.str "ObjectId", .str "r"]),
    ("title", .short [.str "String", .str "cru"]),
    ("discount", .short [.str "String", .str "cr", .str "$$5 off"]),
    ("added", .long "Date" "r" (some (.str "$now"))),
    ("code", .short [.str "String", .str "r"])]
  createHooks := ["trim"]
  updateHooks := []

/-- Books are declared, trimmed on updates too, and numbered by code. -/
def bookEdits : List Edit :=
  [.declare "Books" bookModel, .addHook "Books" .update Hook.trimTexts,
    .setDefault "Books" "code" fun _ => .str "B-1"]

/-- The books are one model, which no hook can be added to for reading. -/
theorem books_follow :
    ∃ c, empty.run bookEdits = .ok c ∧ c.Follows bookEdits ∧ c.models.length = 1 ∧
      ∃ cause, (Edit.addHook "Books" .read Hook.trimTexts).apply c = .error cause := by
  have htest : okAnd (empty.run bookEdits) (fun _ => true) = true := by decide +kernel
  obtain ⟨c, hrun, -⟩ := okAnd_iff.mp htest
  obtain ⟨hfollows, hrefused⟩ := run_follows hrun
  exact ⟨c, hrun, hfollows, hfollows.length, (hrefused _).mpr (.unhookable (.inl rfl))⟩

end Catalog

end RecordGate

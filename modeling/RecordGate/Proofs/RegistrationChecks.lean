import Mathlib.Data.List.Forall2
import RecordGate.Proofs.Offline
import RecordGate.Schema.Register

/-! # What registration accepts

  Every check that a declared model goes through, as the condition under which
  it passes, with what is made of the declaration when it does.

  - `FieldDecl.Says` and `Default.Written`: the notations of fields and of
    defaults, and what they mean.
  - `Field.Declared`: the field that is made of a declaration
    (`Schema.field_eq_ok`).
  - `Model.Checked`: the rules about the identifier and the owner.
  - `Model.Registered`: the model that is made of a declaration
    (`Schema.register_eq_ok`).
-/

namespace RecordGate

open Text

/-! ### Fields -/

/-- What a field is declared with: type, letters and perhaps a default, in
    either notation. -/
inductive FieldDecl.Says : FieldDecl → String → String → Option Json → Prop where
  /-- A map has all three by name. -/
  | long {typeName letters : String} {written : Option Json} :
      Says (.long typeName letters written) typeName letters written
  /-- A list of two has no default. -/
  | pair {typeName letters : String} :
      Says (.short [.str typeName, .str letters]) typeName letters none
  /-- A list of three ends with the default. -/
  | triple {typeName letters : String} {written : Json} :
      Says (.short [.str typeName, .str letters, written]) typeName letters (some written)

/-- The default that a written one means for a field of a type. -/
inductive Default.Written (field : String) (type : FieldType) : Json → Default → Prop where
  /-- `$now` is for dates and texts. -/
  | now (htype : type = .date ∨ type = .string) : Written field type (.str "$now") .now
  /-- `$objectId` is for identifiers and texts. -/
  | freshId {name : String} (hname : name = "$objectId" ∨ name = "$object_id")
      (htype : type = .objectId ∨ type = .string) : Written field type (.str name) .freshId
  /-- A text that opens with two `$` is fixed, without the first of them. -/
  | escaped {text : String} {value : Json}
      (hvalue : Shape.coerce field type (.str ("$" ++ text)) = .ok value) :
      Written field type (.str ("$$" ++ text)) (.literal value)
  /-- Everything else but a text that opens with `$` is fixed as it is. -/
  | plain {written value : Json} (hplain : ∀ text : String, written ≠ .str ("$" ++ text))
      (hvalue : Shape.coerce field type written = .ok value) :
      Written field type written (.literal value)

/-- A field of a declared name, type and run of letters. -/
structure Field.Shaped (f : Field) (fieldName typeName letters : String) : Prop where
  /-- The name is the declared one. -/
  name : f.name = fieldName
  /-- It is an identifier. -/
  ident : Identifier f.name.toList
  /-- The type is the one of the declared name. -/
  type : FieldType.ofTag? typeName = some f.type
  /-- No letter is foreign. -/
  known : ∀ c ∈ letters.toList, ∃ op : Operation, c = op.letter
  /-- The field allows the operations whose letters are there, and no others. -/
  allows : ∀ op, f.allows op = true ↔ op.letter ∈ letters.toList

/-- The field that is made of a declaration. -/
def Field.Declared (f : Field) (fieldName : String) (decl : FieldDecl) : Prop :=
  ∃ typeName letters written, decl.Says typeName letters written ∧
    f.Shaped fieldName typeName letters ∧
    Option.Rel (Default.Written fieldName f.type) written f.fallback

/-! ### Models -/

/-- A model that keeps the rules about the identifier and the owner. -/
structure Model.Checked (m : Model) : Prop where
  /-- The identifier field is an identifier that clients read and never write. -/
  identifier : ∃ f, m.field? idField = some f ∧ f.type = .objectId ∧
    f.allows .create = false ∧ f.allows .update = false ∧ f.allows .read = true ∧
    f.fallback = none
  /-- The owner field is a declared field for texts or identifiers. -/
  owner : ∀ w, m.owner = some w →
    ∃ f, m.field? w = some f ∧ (f.type = .objectId ∨ f.type = .string)

/-- The model that is made of a declaration. -/
structure Model.Registered (m : Model) (modelName : String) (decl : ModelDecl) : Prop
    extends m.Checked where
  /-- The name is the declared one. -/
  name : m.name = modelName
  /-- It is not blank. -/
  nonblank : trimChars modelName.toList ≠ []
  /-- The label is the declared one, or follows from the name. -/
  label : m.label = Schema.label modelName decl.label
  /-- The singular label is an identifier. -/
  labelIdent : Identifier m.label.singular.toList
  /-- The collection is the declared one, or the plural label. -/
  collection : m.collection = decl.storage.getD m.label.plural
  /-- It is an identifier. -/
  collectionIdent : Identifier m.collection.toList
  /-- The fields are the declared ones, in their order. -/
  fields : List.Forall₂ (fun entry f => f.Declared entry.1 entry.2) decl.fields m.fields
  /-- The owner is the declared one. -/
  ownerName : m.owner = decl.owner
  /-- The hooks of a create are the named ones, in their order. -/
  createHooks : List.Forall₂ (fun hookName hook => Hook.ofName? hookName .create = some hook)
    decl.createHooks m.createHooks
  /-- So are the hooks of an update. -/
  updateHooks : List.Forall₂ (fun hookName hook => Hook.ofName? hookName .update = some hook)
    decl.updateHooks m.updateHooks

/-- What a list holds is related to something in a list that it is matched
    with. -/
theorem exists_of_forall₂ {α β : Type} {R : α → β → Prop} {as : List α} {bs : List β}
    (h : List.Forall₂ R as bs) {b : β} (hb : b ∈ bs) : ∃ a ∈ as, R a b := by
  induction h with
  | nil => cases hb
  | cons hfirst _ ih =>
    rcases List.mem_cons.mp hb with rfl | hb
    · exact ⟨_, List.mem_cons_self, hfirst⟩
    · obtain ⟨a, ha, hab⟩ := ih hb
      exact ⟨a, List.mem_cons_of_mem _ ha, hab⟩

/-- Fields have the names that they are declared under. -/
theorem Field.declared_names {decls : Keyed FieldDecl} {fs : List Field}
    (h : List.Forall₂ (fun entry f => f.Declared entry.1 entry.2) decls fs) :
    fs.map Field.name = decls.map Prod.fst := by
  rw [eq_comm, ← List.forall₂_eq_eq_eq, List.forall₂_map_left_iff, List.forall₂_map_right_iff]
  refine h.imp fun entry f hf => ?_
  obtain ⟨_, _, _, -, hshaped, -⟩ := hf
  exact hshaped.name.symm

/-- The fields of a registered model have the declared names. -/
theorem Model.Registered.field_names {m : Model} {modelName : String} {decl : ModelDecl}
    (h : m.Registered modelName decl) : m.fields.map Field.name = decl.fields.map Prod.fst :=
  Field.declared_names h.fields

namespace Schema

variable {name model typeName letters text : String} {written : Option Json} {value : Json}
  {fieldDecl : FieldDecl} {type : FieldType} {d : Default} {f : Field} {fs : List Field}
  {op : Operation} {decl : ModelDecl} {m : Model}

/-! ### Checks of a field -/

theorem fieldEntries_eq_ok :
    fieldEntries model name fieldDecl = .ok (typeName, letters, written) ↔
      fieldDecl.Says typeName letters written := by
  constructor
  · intro h
    unfold fieldEntries at h
    split at h <;> cases h
    · exact .long
    · exact .pair
    · exact .triple
  · intro h
    cases h <;> rfl

theorem literalDefault_eq_ok :
    literalDefault model name type value = .ok d ↔
      ∃ stored, Shape.coerce name type value = .ok stored ∧ d = .literal stored := by
  unfold literalDefault
  split
  next stored hstored => simp [hstored, eq_comm]
  next cause hcause => simp [hcause]

theorem generatorDefault_eq_ok :
    generatorDefault model name type text = .ok d ↔
      generator? text = some d ∧ generates d type = true := by
  unfold generatorDefault
  split
  next hnone => simp [hnone]
  next d' hsome =>
    rw [hsome, Option.some.injEq]
    split
    next hfits =>
      rw [Except.ok.injEq]
      exact ⟨fun h => ⟨h, h ▸ hfits⟩, And.left⟩
    next hfits => exact ⟨nofun, fun h => absurd (h.1 ▸ h.2) hfits⟩

theorem generator?_eq_some :
    generator? text = some d ↔ text = "$now" ∧ d = .now ∨
      (text = "$objectId" ∨ text = "$object_id") ∧ d = .freshId := by
  constructor
  · intro h
    unfold generator? at h
    split at h <;> cases h
    · exact .inl ⟨rfl, rfl⟩
    · exact .inr ⟨.inl rfl, rfl⟩
    · exact .inr ⟨.inr rfl, rfl⟩
  · rintro (⟨rfl, rfl⟩ | ⟨rfl | rfl, rfl⟩) <;> rfl

/-- A text that opens with `$` names a generator, unless a second one follows. -/
theorem default_dollar :
    default model name type (.str ("$" ++ text)) =
      if text.toList.head? = some '$' then literalDefault model name type (.str text)
      else generatorDefault model name type ("$" ++ text) := by
  have htext : ("$" ++ text).toList = '$' :: text.toList := by simp
  unfold default
  simp only [htext]
  split
  next rest hsplit =>
    have hrest : text.toList = '$' :: rest := (List.cons.inj hsplit).2
    rw [← hrest, String.ofList_toList, if_pos (by rw [hrest]; rfl)]
  next hno hsplit =>
    refine (if_neg fun hopen => ?_).symm
    obtain ⟨rest, hrest⟩ := List.head?_eq_some_iff.mp hopen
    exact hno rest ((List.cons.inj hsplit).2.symm.trans hrest)
  next hno => exact absurd rfl (hno _)

/-- What is no text that opens with `$` is taken as it is. -/
theorem default_plain (hplain : ∀ text : String, value ≠ .str ("$" ++ text)) :
    default model name type value = literalDefault model name type value := by
  unfold default
  split
  next s =>
    have hopen : ∀ rest, s.toList ≠ '$' :: rest := by
      intro rest hs
      refine hplain (String.ofList rest) (congrArg Json.str (String.toList_injective ?_))
      simp [hs]
    split
    next hs => exact absurd hs (hopen _)
    next hs => exact absurd hs (hopen _)
    · rfl
  · rfl

/-- A written default is accepted iff it means one for the field. -/
theorem default_eq_ok :
    default model name type value = .ok d ↔ Default.Written name type value d := by
  constructor
  · intro h
    by_cases hdollar : ∃ text : String, value = .str ("$" ++ text)
    · obtain ⟨text, rfl⟩ := hdollar
      rw [default_dollar] at h
      split at h
      next hopen =>
        -- what is left after the first `$` opens with the second and is the value
        obtain ⟨stored, hstored, rfl⟩ := literalDefault_eq_ok.mp h
        obtain ⟨rest, hrest⟩ := List.head?_eq_some_iff.mp hopen
        obtain rfl : text = "$" ++ String.ofList rest := String.toList_injective (by simp [hrest])
        exact .escaped hstored
      next =>
        obtain ⟨hgenerator, hgenerates⟩ := generatorDefault_eq_ok.mp h
        rcases generator?_eq_some.mp hgenerator with ⟨htext, rfl⟩ | ⟨htext, rfl⟩
        · rw [htext]
          exact .now (by simpa [generates] using hgenerates)
        · exact .freshId htext (by simpa [generates] using hgenerates)
    · have hplain : ∀ text : String, value ≠ .str ("$" ++ text) :=
        fun text htext => hdollar ⟨text, htext⟩
      rw [default_plain hplain] at h
      obtain ⟨stored, hstored, rfl⟩ := literalDefault_eq_ok.mp h
      exact .plain hplain hstored
  · intro h
    cases h with
    | now htype =>
      show default model name type (.str ("$" ++ "now")) = _
      rw [default_dollar, if_neg (by decide)]
      exact generatorDefault_eq_ok.mpr ⟨rfl, by simpa [generates] using htype⟩
    | freshId hname htype =>
      have hgenerates : generates .freshId type = true := by simpa [generates] using htype
      rcases hname with rfl | rfl
      · show default model name type (.str ("$" ++ "objectId")) = _
        rw [default_dollar, if_neg (by decide)]
        exact generatorDefault_eq_ok.mpr ⟨rfl, hgenerates⟩
      · show default model name type (.str ("$" ++ "object_id")) = _
        rw [default_dollar, if_neg (by decide)]
        exact generatorDefault_eq_ok.mpr ⟨rfl, hgenerates⟩
    | @escaped text stored hstored =>
      have hsplit : "$$" ++ text = "$" ++ ("$" ++ text) := by rw [← String.append_assoc]; rfl
      rw [hsplit, default_dollar, if_pos (by simp)]
      exact literalDefault_eq_ok.mpr ⟨stored, hstored, rfl⟩
    | plain hplain hstored =>
      rw [default_plain hplain]
      exact literalDefault_eq_ok.mpr ⟨_, hstored, rfl⟩

/-- A declared field is accepted iff a field is made of it, and then as this
    one. -/
theorem field_eq_ok : field model name fieldDecl = .ok f ↔ f.Declared name fieldDecl := by
  constructor
  · intro h
    unfold field at h
    split at h
    · cases h
    next hident =>
      obtain ⟨⟨typeName, letters, written⟩, hentries, h⟩ := bind_eq_ok_iff.mp h
      dsimp only at h
      split at h
      next type htype =>
        split at h
        next operations hoperations =>
          have hident' : Identifier name.toList := isIdent_iff.mp (by simpa using hident)
          obtain ⟨hknown, hallows⟩ := OperationSet.ofLetters?_eq_some.mp hoperations
          refine ⟨typeName, letters, written, fieldEntries_eq_ok.mp hentries, ?_⟩
          split at h
          next hnone =>
            cases h
            exact ⟨⟨rfl, hident', htype, hknown, hallows⟩, .none⟩
          next value =>
            obtain ⟨d, hdefault, h⟩ := bind_eq_ok_iff.mp h
            cases h
            exact ⟨⟨rfl, hident', htype, hknown, hallows⟩, .some (default_eq_ok.mp hdefault)⟩
        · cases h
      · cases h
  · rintro ⟨typeName, letters, written, hsays, ⟨rfl, hident, htype, hknown, hallows⟩, hfallback⟩
    -- every check before the default passes, and the default is looked at last
    obtain ⟨name, type, operations, fallback⟩ := f
    dsimp only at hident htype hallows hfallback
    have hoperations := OperationSet.ofLetters?_eq_some.mpr ⟨hknown, hallows⟩
    unfold field
    rw [isIdent_iff.mpr hident, fieldEntries_eq_ok.mpr hsays]
    simp only [Bool.not_true, Bool.false_eq_true, if_false, ok_bind, htype, hoperations]
    cases hfallback with
    | none => rfl
    | some hwritten => exact bind_eq_ok_iff.mpr ⟨_, default_eq_ok.mpr hwritten, rfl⟩

theorem fields_eq_ok {decls : Keyed FieldDecl} :
    fields model decls = .ok fs ↔
      List.Forall₂ (fun entry f => f.Declared entry.1 entry.2) decls fs := by
  induction decls generalizing fs with
  | nil => simp [fields, eq_comm]
  | cons entry rest ih =>
    rw [List.forall₂_cons_left_iff]
    constructor
    · intro h
      obtain ⟨first, hfirst, h⟩ := bind_eq_ok_iff.mp h
      obtain ⟨others, hothers, h⟩ := bind_eq_ok_iff.mp h
      cases h
      exact ⟨first, others, field_eq_ok.mp hfirst, ih.mp hothers, rfl⟩
    · rintro ⟨first, others, hfirst, hothers, rfl⟩
      exact bind_eq_ok_iff.mpr ⟨first, field_eq_ok.mpr hfirst,
        bind_eq_ok_iff.mpr ⟨others, ih.mpr hothers, rfl⟩⟩

/-! ### Checks of a model -/

theorem checkIdentifier_eq_ok :
    checkIdentifier model fs = .ok () ↔
      ∃ f, (fs.find? fun f => f.name = idField) = some f ∧ f.type = .objectId ∧
        f.allows .create = false ∧ f.allows .update = false ∧ f.allows .read = true ∧
        f.fallback = none := by
  unfold checkIdentifier
  cases fs.find? fun f => f.name = idField with
  | none => simp
  | some f =>
    simp only [Option.some.injEq, exists_eq_left']
    by_cases htype : f.type = .objectId
    · cases f.allows .create <;> cases f.allows .update <;> cases f.allows .read <;>
        cases f.fallback <;> simp [htype]
    · simp [htype]

theorem checkOwner_eq_ok {owner : Option String} :
    checkOwner model fs owner = .ok () ↔
      ∀ w, owner = some w →
        ∃ f, (fs.find? fun f => f.name = w) = some f ∧ (f.type = .objectId ∨ f.type = .string) := by
  cases owner with
  | none => simp [checkOwner]
  | some w =>
    simp only [checkOwner, Option.some.injEq, forall_eq']
    cases fs.find? fun f => f.name = w with
    | none => simp
    | some f =>
      simp only [Option.some.injEq, exists_eq_left', Bool.or_eq_true, decide_eq_true_eq]
      split
      next htype => simpa using htype
      next htype => exact ⟨nofun, fun h => absurd h htype⟩

theorem hooks_eq_ok {names : List String} {hs : List Hook} :
    hooks model op names = .ok hs ↔
      List.Forall₂ (fun hookName hook => Hook.ofName? hookName op = some hook) names hs := by
  induction names generalizing hs with
  | nil => simp [hooks, eq_comm]
  | cons first rest ih =>
    rw [List.forall₂_cons_left_iff]
    unfold hooks
    split
    next hnone => simp [hnone]
    next hook hhook =>
      rw [map_eq_ok_iff, hhook]
      constructor
      · rintro ⟨others, hothers, rfl⟩
        exact ⟨hook, others, rfl, ih.mp hothers, rfl⟩
      · rintro ⟨_, others, hsame, hothers, rfl⟩
        cases hsame
        exact ⟨others, ih.mpr hothers, rfl⟩

/-- A declared model is accepted iff a model is made of it, and then as this
    one. -/
theorem register_eq_ok : register name decl = .ok m ↔ m.Registered name decl := by
  constructor
  · intro h
    -- first the names are checked, and what is left runs step by step
    unfold register at h
    split at h
    · cases h
    next hblank =>
      dsimp only at h
      split at h
      · cases h
      next hlabel =>
        split at h
        · cases h
        next hcollection =>
          obtain ⟨fs, hfields, h⟩ := bind_eq_ok_iff.mp h
          obtain ⟨⟨⟩, hidentifier, h⟩ := bind_eq_ok_iff.mp h
          obtain ⟨⟨⟩, howner, h⟩ := bind_eq_ok_iff.mp h
          obtain ⟨createHooks, hcreate, h⟩ := bind_eq_ok_iff.mp h
          obtain ⟨updateHooks, hupdate, h⟩ := bind_eq_ok_iff.mp h
          cases h
          exact {
            identifier := checkIdentifier_eq_ok.mp hidentifier
            owner := checkOwner_eq_ok.mp howner
            name := rfl
            nonblank := fun hnil => hblank (List.isEmpty_iff.mpr hnil)
            label := rfl
            labelIdent := isIdent_iff.mp (by simpa using hlabel)
            collection := rfl
            collectionIdent := isIdent_iff.mp (by simpa using hcollection)
            fields := fields_eq_ok.mp hfields
            ownerName := rfl
            createHooks := hooks_eq_ok.mp hcreate
            updateHooks := hooks_eq_ok.mp hupdate }
  · intro h
    -- the declaration fixes every part of the model, so the checks run on these parts
    obtain ⟨modelName, label', collection, fields, owner, createHooks, updateHooks⟩ := m
    obtain ⟨⟨hidentifier, howner⟩, hname, hblank, hlabel, hlabelIdent, hcollection,
      hcollectionIdent, hfields, hownerName, hcreate, hupdate⟩ := h
    dsimp only at hname hlabel hlabelIdent hcollection hcollectionIdent hfields hownerName
    subst hname hlabel hcollection hownerName
    have hblank' : (trimChars modelName.toList).isEmpty = false := by
      simpa [List.isEmpty_eq_false_iff] using hblank
    unfold register
    simp only [hblank', isIdent_iff.mpr hlabelIdent, isIdent_iff.mpr hcollectionIdent,
      Bool.not_true, Bool.false_eq_true, if_false, fields_eq_ok.mpr hfields, ok_bind,
      checkIdentifier_eq_ok.mpr hidentifier, checkOwner_eq_ok.mpr howner, hooks_eq_ok.mpr hcreate,
      hooks_eq_ok.mpr hupdate]
    rfl

end Schema

end RecordGate

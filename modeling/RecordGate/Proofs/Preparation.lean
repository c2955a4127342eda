import RecordGate.Proofs.Offline
import RecordGate.Shape.Write

/-! # Preparing the values of a write

  The preparation of a write is offline, so its result depends on the model,
  the input and the supply alone.

  - `prepare_fails` and `prepare_succeeds`: it fails exactly if a field that
    allows the operation is given a value that does not fit, with the error of
    the first such field.
  - `Flow.Yields` follows a property of the values through the stages: `Takes`
    up to the hooks, and `applyHooks_keeps` through them.
  - `prepare_lacks` says which names no preparation gives a value to.
-/

namespace RecordGate

namespace Flow

variable {α β : Type}

/-- Every value that a flow ends with when there is no storage has a
    property. -/
def Yields (x : Flow α) (P : α → Prop) : Prop :=
  ∀ s a, (x.draw s).1 = .ok a → P a

/-- What a flow with such values comes to when there is no storage. -/
theorem Yields.draw {P : α → Prop} {x : Flow α} (h : x.Yields P) (s : Supply) :
    (∃ a t, x.draw s = (.ok a, t) ∧ P a ∧ s.Later t) ∨
      ∃ e t, x.draw s = (.error e, t) ∧ s.Later t := by
  have hP := h s
  have hlater := later_draw x s
  revert hP hlater
  rcases x.draw s with ⟨result, t⟩
  intro hP hlater
  cases result with
  | ok a => exact .inl ⟨a, t, rfl, hP a rfl, hlater⟩
  | error e => exact .inr ⟨e, t, rfl, hlater⟩

/-- A value that was drawn has the property. -/
theorem Yields.of_draw {P : α → Prop} {x : Flow α} (h : x.Yields P) {s t : Supply} {a : α}
    (hdraw : x.draw s = (.ok a, t)) : P a :=
  h s a (congrArg Prod.fst hdraw)

theorem yields_pure {P : α → Prop} {a : α} (h : P a) : Yields (pure a : Flow α) P := by
  intro s b hb
  simp only [draw_pure, Except.ok.injEq] at hb
  exact hb ▸ h

theorem Yields.bind {P : α → Prop} {Q : β → Prop} {x : Flow α} {f : α → Flow β}
    (hx : x.Yields P) (hf : ∀ a, P a → (f a).Yields Q) : (x >>= f).Yields Q := by
  intro s b hb
  rw [draw_bind] at hb
  have hP := hx s
  revert hb hP
  rcases x.draw s with ⟨result, t⟩
  cases result with
  | ok a => exact fun hb hP => hf a (hP a rfl) t b hb
  | error e => exact fun hb _ => by cases hb

theorem yields_true (x : Flow α) : x.Yields fun _ => True := fun _ _ _ => trivial

/-- A flow ends with a value when there is no storage. -/
def Succeeds (x : Flow α) : Prop :=
  ∀ s, ∃ a, (x.draw s).1 = .ok a

/-- A flow ends with an error when there is no storage. -/
def FailsWith (x : Flow α) (e : Error) : Prop :=
  ∀ s, (x.draw s).1 = .error e

theorem succeeds_pure (a : α) : Succeeds (pure a : Flow α) := fun _ => ⟨a, rfl⟩

theorem readClock_succeeds : readClock.Succeeds := fun s => ⟨s.tick.1, rfl⟩

theorem Succeeds.bind {x : Flow α} {f : α → Flow β} (hx : x.Succeeds)
    (hf : ∀ a, (f a).Succeeds) : (x >>= f).Succeeds := by
  intro s
  obtain ⟨a, ha⟩ := hx s
  rw [draw_bind]
  revert ha
  rcases x.draw s with ⟨result, t⟩
  rintro rfl
  exact hf a t

theorem FailsWith.bind {x : Flow α} {e : Error} (hx : x.FailsWith e) (f : α → Flow β) :
    (x >>= f).FailsWith e := by
  intro s
  have he := hx s
  rw [draw_bind]
  revert he
  rcases x.draw s with ⟨result, t⟩
  rintro rfl
  rfl

theorem Succeeds.bind_fails {x : Flow α} {f : α → Flow β} {e : Error} (hx : x.Succeeds)
    (hf : ∀ a, (f a).FailsWith e) : (x >>= f).FailsWith e := by
  intro s
  obtain ⟨a, ha⟩ := hx s
  rw [draw_bind]
  revert ha
  rcases x.draw s with ⟨result, t⟩
  rintro rfl
  exact hf a t

end Flow

open RecordGate.Flow

/-! ### The preparation is offline -/

theorem offline_produce (d : Default) : Offline d.produce := by
  cases d with
  | literal value => exact offline_pure _
  | now => exact offline_readClock.bind fun _ => offline_pure _
  | freshId => exact offline_freshId.bind fun _ => offline_pure _
  | computed produce => exact offline_pure _

theorem produce_succeeds (d : Default) : d.produce.Succeeds := by
  cases d with
  | literal value => exact succeeds_pure _
  | now => exact fun s => ⟨_, rfl⟩
  | freshId => exact fun s => ⟨_, rfl⟩
  | computed produce => exact succeeds_pure _

namespace Shape

theorem offline_inputValue (op : Operation) (raw : Record) (f : Field) :
    Offline (inputValue op raw f) := by
  unfold inputValue
  split
  · split
    · exact (offline_ofExcept _).bind fun _ => offline_pure _
    · split
      · exact (offline_produce _).bind fun _ => offline_pure _
      · exact offline_pure _
  · exact offline_pure _

theorem offline_inputFields (op : Operation) (raw : Record) (fields : List Field)
    (values : Record) : Offline (inputFields op raw fields values) := by
  induction fields generalizing values with
  | nil => exact offline_pure _
  | cons f fields ih =>
    refine (offline_inputValue op raw f).bind fun value => ?_
    cases value with
    | some value => exact ih _
    | none => exact ih _

theorem offline_serverDefaults (fields : List Field) (values : Record) :
    Offline (serverDefaults fields values) := by
  induction fields generalizing values with
  | nil => exact offline_pure _
  | cons f fields ih =>
    unfold serverDefaults
    split
    · exact ih _
    · split
      · exact (offline_produce _).bind fun _ => ih _
      · exact ih _

theorem offline_runHooks (hooks : List Hook) (values : Record) :
    Offline (runHooks hooks values) := by
  induction hooks generalizing values with
  | nil => exact offline_pure _
  | cons hook hooks ih => exact offline_readClock.bind fun _ => ih _

theorem offline_applyHooks (m : Model) (op : Operation) (values : Record) :
    Offline (applyHooks m op values) := by
  unfold applyHooks
  split
  · exact offline_pure _
  · exact (offline_runHooks _ _).bind fun _ => offline_pure _

theorem offline_prepare (m : Model) (op : Operation) (raw : Record) :
    Offline (prepare m op raw) := by
  refine (offline_inputFields op raw m.fields []).bind fun values => ?_
  split
  · exact (offline_serverDefaults _ _).bind fun _ => offline_applyHooks m op _
  · exact (offline_pure _).bind fun _ => offline_applyHooks m op _

/-! ### Refused values -/

theorem identifier_error {name text : String} {e : Error} (h : identifier name text = .error e) :
    ∃ message, e = .validation name message := by
  unfold identifier at h
  split at h <;> cases h
  exact ⟨_, rfl⟩

theorem identifierItems_error {name : String} {items : List Json} {e : Error}
    (h : identifierItems name items = .error e) : ∃ message, e = .validation name message := by
  induction items with
  | nil => cases h
  | cons item rest ih =>
    rcases bind_eq_error_iff.mp h with h | ⟨_, -, h⟩
    · unfold identifierItem at h
      split at h
      · exact identifier_error h
      · cases h
        exact ⟨_, rfl⟩
    · rcases bind_eq_error_iff.mp h with h | ⟨_, -, h⟩
      · exact ih h
      · cases h

theorem coercePresent_error {name : String} {type : FieldType} {value : Json} {e : Error}
    (h : coercePresent name type value = .error e) : ∃ message, e = .validation name message := by
  unfold coercePresent at h
  split at h
  all_goals try simp only [reduceCtorEq] at h
  case h_10 => exact identifier_error h
  case h_12 items =>
    cases hitems : identifierItems name items with
    | ok items => rw [hitems] at h; cases h
    | error e' =>
      rw [hitems] at h
      cases h
      exact identifierItems_error hitems
  case h_13 =>
    cases h
    exact ⟨_, rfl⟩
  -- what is left reads a text or a number: one reading is taken, any other is refused
  all_goals
    split at h <;> cases h
    exact ⟨_, rfl⟩

/-- A value that does not fit is refused with the name of its field. -/
theorem coerce_error {name : String} {type : FieldType} {value : Json} {e : Error}
    (h : coerce name type value = .error e) : ∃ message, e = .validation name message := by
  unfold coerce at h
  split at h
  · cases h
  · exact coercePresent_error h

/-! ### Values for texts and identifiers -/

theorem identifier_eq_ok {name text : String} {value : Json}
    (h : identifier name text = .ok value) : ∃ id : ObjectId, value = .str id.toHex := by
  unfold identifier at h
  split at h <;> cases h
  exact ⟨_, rfl⟩

/-- A value that fits a field for identifiers is the text of one, or `null`. -/
theorem coerce_identifier {name : String} {value stored : Json}
    (h : coerce name .objectId value = .ok stored) :
    stored = .null ∨ ∃ id : ObjectId, stored = .str id.toHex := by
  unfold coerce at h
  split at h
  · cases h
    exact .inl rfl
  · cases value with
    | str text =>
      simp only [coercePresent] at h
      exact .inr (identifier_eq_ok h)
    | _ => simp only [coercePresent, reduceCtorEq] at h

/-- A value that fits a field for texts or identifiers is a text or `null`. -/
theorem coerce_text {name : String} {type : FieldType} {value stored : Json}
    (htype : type = .objectId ∨ type = .string) (h : coerce name type value = .ok stored) :
    stored = .null ∨ ∃ s, stored = .str s := by
  rcases htype with rfl | rfl
  · rcases coerce_identifier h with hnull | ⟨id, hid⟩
    · exact .inl hnull
    · exact .inr ⟨id.toHex, hid⟩
  · unfold coerce at h
    split at h
    · cases h
      exact .inl rfl
    · cases value with
      | str text =>
        simp only [coercePresent, Except.ok.injEq] at h
        exact .inr ⟨_, h.symm⟩
      | num n =>
        simp only [coercePresent, Except.ok.injEq] at h
        exact .inr ⟨_, h.symm⟩
      | bool b =>
        simp only [coercePresent, Except.ok.injEq] at h
        exact .inr ⟨_, h.symm⟩
      | _ => simp only [coercePresent, reduceCtorEq] at h

/-! ### When the preparation fails -/

/-- Why the input for a field is refused, if it is. -/
def inputFault? (op : Operation) (raw : Record) (f : Field) : Option Error :=
  if f.allows op then
    match raw.get? f.name with
    | some value =>
      match coerce f.name f.type value with
      | .error e => some e
      | .ok _ => none
    | none => none
  else none

theorem inputValue_fails {op : Operation} {raw : Record} {f : Field} {e : Error}
    (h : inputFault? op raw f = some e) : (inputValue op raw f).FailsWith e := by
  unfold inputFault? at h
  split at h
  next hallows =>
    split at h
    next value hvalue =>
      split at h
      next e' hcoerce =>
        cases h
        intro s
        simp [inputValue, hallows, hvalue, hcoerce]
      · cases h
    · cases h
  · cases h

theorem inputValue_succeeds {op : Operation} {raw : Record} {f : Field}
    (h : inputFault? op raw f = none) : (inputValue op raw f).Succeeds := by
  by_cases hallows : f.allows op
  · cases hvalue : raw.get? f.name with
    | some value =>
      cases hcoerce : coerce f.name f.type value with
      | ok w => exact fun s => ⟨some w, by simp [inputValue, hallows, hvalue, hcoerce]⟩
      | error e => simp [inputFault?, hallows, hvalue, hcoerce] at h
    | none =>
      simp only [inputValue, hallows, hvalue, if_true]
      split
      · exact (produce_succeeds _).bind fun _ => succeeds_pure _
      · exact succeeds_pure _
  · unfold inputValue
    rw [if_neg hallows]
    exact succeeds_pure _

theorem inputFields_fails {op : Operation} {raw : Record} {fields : List Field} {e : Error}
    (h : fields.findSome? (inputFault? op raw) = some e) (values : Record) :
    (inputFields op raw fields values).FailsWith e := by
  -- what was taken before does not matter, so the induction is over any values
  induction fields generalizing values with
  | nil => cases h
  | cons f fields ih =>
    rw [List.findSome?_cons] at h
    split at h
    next e' hfault =>
      cases h
      exact (inputValue_fails hfault).bind _
    next hfault =>
      -- this field fits, so a later one is the first that does not
      refine (inputValue_succeeds hfault).bind_fails fun value => ?_
      cases value with
      | some value => exact ih h _
      | none => exact ih h _

theorem inputFields_succeeds {op : Operation} {raw : Record} {fields : List Field}
    (h : fields.findSome? (inputFault? op raw) = none) (values : Record) :
    (inputFields op raw fields values).Succeeds := by
  induction fields generalizing values with
  | nil => exact succeeds_pure _
  | cons f fields ih =>
    rw [List.findSome?_cons] at h
    split at h
    · cases h
    next hfault =>
      refine (inputValue_succeeds hfault).bind fun value => ?_
      cases value with
      | some value => exact ih h _
      | none => exact ih h _

theorem serverDefaults_succeeds (fields : List Field) (values : Record) :
    (serverDefaults fields values).Succeeds := by
  induction fields generalizing values with
  | nil => exact succeeds_pure _
  | cons f fields ih =>
    unfold serverDefaults
    split
    · exact ih _
    · split
      · exact (produce_succeeds _).bind fun _ => ih _
      · exact ih _

theorem runHooks_succeeds (hooks : List Hook) (values : Record) :
    (runHooks hooks values).Succeeds := by
  induction hooks generalizing values with
  | nil => exact succeeds_pure _
  | cons hook hooks ih => exact readClock_succeeds.bind fun _ => ih _

theorem applyHooks_succeeds (m : Model) (op : Operation) (values : Record) :
    (applyHooks m op values).Succeeds := by
  unfold applyHooks
  split
  · exact succeeds_pure _
  · exact (runHooks_succeeds _ _).bind fun _ => succeeds_pure _

/-- The first field that is given a value that does not fit makes the whole
    preparation fail. -/
theorem prepare_fails {m : Model} {op : Operation} {raw : Record} {e : Error}
    (h : m.fields.findSome? (inputFault? op raw) = some e) : (prepare m op raw).FailsWith e :=
  (inputFields_fails h []).bind _

/-- Nothing else makes it fail. -/
theorem prepare_succeeds {m : Model} {op : Operation} {raw : Record}
    (h : m.fields.findSome? (inputFault? op raw) = none) : (prepare m op raw).Succeeds := by
  refine (inputFields_succeeds h []).bind fun values => ?_
  split
  · exact (serverDefaults_succeeds _ _).bind fun _ => applyHooks_succeeds m op _
  · exact (succeeds_pure _).bind fun _ => applyHooks_succeeds m op _

/-! ### What a preparation keeps -/

section keeps
variable {m : Model} {op : Operation} {raw : Record} {fields : List Field} {hooks : List Hook}
  {I J : Record → Prop}

/-- A property of records that no field breaks, neither by its input nor by its
    default. -/
structure Takes (op : Operation) (raw : Record) (fields : List Field) (I : Record → Prop) :
    Prop where
  /-- It is there before anything is taken. -/
  empty : I []
  /-- What a field takes from the input leaves it. -/
  input : ∀ f ∈ fields, (inputValue op raw f).Yields fun taken =>
    ∀ v, taken = some v → ∀ values, I values → I (values.insert f.name v)
  /-- So does the default of a field that takes no input. -/
  fallback : op = .create → ∀ f ∈ fields, f.allows .create = false → ∀ d, f.fallback = some d →
    d.produce.Yields fun v => ∀ values, I values → I (values.insert f.name v)

theorem inputFields_keeps {values : Record}
    (h : ∀ f ∈ fields, (inputValue op raw f).Yields fun taken =>
      ∀ v, taken = some v → ∀ values, I values → I (values.insert f.name v))
    (hI : I values) : (inputFields op raw fields values).Yields I := by
  induction fields generalizing values with
  | nil => exact yields_pure hI
  | cons f fields ih =>
    have hrest := fun f' hf' => h f' (List.mem_cons_of_mem _ hf')
    refine (h f List.mem_cons_self).bind fun taken htaken => ?_
    cases taken with
    | some v => exact ih hrest (htaken v rfl values hI)
    | none => exact ih hrest hI

theorem serverDefaults_keeps {values : Record}
    (h : ∀ f ∈ fields, f.allows .create = false → ∀ d, f.fallback = some d →
      d.produce.Yields fun v => ∀ values, I values → I (values.insert f.name v))
    (hI : I values) : (serverDefaults fields values).Yields I := by
  induction fields generalizing values with
  | nil => exact yields_pure hI
  | cons f fields ih =>
    have hrest := fun f' hf' => h f' (List.mem_cons_of_mem _ hf')
    unfold serverDefaults
    split
    · exact ih hrest hI
    next hallows =>
      split
      next d hd =>
        have hfirst := h f List.mem_cons_self (eq_false_of_ne_true hallows) d hd
        exact hfirst.bind fun v hv => ih hrest (hv values hI)
      · exact ih hrest hI

/-- What no field breaks is there before the hooks run. -/
theorem Takes.prepare (h : Takes op raw m.fields I)
    (hhooks : ∀ values, I values → (applyHooks m op values).Yields J) :
    (prepare m op raw).Yields J := by
  refine (inputFields_keeps h.input h.empty).bind fun values hvalues => ?_
  split
  next hop => exact (serverDefaults_keeps (h.fallback hop) hvalues).bind hhooks
  · exact (yields_pure hvalues).bind hhooks

theorem runHooks_keeps {values : Record}
    (h : ∀ hook ∈ hooks, ∀ t values, I values → I (hook.run t values)) (hI : I values) :
    (runHooks hooks values).Yields I := by
  induction hooks generalizing values with
  | nil => exact yields_pure hI
  | cons hook hooks ih =>
    have hrest := fun hook' h' => h hook' (List.mem_cons_of_mem _ h')
    refine (yields_true _).bind fun t _ => ih hrest ?_
    exact h hook List.mem_cons_self t values hI

/-- What no hook breaks is there after the hooks, if it does not depend on the
    names that are not declared. -/
theorem applyHooks_keeps (h : ∀ hook ∈ m.hooks op, ∀ t values, I values → I (hook.run t values))
    (hkeep : ∀ values, I values → I (values.keep m.declares)) (values : Record) (hI : I values) :
    (applyHooks m op values).Yields I := by
  unfold applyHooks
  split
  · exact yields_pure hI
  · exact (runHooks_keeps h hI).bind fun out hout => yields_pure (hkeep out hout)

end keeps

/-! ### Names that a preparation leaves out -/

/-- A record without a value under a name. -/
def Lacks (name : String) (r : Record) : Prop := Record.get? r name = none

theorem Lacks.insert {name : String} {r : Record} (h : Lacks name r) {k : String} (hk : k ≠ name)
    (v : Json) : Lacks name (r.insert k v) := by
  unfold Lacks
  rw [Record.get?_insert, if_neg hk]
  exact h

/-- A name gets no value in a preparation if no field of that name allows the
    operation or has a default, and no hook gives it one. -/
theorem prepare_lacks {name : String} {m : Model} {op : Operation} (raw : Record)
    (hf : ∀ f ∈ m.fields, f.name = name → f.allows op = false)
    (hd : op = .create → ∀ f ∈ m.fields, f.name = name → f.fallback = none)
    (hh : ∀ hook ∈ m.hooks op, ∀ t r, Lacks name r → Lacks name (hook.run t r)) :
    (prepare m op raw).Yields (Lacks name) := by
  have htakes : Takes op raw m.fields (Lacks name) := by
    constructor
    case empty => rfl
    case input =>
      intro f hmem
      by_cases hname : f.name = name
      · -- a field of this name is skipped
        have hskip : inputValue op raw f = pure none := by
          simp [inputValue, hf f hmem hname]
        rw [hskip]
        exact yields_pure fun v hv => by cases hv
      · intro s taken _ v _ values hvalues
        exact hvalues.insert hname v
    case fallback =>
      intro hop f hmem _ d hfallback
      have hname : f.name ≠ name := by
        intro hsame
        rw [hd hop f hmem hsame] at hfallback
        cases hfallback
      intro s v _ values hvalues
      exact hvalues.insert hname v
  refine htakes.prepare (applyHooks_keeps hh fun values hvalues => ?_)
  unfold Lacks
  rw [Record.get?_keep, hvalues]
  exact ite_self _

end Shape

end RecordGate

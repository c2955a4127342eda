import RecordGate.Proofs.Frame
import RecordGate.Proofs.SortedRecords
import RecordGate.Proofs.Whitelist

/-! # What shaping makes of an input

  Shaping takes the fields of a model one after the other. Where no two of them
  have the same name, no field disturbs another, so the result is known name by
  name (`Shaped`), whatever the order of the fields.

  **Key idea.** A default may be the time or a fresh identifier, so there are as
  many results as supplies. `Shaped` says of one run what it takes from its
  supply (`Default.Made`), and of all runs together what any supply could offer
  (`Default.Makes`). In the second reading the order of the fields is gone.

  - `inputFields_shaped`: what the loop adds to the values it has.
  - `exists_draw_input`: every record that could be the result is one.
  - `input_exact` says when shaping fails, with which error, and what it
    returns otherwise.
-/

namespace RecordGate

/-! ### Supplies that are drawn on -/

/-- A supply before and after some draws. -/
structure Supply.Spans (s t : Supply) : Prop extends s.Later t where
  /-- No reading of the clock is taken back. -/
  readings : s.readings ≤ t.readings

namespace Supply

theorem spans_refl (s : Supply) : s.Spans s := ⟨later_refl s, Nat.le_refl _⟩

theorem Spans.trans {s t u : Supply} (hst : s.Spans t) (htu : t.Spans u) : s.Spans u :=
  ⟨hst.toLater.trans htu.toLater, Nat.le_trans hst.readings htu.readings⟩

end Supply

namespace Flow

variable {α β : Type} {x : Flow α} {f : α → Flow β} {a : α} {s t : Supply}

theorem spans_draw (x : Flow α) (s : Supply) : s.Spans (x.draw s).2 := by
  induction x generalizing s with
  | done result => exact s.spans_refl
  | now next ih =>
    have hfirst : s.Spans s.tick.2 := ⟨s.later_tick, Nat.le_succ _⟩
    exact hfirst.trans (ih _ _)
  | fresh next ih =>
    have hfirst : s.Spans s.fresh.2 := ⟨s.later_fresh, Nat.le_refl _⟩
    exact hfirst.trans (ih _ _)
  | call c next ih => exact ih _ s

theorem spans_of_draw {result : Except Error α} (h : x.draw s = (result, t)) : s.Spans t := by
  have hspans := spans_draw x s
  rw [h] at hspans
  exact hspans

/-- The ends of a flow that does not ask the storage: any reading of the clock
    and any identifier may be the answer to its questions. -/
inductive Ends : Flow α → Except Error α → Prop where
  /-- The end. -/
  | done (result : Except Error α) : Ends (.done result) result
  /-- An end after some reading of the clock. -/
  | now {next : Time.Instant → Flow α} {result : Except Error α} (t : Time.Instant)
      (h : Ends (next t) result) : Ends (.now next) result
  /-- An end after some identifier. -/
  | fresh {next : ObjectId → Flow α} {result : Except Error α} (id : ObjectId)
      (h : Ends (next id) result) : Ends (.fresh next) result

theorem ends_pure (a : α) : Ends (pure a) (.ok a) := .done _

theorem Ends.bind {result : Except Error β} (hx : x.Ends (.ok a)) (hf : (f a).Ends result) :
    (x >>= f).Ends result := by
  show (x.bind f).Ends result
  -- the continuation stands at the end, so the induction is on how the first flow got there
  generalize hend : (Except.ok a : Except Error α) = first at hx
  induction hx with
  | done first =>
    subst hend
    exact hf
  | now t _ ih => exact .now t (ih hend)
  | fresh id _ ih => exact .fresh id (ih hend)

/-- Every end is reached from some supply. -/
theorem Ends.exists_draw {result : Except Error α} (h : x.Ends result) :
    ∃ s, (x.draw s).1 = result := by
  -- a supply is built from its far end: what is drawn first is put in front of the rest
  have hbuilt : ∀ k j, ∃ (clock : Nat → Time.Instant) (ids : Nat → ObjectId), ∀ s : Supply,
      s.readings = k → s.issued = j →
      (∀ n, k ≤ n → s.clock n = clock n) → (∀ n, j ≤ n → s.ids n = ids n) →
      (x.draw s).1 = result := by
    induction h with
    | done result => exact fun k j => ⟨Supply.still.clock, Supply.still.ids, fun _ _ _ _ _ => rfl⟩
    | @now next result t _ ih =>
      intro k j
      obtain ⟨clock, ids, hrest⟩ := ih (k + 1) j
      refine ⟨Function.update clock k t, ids, ?_⟩
      intro s hk hj hclock hids
      have hread : s.tick.1 = t := by
        show s.clock s.readings = t
        rw [hk, hclock k (Nat.le_refl k), Function.update_self]
      show ((next s.tick.1).draw s.tick.2).1 = result
      rw [hread]
      apply hrest s.tick.2 (congrArg (· + 1) hk) hj _ hids
      intro n hn
      show s.clock n = clock n
      rw [hclock n (by omega), Function.update_of_ne (by omega)]
    | @fresh next result id _ ih =>
      intro k j
      obtain ⟨clock, ids, hrest⟩ := ih k (j + 1)
      refine ⟨clock, Function.update ids j id, ?_⟩
      intro s hk hj hclock hids
      have hdrawn : s.fresh.1 = id := by
        show s.ids s.issued = id
        rw [hj, hids j (Nat.le_refl j), Function.update_self]
      show ((next s.fresh.1).draw s.fresh.2).1 = result
      rw [hdrawn]
      apply hrest s.fresh.2 hk (congrArg (· + 1) hj) hclock
      intro n hn
      show s.ids n = ids n
      rw [hids n (by omega), Function.update_of_ne (by omega)]
  obtain ⟨clock, ids, hall⟩ := hbuilt 0 0
  exact ⟨⟨clock, ids, 0, 0⟩, hall _ rfl rfl (fun _ _ => rfl) fun _ _ => rfl⟩

end Flow

/-! ### What a field gives -/

/-- A value that a default makes between two states of a supply. -/
inductive Default.Made (s t : Supply) : Default → Json → Prop where
  /-- A fixed value is always the same. -/
  | literal (value : Json) : Made s t (.literal value) value
  /-- The time is one of the readings that are drawn. -/
  | now {k : Nat} (hfrom : s.readings ≤ k) (hto : k < t.readings) :
      Made s t .now (.str (s.clock k).stored)
  /-- A fresh identifier is one of those that are drawn. -/
  | freshId {k : Nat} (hfrom : s.issued ≤ k) (hto : k < t.issued) :
      Made s t .freshId (.str (s.ids k).toHex)
  /-- What code supplies is what it returns. -/
  | computed (produce : Unit → Json) : Made s t (.computed produce) (produce ())

/-- A value that a default makes for some supply. -/
inductive Default.Makes : Default → Json → Prop where
  | literal (value : Json) : Makes (.literal value) value
  | now (t : Time.Instant) : Makes .now (.str t.stored)
  | freshId (id : ObjectId) : Makes .freshId (.str id.toHex)
  | computed (produce : Unit → Json) : Makes (.computed produce) (produce ())

/-- A default whose value comes from the supply. -/
def Default.Drawn : Default → Prop
  | .now | .freshId => True
  | .literal _ | .computed _ => False

namespace Default

variable {d : Default} {v v' : Json} {s t s' t' : Supply}

theorem Made.makes (h : Made s t d v) : d.Makes v := by
  cases h with
  | literal => exact .literal v
  | now => exact .now _
  | freshId => exact .freshId _
  | computed produce => exact .computed produce

theorem Made.mono (h : Made s t d v) (hs : s'.Spans s) (ht : t.Spans t') : Made s' t' d v := by
  cases h with
  | literal => exact .literal v
  | now hfrom hto =>
    rw [hs.clock]
    exact .now (Nat.le_trans hs.readings hfrom) (Nat.lt_of_lt_of_le hto ht.readings)
  | freshId hfrom hto =>
    rw [hs.ids]
    exact .freshId (Nat.le_trans hs.issued hfrom) (Nat.lt_of_lt_of_le hto ht.issued)
  | computed produce => exact .computed produce

/-- A default that is not drawn makes one value. -/
theorem Makes.unique (h : d.Makes v) (h' : d.Makes v') : v = v' ∨ d.Drawn := by
  cases h with
  | literal =>
    cases h'
    exact .inl rfl
  | computed =>
    cases h'
    exact .inl rfl
  | now => exact .inr trivial
  | freshId => exact .inr trivial

theorem draw_produce (d : Default) (s : Supply) :
    ∃ v t, d.produce.draw s = (.ok v, t) ∧ Made s t d v := by
  cases d with
  | literal value => exact ⟨_, _, rfl, .literal value⟩
  | now => exact ⟨_, _, rfl, .now (Nat.le_refl _) (Nat.lt_succ_self _)⟩
  | freshId => exact ⟨_, _, rfl, .freshId (Nat.le_refl _) (Nat.lt_succ_self _)⟩
  | computed produce => exact ⟨_, _, rfl, .computed produce⟩

theorem Makes.ends (h : d.Makes v) : d.produce.Ends (.ok v) := by
  cases h with
  | literal => exact .done _
  | now t => exact .now t (.done _)
  | freshId id => exact .fresh id (.done _)
  | computed => exact .done _

end Default

namespace Field

/-- A field has something to give to an operation: it allows it, and there is a
    value for it in the input or, on a create, a default. -/
def Fills (op : Operation) (raw : Record) (f : Field) : Prop :=
  f.allows op = true ∧
    ((raw.get? f.name).isSome = true ∨ op = .create ∧ f.fallback.isSome = true)

/-- What a field gives: the coerced value of the input, `null` included, or on a
    create without one its default. -/
inductive Gives (made : Default → Json → Prop) (op : Operation) (raw : Record) (f : Field)
    (v : Json) : Prop where
  /-- The input has a value. -/
  | sent {u : Json} (hraw : raw.get? f.name = some u)
      (hcoerce : Shape.coerce f.name f.type u = .ok v)
  /-- It has none, and the field has a default. -/
  | left {d : Default} (hraw : raw.get? f.name = none) (hop : op = .create)
      (hfallback : f.fallback = some d) (hmade : made d v)

/-- The input for a field is refused. -/
def Refuses (op : Operation) (raw : Record) (f : Field) (e : Error) : Prop :=
  f.allows op = true ∧
    ∃ u, raw.get? f.name = some u ∧ Shape.coerce f.name f.type u = .error e

variable {made made' : Default → Json → Prop} {op : Operation} {raw : Record} {f : Field}
  {v v' : Json} {e : Error}

theorem Gives.imp (h : f.Gives made op raw v) (himp : ∀ d v, made d v → made' d v) :
    f.Gives made' op raw v := by
  cases h with
  | sent hraw hcoerce => exact .sent hraw hcoerce
  | left hraw hop hfallback hmade => exact .left hraw hop hfallback (himp _ _ hmade)

/-- A field gives one value, unless its default is drawn. -/
theorem Gives.unique (h : f.Gives Default.Makes op raw v)
    (h' : f.Gives Default.Makes op raw v') :
    v = v' ∨ raw.get? f.name = none ∧ op = .create ∧ ∃ d, f.fallback = some d ∧ d.Drawn := by
  cases h with
  | sent hraw hcoerce =>
    cases h' with
    | sent hraw' hcoerce' =>
      rw [hraw, Option.some.injEq] at hraw'
      subst hraw'
      rw [hcoerce, Except.ok.injEq] at hcoerce'
      exact .inl hcoerce'
    | left hraw' =>
      rw [hraw] at hraw'
      cases hraw'
  | left hraw hop hfallback hmade =>
    cases h' with
    | sent hraw' =>
      rw [hraw] at hraw'
      cases hraw'
    | left _ _ hfallback' hmade' =>
      rw [hfallback, Option.some.injEq] at hfallback'
      subst hfallback'
      exact (hmade.unique hmade').imp_right fun hdrawn => ⟨hraw, hop, _, hfallback, hdrawn⟩

end Field

namespace Shape

open RecordGate.Flow RecordGate.Storage

variable {made : Default → Json → Prop} {m : Model} {op : Operation} {raw acc values : Record}
  {fields fields' : List Field} {f : Field} {s t : Supply} {v : Json} {e : Error}

/-! ### Refusals -/

theorem inputFault?_eq_some : inputFault? op raw f = some e ↔ f.Refuses op raw e := by
  unfold inputFault? Field.Refuses
  cases f.allows op with
  | false => simp
  | true =>
    cases raw.get? f.name with
    | none => simp
    | some u => cases hcoerce : coerce f.name f.type u <;> simp [hcoerce]

theorem inputFault?_eq_none : inputFault? op raw f = none ↔ ∀ e, ¬ f.Refuses op raw e := by
  rw [Option.eq_none_iff_forall_ne_some]
  exact forall_congr' fun e => not_congr inputFault?_eq_some

/-! ### One field -/

/-- What is taken from the input for a field is what the field gives. -/
theorem draw_inputValue {taken : Option Json}
    (h : (inputValue op raw f).draw s = (.ok taken, t)) :
    (taken = none → ¬ f.Fills op raw) ∧
    ∀ v, taken = some v → f.Fills op raw ∧ f.Gives (Default.Made s t) op raw v := by
  unfold inputValue at h
  by_cases hallows : f.allows op = true
  · rw [if_pos hallows] at h
    cases hraw : raw.get? f.name with
    | some u =>
      rw [hraw] at h
      cases hcoerce : coerce f.name f.type u with
      | ok w =>
        simp only [hcoerce, ofExcept_ok_bind, draw_pure, Prod.mk.injEq, Except.ok.injEq] at h
        obtain ⟨rfl, rfl⟩ := h
        refine ⟨nofun, ?_⟩
        intro v hv
        cases hv
        exact ⟨⟨hallows, .inl (by rw [hraw]; rfl)⟩, .sent hraw hcoerce⟩
      | error e => simp [hcoerce] at h
    | none =>
      rw [hraw] at h
      split at h
      next heq =>
        cases heq
      next heq =>
        split at h
        next d hd =>
          obtain ⟨w, t', hdraw, hmade⟩ := d.draw_produce s
          rw [draw_bind, hdraw] at h
          cases h
          refine ⟨nofun, ?_⟩
          intro v hv
          cases hv
          exact ⟨⟨hallows, .inr ⟨rfl, by rw [hd]; rfl⟩⟩, .left hraw rfl hd hmade⟩
        next hother =>
          cases h
          refine ⟨?_, nofun⟩
          intro _ hfills
          rcases hfills.2 with hsent | ⟨hop, hfallback⟩
          · rw [hraw] at hsent
            cases hsent
          · obtain ⟨d, hd⟩ := Option.isSome_iff_exists.mp hfallback
            exact hother d hop hd
  · rw [if_neg hallows] at h
    cases h
    exact ⟨fun _ hfills => hallows hfills.1, nofun⟩

/-- Whatever a field could give can be taken. -/
theorem ends_inputValue (hfills : f.Fills op raw) (h : f.Gives Default.Makes op raw v) :
    (inputValue op raw f).Ends (.ok (some v)) := by
  unfold inputValue
  rw [if_pos hfills.1]
  cases h with
  | sent hraw hcoerce =>
    simp only [hraw, hcoerce, ofExcept_ok_bind]
    exact ends_pure _
  | left hraw hop hfallback hmade =>
    subst hop
    simp only [hraw, hfallback]
    exact hmade.ends.bind (ends_pure _)

theorem ends_inputValue_none (h : ¬ f.Fills op raw) : (inputValue op raw f).Ends (.ok none) := by
  unfold inputValue
  by_cases hallows : f.allows op = true
  · rw [if_pos hallows]
    cases hraw : raw.get? f.name with
    | some u => exact absurd ⟨hallows, .inl (by rw [hraw]; rfl)⟩ h
    | none =>
      dsimp only
      split
      next d hd => exact absurd ⟨hallows, .inr ⟨rfl, by rw [hd]; rfl⟩⟩ h
      · exact ends_pure _
  · rw [if_neg hallows]
    exact ends_pure _

/-! ### All fields -/

/-- What shaping makes of an input: under the name of every field that has
    something to give what it gives, and nothing else. -/
structure Shaped (made : Default → Json → Prop) (fields : List Field) (op : Operation)
    (raw values : Record) : Prop where
  /-- The names are in order. -/
  sorted : values.Sorted
  /-- What a field gives is there. -/
  given : ∀ f ∈ fields, f.Fills op raw →
    ∃ v, values.get? f.name = some v ∧ f.Gives made op raw v
  /-- There is no other name. -/
  others : ∀ name, (∀ f ∈ fields, f.name = name → ¬ f.Fills op raw) → values.get? name = none

/-- What the loop adds to the values that it has. -/
theorem inputFields_shaped (hnames : (fields.map Field.name).Nodup) (hacc : acc.Sorted)
    (h : (inputFields op raw fields acc).draw s = (.ok values, t)) :
    values.Sorted ∧
    (∀ f ∈ fields, f.Fills op raw →
      ∃ v, values.get? f.name = some v ∧ f.Gives (Default.Made s t) op raw v) ∧
    ∀ name, (∀ f ∈ fields, f.name = name → ¬ f.Fills op raw) →
      values.get? name = acc.get? name := by
  -- what was taken before stays, since no later field has a name that was decided
  induction fields generalizing acc s with
  | nil =>
    cases h
    exact ⟨hacc, nofun, fun _ _ => rfl⟩
  | cons f fields ih =>
    obtain ⟨hfresh, hnames⟩ := List.nodup_cons.mp hnames
    have hlater : ∀ g ∈ fields, g.name = f.name → ¬ g.Fills op raw := by
      intro g hg hname
      exact absurd (hname ▸ List.mem_map_of_mem hg) hfresh
    unfold inputFields at h
    rw [draw_bind] at h
    cases hfirst : (inputValue op raw f).draw s with
    | mk result s' =>
      rw [hfirst] at h
      cases result with
      | error e => cases h
      | ok taken =>
        obtain ⟨hnone, hsome⟩ := draw_inputValue hfirst
        have hspans : s.Spans s' := spans_of_draw hfirst
        cases taken with
        | none =>
          have hskipped := hnone rfl
          obtain ⟨hsorted, hgiven, hothers⟩ := ih hnames hacc h
          refine ⟨hsorted, ?_, ?_⟩
          · intro g hg hfills
            rcases List.mem_cons.mp hg with rfl | hg
            · exact absurd hfills hskipped
            · obtain ⟨v, hv, hgives⟩ := hgiven g hg hfills
              exact ⟨v, hv, hgives.imp fun _ _ hmade => hmade.mono hspans (Supply.spans_refl t)⟩
          · intro name hname
            exact hothers name fun g hg => hname g (List.mem_cons_of_mem _ hg)
        | some v =>
          obtain ⟨hfills, hgives⟩ := hsome v rfl
          obtain ⟨hsorted, hgiven, hothers⟩ := ih hnames (hacc.insert f.name v) h
          refine ⟨hsorted, ?_, ?_⟩
          · intro g hg hg'
            rcases List.mem_cons.mp hg with rfl | hg
            · refine ⟨v, ?_, hgives.imp fun _ _ hmade => ?_⟩
              · rw [hothers _ hlater, Record.get?_insert, if_pos rfl]
              · exact hmade.mono (Supply.spans_refl s) (spans_of_draw h)
            · obtain ⟨w, hw, hgives'⟩ := hgiven g hg hg'
              exact ⟨w, hw, hgives'.imp fun _ _ hmade => hmade.mono hspans (Supply.spans_refl t)⟩
          · intro name hname
            have hne : f.name ≠ name := fun hsame => hname f List.mem_cons_self hsame hfills
            rw [hothers name fun g hg => hname g (List.mem_cons_of_mem _ hg), Record.get?_insert,
              if_neg hne]

/-- What a run of shaping returns. -/
theorem draw_input_shaped (hnames : (m.fields.map Field.name).Nodup)
    (h : (input m op raw).draw s = (.ok values, t)) :
    Shaped (Default.Made s t) m.fields op raw values := by
  obtain ⟨hsorted, hgiven, hothers⟩ := inputFields_shaped hnames Record.sorted_nil h
  exact ⟨hsorted, hgiven, hothers⟩

theorem Shaped.imp {made' : Default → Json → Prop} (h : Shaped made fields op raw values)
    (himp : ∀ d v, made d v → made' d v) : Shaped made' fields op raw values where
  sorted := h.sorted
  given f hf hfills := by
    obtain ⟨v, hv, hgives⟩ := h.given f hf hfills
    exact ⟨v, hv, hgives.imp himp⟩
  others := h.others

/-- The order of the fields does not matter. -/
theorem Shaped.perm (h : Shaped made fields op raw values) (hperm : fields.Perm fields') :
    Shaped made fields' op raw values where
  sorted := h.sorted
  given f hf := h.given f (hperm.mem_iff.mpr hf)
  others name hname := h.others name fun f hf => hname f (hperm.mem_iff.mp hf)

/-- The values of some fields, taken from a record. -/
def pick (values : Record) : List Field → Record → Record
  | [], acc => acc
  | f :: fields, acc =>
    match values.get? f.name with
    | some v => pick values fields (acc.insert f.name v)
    | none => pick values fields acc

theorem pick_sorted (values : Record) (fields : List Field) (hacc : acc.Sorted) :
    (pick values fields acc).Sorted := by
  induction fields generalizing acc with
  | nil => exact hacc
  | cons f fields ih =>
    unfold pick
    split
    · exact ih (hacc.insert _ _)
    · exact ih hacc

theorem get?_pick (values : Record) (fields : List Field) (acc : Record) (name : String) :
    (pick values fields acc).get? name =
      if name ∈ fields.map Field.name then (values.get? name).or (acc.get? name)
      else acc.get? name := by
  induction fields generalizing acc with
  | nil => simp [pick]
  | cons f fields ih =>
    unfold pick
    by_cases hname : f.name = name
    · subst hname
      cases hvalue : values.get? f.name with
      | some v => simp [ih, hvalue, Record.get?_insert]
      | none => simp [ih, hvalue]
    · have hne : ¬ name = f.name := fun h => hname h.symm
      cases hvalue : values.get? f.name with
      | some v => simp [ih, Record.get?_insert, hname, hne]
      | none => simp [ih, hne]

/-- The loop can take the values of a record that fits the fields. -/
theorem ends_inputFields (hgiven : ∀ f ∈ fields, f.Fills op raw →
      ∃ v, values.get? f.name = some v ∧ f.Gives Default.Makes op raw v)
    (hothers : ∀ f ∈ fields, ¬ f.Fills op raw → values.get? f.name = none) (acc : Record) :
    (inputFields op raw fields acc).Ends (.ok (pick values fields acc)) := by
  induction fields generalizing acc with
  | nil => exact ends_pure _
  | cons f fields ih =>
    have hrest := ih (fun g hg => hgiven g (List.mem_cons_of_mem _ hg))
      fun g hg => hothers g (List.mem_cons_of_mem _ hg)
    unfold inputFields pick
    by_cases hfills : f.Fills op raw
    · obtain ⟨v, hv, hgives⟩ := hgiven f List.mem_cons_self hfills
      rw [hv]
      exact (ends_inputValue hfills hgives).bind (hrest _)
    · rw [hothers f List.mem_cons_self hfills]
      exact (ends_inputValue_none hfills).bind (hrest _)

/-- Every record that could be the result of shaping is one, from some supply. -/
theorem exists_draw_input (hnames : (m.fields.map Field.name).Nodup)
    (h : Shaped Default.Makes m.fields op raw values) :
    ∃ s, ((input m op raw).draw s).1 = .ok values := by
  have hends : (input m op raw).Ends (.ok (pick values m.fields [])) := by
    apply ends_inputFields h.given
    intro f hf hskipped
    apply h.others
    intro g hg hname
    rw [List.inj_on_of_nodup_map hnames hg hf hname]
    exact hskipped
  have hsame : pick values m.fields [] = values := by
    apply (pick_sorted values m.fields Record.sorted_nil).ext h.sorted
    intro name
    rw [get?_pick]
    split
    · exact Option.or_none
    next hforeign =>
      symm
      apply h.others
      intro f hf hname
      exact absurd (hname ▸ List.mem_map_of_mem hf) hforeign
  rw [hsame] at hends
  exact hends.exists_draw

/-! ### The whole of shaping -/

/-- The field whose input makes shaping fail, if there is one. -/
theorem findSome?_refuses : fields.findSome? (inputFault? op raw) = some e ↔
    ∃ before f after, fields = before ++ f :: after ∧ f.Refuses op raw e ∧
      ∀ g ∈ before, ∀ e', ¬ g.Refuses op raw e' := by
  rw [List.findSome?_eq_some_iff]
  simp only [inputFault?_eq_some, inputFault?_eq_none]

/-- Shaping fails at the first refusal, and only there. -/
theorem draw_input_error (s : Supply) : ((input m op raw).draw s).1 = .error e ↔
    m.fields.findSome? (inputFault? op raw) = some e := by
  cases hfault : m.fields.findSome? (inputFault? op raw) with
  | some e' =>
    have hfails : ((input m op raw).draw s).1 = .error e' := inputFields_fails hfault [] s
    rw [hfails, Except.error.injEq, Option.some.injEq]
  | none =>
    obtain ⟨values, hvalues⟩ := inputFields_succeeds hfault [] s
    have hok : ((input m op raw).draw s).1 = .ok values := hvalues
    rw [hok]
    exact iff_of_false nofun nofun

theorem draw_input_ok (s : Supply) : (∃ values, ((input m op raw).draw s).1 = .ok values) ↔
    ∀ f ∈ m.fields, ∀ e, ¬ f.Refuses op raw e := by
  have hfits : (∀ f ∈ m.fields, ∀ e, ¬ f.Refuses op raw e) ↔
      m.fields.findSome? (inputFault? op raw) = none := by
    rw [List.findSome?_eq_none_iff]
    exact forall₂_congr fun f _ => inputFault?_eq_none.symm
  rw [hfits, Option.eq_none_iff_forall_ne_some]
  cases hdraw : ((input m op raw).draw s).1 with
  | ok values =>
    refine iff_of_true ⟨values, rfl⟩ ?_
    intro e he
    rw [(draw_input_error s).mpr he] at hdraw
    cases hdraw
  | error e =>
    refine iff_of_false nofun ?_
    intro hnone
    exact hnone e ((draw_input_error s).mp hdraw)

/-- What a run returns is drawn from its supply; the storage is not asked. -/
theorem run_input {σ : Type} (m : Model) (op : Operation) (raw : Record)
    (driver : Storage.Driver σ) (w : World σ) : (input m op raw).run driver w =
      (((input m op raw).draw w.supply).1, ⟨((input m op raw).draw w.supply).2, w.store⟩) :=
  (offline_inputFields op raw m.fields []).run_eq driver w

/-- A field that refuses nothing coerces every value that it takes. -/
theorem not_refuses_iff {f : Field} : (∀ e, ¬ f.Refuses op raw e) ↔
    (f.allows op = true → ∀ u, raw.get? f.name = some u →
      ∃ v, coerce f.name f.type u = .ok v) := by
  unfold Field.Refuses
  constructor
  · intro hfits hallows u hu
    by_contra hno
    obtain ⟨e, he⟩ := exists_error_iff.mpr hno
    exact hfits e ⟨hallows, u, hu, he⟩
  · intro hfits e hrefuses
    obtain ⟨hallows, u, hu, he⟩ := hrefuses
    obtain ⟨v, hv⟩ := hfits hallows u hu
    rw [hv] at he
    cases he

/-- What some run returns, as any run could. -/
theorem draw_input_makes (hnames : (m.fields.map Field.name).Nodup)
    (h : ((input m op raw).draw s).1 = .ok values) :
    Shaped Default.Makes m.fields op raw values :=
  (draw_input_shaped hnames (Prod.ext h rfl)).imp fun _ _ hmade => hmade.makes

/-- Fields in another order have the same results, each from some supply: a
    result fits the fields, and what fits them is a result. -/
theorem exists_draw_input_perm {m' : Model} (hnames : (m.fields.map Field.name).Nodup)
    (hperm : m.fields.Perm m'.fields) (h : ((input m op raw).draw s).1 = .ok values) :
    ∃ s, ((input m' op raw).draw s).1 = .ok values := by
  have hnames' : (m'.fields.map Field.name).Nodup := (hperm.map Field.name).nodup hnames
  exact exists_draw_input hnames' ((draw_input_makes hnames h).perm hperm)

/-- A `null` stays `null`, whatever the default. -/
theorem Shaped.null (h : Shaped made fields op raw values) {f : Field} (hf : f ∈ fields)
    (hallows : f.allows op = true) (hnull : raw.get? f.name = some .null) :
    values.get? f.name = some .null := by
  obtain ⟨v, hv, hgives⟩ := h.given f hf ⟨hallows, .inl (by rw [hnull]; rfl)⟩
  cases hgives with
  | sent hraw hcoerce =>
    rw [hnull, Option.some.injEq] at hraw
    subst hraw
    cases hcoerce
    exact hv
  | left hraw =>
    rw [hnull] at hraw
    cases hraw

/-- Two results of the same input have the same value under every name, but
    where a default was drawn. -/
theorem Shaped.agree (h : Shaped Default.Makes fields op raw values) {values' : Record}
    (h' : Shaped Default.Makes fields op raw values') (name : String) :
    values'.get? name = values.get? name ∨ ∃ f ∈ fields, f.name = name ∧
      raw.get? name = none ∧ op = .create ∧ ∃ d, f.fallback = some d ∧ d.Drawn := by
  by_cases hfilled : ∃ f ∈ fields, f.name = name ∧ f.Fills op raw
  · obtain ⟨f, hf, rfl, hfills⟩ := hfilled
    obtain ⟨v, hv, hgives⟩ := h.given f hf hfills
    obtain ⟨v', hv', hgives'⟩ := h'.given f hf hfills
    rcases hgives.unique hgives' with rfl | hdrawn
    · exact .inl (hv'.trans hv.symm)
    · exact .inr ⟨f, hf, rfl, hdrawn⟩
  · have hskipped : ∀ f ∈ fields, f.name = name → ¬ f.Fills op raw :=
      fun f hf hname hfills => hfilled ⟨f, hf, hname, hfills⟩
    exact .inl ((h'.others name hskipped).trans (h.others name hskipped).symm)

/-- Of what shaping returns, an answer shows what the readable fields gave. -/
theorem Shaped.output (hnames : (m.fields.map Field.name).Nodup)
    (h : Shaped made m.fields op raw values) (name : String) :
    ((Shape.output m values).get? name).isSome = true ↔
      ∃ f ∈ m.fields, f.name = name ∧ f.isReadable = true ∧ f.Fills op raw := by
  rw [get?_output]
  constructor
  · intro hshown
    by_cases hreveals : m.reveals name = true
    · rw [if_pos hreveals] at hshown
      obtain ⟨f, hf, hboth⟩ := List.any_eq_true.mp hreveals
      simp only [Bool.and_eq_true, decide_eq_true_eq] at hboth
      refine ⟨f, hf, hboth.1, hboth.2, ?_⟩
      by_contra hskipped
      rw [h.others name] at hshown
      · cases hshown
      · intro g hg hname
        rw [List.inj_on_of_nodup_map hnames hg hf (hname.trans hboth.1.symm)]
        exact hskipped
    · rw [if_neg hreveals] at hshown
      cases hshown
  · rintro ⟨f, hf, rfl, hreadable, hfills⟩
    obtain ⟨v, hv, -⟩ := h.given f hf hfills
    have hreveals : m.reveals f.name = true :=
      List.any_eq_true.mpr ⟨f, hf, by simp [hreadable]⟩
    rw [if_pos hreveals, hv]
    rfl

/-- An answer shows values as they are. -/
theorem get?_of_output {name : String} {v : Json} (h : (output m values).get? name = some v) :
    values.get? name = some v := by
  rw [get?_output] at h
  split at h
  · exact h
  · cases h

/-- The exact result of shaping, for a model whose fields have names of their
    own, any operation, any input and any storage.

    - It succeeds iff every field that allows the operation and has a value in
      the input can coerce it.
    - Its error is that of the first field in the order of the declaration that
      cannot, and names this field.
    - What it returns holds under the name of every field that has something to
      give what the field gives, defaults from the supply of this run included,
      and nothing else. A `null` stays `null`. Of this an answer shows the
      values of the readable fields.
    - Declared in another order, the fields have the same results, taken over
      all supplies. From the same supply the results differ at most where the
      default is the time or a fresh identifier.
    - What the input has for no field that allows the operation does not
      matter. -/
theorem input_exact {σ : Type} {m : Model} (hnames : (m.fields.map Field.name).Nodup)
    (op : Operation) (raw : Record) (driver : Storage.Driver σ) (w : World σ) :
    let run := (input m op raw).run driver w
    ((∃ values, run.1 = .ok values) ↔ ∀ f ∈ m.fields, f.allows op = true → ∀ u,
      raw.get? f.name = some u → ∃ v, coerce f.name f.type u = .ok v) ∧
    (∀ e, run.1 = .error e ↔ ∃ before f after, m.fields = before ++ f :: after ∧
      f.Refuses op raw e ∧ ∀ g ∈ before, ∀ e', ¬ g.Refuses op raw e') ∧
    (∀ (f : Field) e, f.Refuses op raw e → ∃ message, e = .validation f.name message) ∧
    (∀ values, run.1 = .ok values →
      Shaped (Default.Made w.supply run.2.supply) m.fields op raw values ∧
      (∀ f ∈ m.fields, f.allows op = true → raw.get? f.name = some .null →
        values.get? f.name = some .null) ∧
      (∀ name, ((output m values).get? name).isSome = true ↔
        ∃ f ∈ m.fields, f.name = name ∧ f.isReadable = true ∧ f.Fills op raw) ∧
      ∀ name v, (output m values).get? name = some v → values.get? name = some v) ∧
    (∀ m' : Model, m.fields.Perm m'.fields →
      (∀ values, (∃ s, ((input m' op raw).run driver ⟨s, w.store⟩).1 = .ok values) ↔
        ∃ s, ((input m op raw).run driver ⟨s, w.store⟩).1 = .ok values) ∧
      ∀ values values', run.1 = .ok values → ((input m' op raw).run driver w).1 = .ok values' →
        ∀ name, values'.get? name = values.get? name ∨ ∃ f ∈ m.fields, f.name = name ∧
          raw.get? name = none ∧ op = .create ∧ ∃ d, f.fallback = some d ∧ d.Drawn) ∧
    ∀ raw', Agree m op raw raw' → input m op raw' = input m op raw := by
  dsimp only
  simp only [run_input]
  refine ⟨?_, ?_, ?_, ?_, ?_, ?_⟩
  · rw [draw_input_ok]
    exact forall₂_congr fun f _ => not_refuses_iff
  · intro e
    rw [draw_input_error, findSome?_refuses]
  · intro f e hrefuses
    obtain ⟨-, u, -, he⟩ := hrefuses
    exact coerce_error he
  · intro values hvalues
    have hresult := draw_input_shaped hnames (Prod.ext hvalues rfl)
    refine ⟨hresult, ?_, hresult.output hnames, fun _ _ => get?_of_output⟩
    intro f hf
    exact hresult.null hf
  · intro m' hperm
    have hnames' : (m'.fields.map Field.name).Nodup := (hperm.map Field.name).nodup hnames
    constructor
    · intro values
      constructor
      · intro ⟨s, hs⟩
        exact exists_draw_input_perm hnames' hperm.symm hs
      · intro ⟨s, hs⟩
        exact exists_draw_input_perm hnames hperm hs
    · intro values values' hvalues hvalues' name
      have hmakes := draw_input_makes hnames hvalues
      have hmakes' := draw_input_makes hnames' hvalues'
      exact hmakes.agree (hmakes'.perm hperm.symm) name
  · intro raw' hagree
    exact (inputFields_congr hagree []).symm

/-- Tickets: the seats are written once and never shown, the time is filled in. -/
def ticketModel : ModelDecl where
  label := none
  storage := some "tickets"
  owner := none
  fields := [("_id", .short [.str "ObjectId", .str "r"]),
    ("title", .short [.str "String", .str "cru", .str "untitled"]),
    ("seats", .short [.str "Number", .str "c"]),
    ("at", .short [.str "Date", .str "cr", .str "$now"])]
  createHooks := []
  updateHooks := []

/-- A ticket without a title is created: the title stays `null` whatever the
    default, and the answer shows the time but not the seats. Seats that are no
    number are refused under their name. -/
theorem tickets_shaped : ∃ m, Schema.register "Ticket" ticketModel = .ok m ∧
    (m.fields.map Field.name).Nodup ∧
    (∃ values, ((input m .create [("seats", .str "2"), ("title", .null),
        ("vip", .bool true)]).run Memory.driver ⟨Supply.still, Memory.empty⟩).1 = .ok values ∧
      values.get? "title" = some .null ∧
      ((output m values).get? "at").isSome = true ∧
      ((output m values).get? "seats").isSome = false) ∧
    ∃ message, ((input m .create [("seats", .str "many")]).run Memory.driver
      ⟨Supply.still, Memory.empty⟩).1 = .error (.validation "seats" message) := by
  have htest : okAnd (Schema.register "Ticket" ticketModel) (fun m =>
      decide ((m.fields.map Field.name).Nodup) &&
      okAnd ((input m .create [("seats", .str "2"), ("title", .null),
        ("vip", .bool true)]).run Memory.driver ⟨Supply.still, Memory.empty⟩).1 (fun _ => true) &&
      m.fields.any (fun f => decide (f.name = "title") && f.allows .create) &&
      m.fields.any (fun f => decide (f.name = "at") && f.isReadable && f.allows .create &&
        f.fallback.isSome) &&
      m.fields.all (fun f => !(decide (f.name = "seats") && f.isReadable)) &&
      !okAnd ((input m .create [("seats", .str "many")]).run Memory.driver
        ⟨Supply.still, Memory.empty⟩).1 (fun _ => true)) = true := by
    decide +kernel
  obtain ⟨m, hm, htest⟩ := okAnd_iff.mp htest
  simp only [Bool.and_eq_true, decide_eq_true_eq, List.any_eq_true, List.all_eq_true,
    Bool.not_eq_true', Bool.and_eq_false_iff, decide_eq_false_iff_not] at htest
  obtain ⟨⟨⟨⟨⟨hnames, hok⟩, htitle⟩, hat⟩, hseats⟩, hfails⟩ := htest
  refine ⟨m, hm, hnames, ?_, ?_⟩
  · obtain ⟨values, hvalues, -⟩ := okAnd_iff.mp hok
    obtain ⟨-, -, -, hresult, -, -⟩ := input_exact hnames .create _ Memory.driver _
    obtain ⟨-, hnull, hshown, -⟩ := hresult values hvalues
    obtain ⟨title, htitle, hname, hallows⟩ := htitle
    refine ⟨values, hvalues, ?_, ?_, ?_⟩
    · rw [← hname]
      exact hnull title htitle hallows (by rw [hname]; rfl)
    · obtain ⟨f, hf, ⟨⟨hname, hreadable⟩, hallows⟩, hfallback⟩ := hat
      exact (hshown "at").mpr ⟨f, hf, hname, hreadable, hallows, .inr ⟨rfl, hfallback⟩⟩
    · rw [Bool.eq_false_iff]
      intro hshows
      obtain ⟨f, hf, hname, hreadable, -⟩ := (hshown "seats").mp hshows
      rcases hseats f hf with hother | hhidden
      · exact hother hname
      · rw [hreadable] at hhidden
        cases hhidden
  · obtain ⟨-, hfirst, hnamed, -⟩ :=
      input_exact hnames .create [("seats", .str "many")] Memory.driver ⟨Supply.still, Memory.empty⟩
    obtain ⟨e, he⟩ : ∃ e, ((input m .create [("seats", .str "many")]).run Memory.driver
        ⟨Supply.still, Memory.empty⟩).1 = .error e := by
      rw [exists_error_iff]
      rintro ⟨values, hvalues⟩
      rw [okAnd_iff.mpr ⟨values, hvalues, rfl⟩] at hfails
      cases hfails
    obtain ⟨before, f, after, -, hrefuses, -⟩ := (hfirst e).mp he
    obtain ⟨message, rfl⟩ := hnamed f e hrefuses
    -- the only name that the input has is the one that is refused
    have hname : f.name = "seats" := by
      obtain ⟨-, u, hu, -⟩ := hrefuses
      by_contra hother
      have hnone : Record.get? [("seats", .str "many")] f.name = none := by
        simp [Record.get?, Ne.symm hother]
      rw [hnone] at hu
      cases hu
    rw [hname] at he
    exact ⟨message, he⟩

end Shape

end RecordGate

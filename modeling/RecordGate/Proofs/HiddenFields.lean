import RecordGate.Proofs.Lockstep

/-! # Hidden fields

  A field that no answer shows and that no rule looks at does not leak: two
  storages that differ in such fields alone answer every session the same.

  **Key idea.** Agreement apart from the hidden fields of a model is a relation
  that its routes cannot see (`agreeOff_unseen`). All other routes are about
  collections that are equal, as the model shares its collection with no other.
-/

namespace RecordGate.Engine

open Storage

/-- A field of a model that answers do not show, that is not the owner, and
    that no rule on the model loads records by or projects first. -/
structure Hidden (cfg : Config) (m : Model) (k : String) : Prop where
  /-- The field is declared. -/
  declared : m.declares k = true
  /-- No answer shows it. -/
  unreadable : m.reveals k = false
  /-- It is not the owner. -/
  notOwner : m.owner ≠ some k
  /-- No rule loads records by it. -/
  notWhere : ∀ r ∈ cfg.routes, r.model = m → ∀ e ∈ r.rules, ∀ b ∈ e.2.binding, b.field ≠ k
  /-- No permission projects it from the loaded record. -/
  notRead : ∀ r ∈ cfg.routes, r.model = m → ∀ e ∈ r.rules, ∀ p ∈ e.2.permission.paths,
    p.root = m.bindingName → p.segments.head? ≠ some k

/-- No permission on a model is about the loaded record as a whole. -/
def Projects (cfg : Config) (m : Model) : Prop :=
  ∀ r ∈ cfg.routes, r.model = m → ∀ e ∈ r.rules, ∀ p ∈ e.2.permission.paths,
    p.root = m.bindingName → p.segments ≠ []

/-- Two records that are the same apart from hidden fields. -/
def AgreeOff (cfg : Config) (m : Model) (r r' : Record) : Prop :=
  ∀ k, ¬ Hidden cfg m k → r.get? k = r'.get? k

/-- Two storages that are the same apart from hidden fields in the records of a
    model. -/
structure Equivalent (cfg : Config) (m : Model) (store store' : Memory) : Prop where
  /-- The collection of the model has records that agree, one by one. -/
  rows : List.Forall₂ (AgreeOff cfg m) (store.rows m.collection) (store'.rows m.collection)
  /-- All other collections are equal. -/
  others : ∀ c, m.collection ≠ c → store.rows c = store'.rows c

variable {text : String} {cfg : Config} {m : Model} {route : Route} {k : String}

/-! ### What the routes of the model see -/

/-- The identifier is never hidden, because answers show it. -/
theorem not_hidden_identifier (hm : m.Checked) : ¬ Hidden cfg m idField := by
  intro h
  obtain ⟨f, hf, -, -, -, hread, -⟩ := hm.identifier
  have hname : f.name = idField := by simpa using List.find?_some hf
  have hreveals : m.reveals idField = true := by
    refine List.any_eq_true.mpr ⟨f, List.mem_of_find?_eq_some hf, ?_⟩
    rw [decide_eq_true hname, Bool.true_and]
    exact hread
  rw [h.unreadable] at hreveals
  cases hreveals

theorem agreeOff_alike (hm : route.model.Checked) (hroute : route ∈ cfg.routes)
    (hprojects : Projects cfg route.model) {r r' : Record} (h : AgreeOff cfg route.model r r') :
    Alike route r r' where
  identifier := h idField (not_hidden_identifier hm)
  owner o ho := h o fun hidden => hidden.notOwner ho
  bound action rule b hrule hb :=
    h b.field fun hidden => hidden.notWhere route hroute rfl _ (Rules.mem_of_get? hrule) b hb rfl
  permission action rule hrule c := by
    refine Expr.evaluate_congr fun p hp => Path.resolve_bind_congr fun hroot => ?_
    have hmem : (action, rule) ∈ route.rules := Rules.mem_of_get? hrule
    cases hsegments : p.segments with
    | nil => exact absurd hsegments (hprojects route hroute rfl _ hmem p hp hroot)
    | cons k rest =>
      -- a hidden field is never projected first
      refine ⟨k, rest, rfl, h k fun hidden => ?_⟩
      exact hidden.notRead route hroute rfl _ hmem p hp hroot (by rw [hsegments]; rfl)
  shown := by
    have houtput : Shape.output route.model r = Shape.output route.model r' := by
      refine Shape.output_congr fun k hk => h k fun hidden => ?_
      rw [hidden.unreadable] at hk
      cases hk
    unfold shown
    rw [houtput]

theorem agreeOff_unseen (hm : route.model.Checked) (hroute : route ∈ cfg.routes)
    (hprojects : Projects cfg route.model) : Unseen route (AgreeOff cfg route.model) where
  alike h := agreeOff_alike hm hroute hprojects h
  merge h values := fun k hk => Record.get?_merge_congr values (h k hk)
  refl _ := fun _ _ => rfl

/-! ### Every collection -/

/-- Agreement apart from hidden fields in one collection, and equality in all
    others. -/
def Blurred (cfg : Config) (m : Model) (c : String) (r r' : Record) : Prop :=
  if m.collection = c then AgreeOff cfg m r r' else r = r'

theorem blurred_eq_agreeOff (cfg : Config) (m : Model) :
    Blurred cfg m m.collection = AgreeOff cfg m := by
  funext r r'
  exact if_pos rfl

theorem blurred_eq_eq {c : String} (hc : m.collection ≠ c) : Blurred cfg m c = Eq := by
  funext r r'
  exact if_neg hc

theorem eq_unseen (route : Route) : Unseen route Eq where
  alike h := by
    subst h
    exact ⟨rfl, fun _ _ => rfl, fun _ _ _ _ _ => rfl, fun _ _ _ _ => rfl, rfl⟩
  merge h values := by rw [h]
  refl _ := rfl

/-- No route of the configuration sees the hidden fields. -/
theorem blurred_unseen (hcfg : Config.ofText text = .ok cfg) (hm : SoleModel cfg m)
    (hprojects : Projects cfg m) (hroute : route ∈ cfg.routes) :
    Unseen route (Blurred cfg m route.model.collection) := by
  have hmodel := (Config.ofText_compiled hcfg route hroute).model
  -- a route on the collection is a route on the model, and all others see no difference
  by_cases hc : m.collection = route.model.collection
  · have hsame : route.model = m := hm.only route.model hmodel hc.symm
    rw [← hsame, blurred_eq_agreeOff]
    have hchecked : route.model.Checked := (Config.ofText_built hcfg).checked _ hmodel
    exact agreeOff_unseen hchecked hroute (hsame.symm ▸ hprojects)
  · rw [blurred_eq_eq hc]
    exact eq_unseen route

theorem Equivalent.related {w w' : World Memory} (h : Equivalent cfg m w.store w'.store)
    (hsupply : w.supply = w'.supply) : Related (Blurred cfg m) w w' where
  supply := hsupply
  rows c := by
    by_cases hc : m.collection = c
    · subst hc
      rw [blurred_eq_agreeOff]
      exact h.rows
    · rw [blurred_eq_eq hc, List.forall₂_eq_eq_eq]
      exact h.others c hc

theorem Related.equivalent {w w' : World Memory} (h : Related (Blurred cfg m) w w') :
    Equivalent cfg m w.store w'.store where
  rows := by
    have hrows := h.rows m.collection
    rw [blurred_eq_agreeOff] at hrows
    exact hrows
  others c hc := by
    have hrows := h.rows c
    rw [blurred_eq_eq hc, List.forall₂_eq_eq_eq] at hrows
    exact hrows

/-! ### Every session -/

/-- Under a checked configuration, over storages that differ in hidden fields
    alone, every session gives the same results, draws the same from the
    supply and leaves storages that differ in hidden fields alone. -/
theorem hidden_never_leak (hcfg : Config.ofText text = .ok cfg) (hm : SoleModel cfg m)
    (hprojects : Projects cfg m) {visits : List Visit}
    (hvisits : ∀ v ∈ visits, v.route ∈ cfg.routes) {w w' : World Memory}
    (hsupply : w.supply = w'.supply) (h : Equivalent cfg m w.store w'.store)
    (htexts : ∀ c, Texts (w.store.rows c)) :
    results visits w = results visits w' ∧
      (session visits w).supply = (session visits w').supply ∧
      Equivalent cfg m (session visits w).store (session visits w').store := by
  have hunseen : ∀ r ∈ cfg.routes, Unseen r (Blurred cfg m r.model.collection) :=
    fun r hr => blurred_unseen hcfg hm hprojects hr
  obtain ⟨hresults, hrelated⟩ :=
    session_related hcfg hunseen hvisits (h.related hsupply) htexts
  exact ⟨hresults, hrelated.supply, hrelated.equivalent⟩

/-- With one route, what is hidden can be read off its rules. -/
theorem hidden_of_single (hroutes : cfg.routes = [route])
    (hdeclared : m.declares k = true) (hunreadable : m.reveals k = false)
    (howner : m.owner ≠ some k)
    (hrules : ∀ e ∈ route.rules, (∀ b ∈ e.2.binding, b.field ≠ k) ∧
      ∀ p ∈ e.2.permission.paths, p.root = m.bindingName →
        p.segments ≠ [] ∧ p.segments.head? ≠ some k) :
    Projects cfg m ∧ Hidden cfg m k := by
  have hroute : ∀ r ∈ cfg.routes, r = route := by
    intro r hr
    rw [hroutes] at hr
    exact List.mem_singleton.mp hr
  refine ⟨?_, ⟨hdeclared, hunreadable, howner, ?_, ?_⟩⟩
  · intro r hr _ e he p hp hroot
    rw [hroute r hr] at he
    exact ((hrules e he).2 p hp hroot).1
  · intro r hr _ e he
    rw [hroute r hr] at he
    exact (hrules e he).1
  · intro r hr _ e he p hp hroot
    rw [hroute r hr] at he
    exact ((hrules e he).2 p hp hroot).2

/-- A note of Ann's that was taken at some time. -/
def takenAt (time : String) : Record :=
  [("_id", .str "64b00000000000000000000a"), ("at", .str time), ("by", .str "ann")]

/-- A world in which it is all that is stored. -/
def noteWorld (time : String) : World Memory :=
  alone "notes" [takenAt time] Supply.still

/-- Ann's update of the note that leaves it as it is. -/
def keepNote (route : Route) : Visit :=
  ⟨route, .update, ⟨[("_id", "64b00000000000000000000a")], none,
    .authenticated ⟨"ann", [], none, none, []⟩⟩⟩

/-- When a note was taken is written, but never shown: Ann's updates succeed
    and are answered the same, whenever that was. -/
theorem notes_hidden :
    ∃ cfg route, Config.ofText Config.notes = .ok cfg ∧ route ∈ cfg.routes ∧
      let visits : List Visit := [keepNote route, keepNote route]
      (results visits (noteWorld "noon")).all (okAnd · fun r => r.status == 200) = true ∧
        results visits (noteWorld "noon") = results visits (noteWorld "dusk") := by
  have htest : okAnd (Config.ofDecl Config.notesDecl) (fun cfg => cfg.onlyAnd fun m route =>
      m.declares "at" && decide (m.reveals "at" = false) && decide (m.owner ≠ some "at") &&
      decide (∀ e ∈ route.rules, (∀ b ∈ e.2.binding, b.field ≠ "at") ∧
        ∀ p ∈ e.2.permission.paths, p.root = m.bindingName →
          p.segments ≠ [] ∧ p.segments.head? ≠ some "at") &&
      decide (m.collection = "notes") &&
      (results [keepNote route, keepNote route] (noteWorld "noon")).all
        (okAnd · fun r => r.status == 200)) = true := by decide +kernel
  obtain ⟨cfg, hdecl, htest⟩ := okAnd_iff.mp htest
  have hcfg : Config.ofText Config.notes = .ok cfg := Config.ofText_notes.trans hdecl
  obtain ⟨m, route, hmodels, hroutes, htest⟩ := Config.onlyAnd_iff.mp htest
  have hm : SoleModel cfg m := soleModel_of_single hmodels
  simp only [Bool.and_eq_true, decide_eq_true_eq] at htest
  obtain ⟨⟨⟨⟨⟨hdeclared, hunreadable⟩, howner⟩, hrules⟩, hcollection⟩, hsucceed⟩ := htest
  obtain ⟨hprojects, hhidden⟩ := hidden_of_single hroutes hdeclared hunreadable howner hrules
  have hroute : route ∈ cfg.routes := by
    rw [hroutes]
    exact List.mem_singleton.mpr rfl
  refine ⟨cfg, route, hcfg, hroute, ?_⟩
  intro visits
  have hagree : AgreeOff cfg m (takenAt "noon") (takenAt "dusk") := by
    intro k hk
    have hat : "at" ≠ k := by
      rintro rfl
      exact hk hhidden
    unfold takenAt
    simp only [Record.get?_cons, if_neg hat]
  have hequivalent : Equivalent cfg m (noteWorld "noon").store (noteWorld "dusk").store := by
    unfold noteWorld
    constructor
    · rw [hcollection, rows_alone, rows_alone]
      exact .cons hagree .nil
    · intro c hc
      rw [hcollection] at hc
      rw [rows_alone_other hc, rows_alone_other hc]
  have hnote : Texts [takenAt "noon"] := by
    intro r hr
    rw [List.mem_singleton.mp hr]
    exact ⟨_, rfl⟩
  have htexts : ∀ c, Texts ((noteWorld "noon").store.rows c) :=
    rows_alone_of hnote texts_nil "notes" Supply.still
  have hvisits : ∀ v ∈ visits, v.route ∈ cfg.routes := by
    intro v hv
    have hsame : v = keepNote route := by simpa [visits] using hv
    rw [hsame]
    exact hroute
  have hsupply : (noteWorld "noon").supply = (noteWorld "dusk").supply := rfl
  exact ⟨hsucceed, (hidden_never_leak hcfg hm hprojects hvisits hsupply hequivalent htexts).1⟩

end RecordGate.Engine

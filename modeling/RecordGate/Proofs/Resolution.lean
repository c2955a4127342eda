import RecordGate.Proofs.ValueEquality

/-! # Where a path leads

  A path is resolved from its end: the last field is looked for in the value of
  the path without it. What this comes to is a walk from the root through the
  fields in their order.

  - `Walk`, `Path.Leads`: the walk, as a relation. It stops at `null`, at a name
    that is missing and at a value that is no object.
  - `Path.resolve_eq_some`: resolving finds where the walk leads.
  - `Path.resolve_congr`, `Expr.evaluate_congr_roots`: of a context, only the
    values under the roots count.
  - `Expr.holds_iff_leads`: when a permission holds.
-/

namespace RecordGate

/-- Names lead from a value to another one, each to a member of the value that
    the ones before it lead to. No value on the way is `null`. -/
inductive Walk : Json → List String → Json → Prop where
  /-- Without names the walk stays where it is. -/
  | stay {v : Json} (present : v ≠ .null) : Walk v [] v
  /-- The first name is that of a member, and the others lead on from there. -/
  | step {r : Record} {name : String} {names : List String} {v w : Json}
      (held : r.get? name = some v) (rest : Walk v names w) : Walk (.obj r) (name :: names) w

/-- A path leads from the value under its root along its segments. -/
def Path.Leads (p : Path) (c : Context) (w : Json) : Prop :=
  ∃ v, c.get? p.root = some v ∧ Walk v p.segments w

variable {c : Context} {p : Path} {u v w : Json} {name : String} {names : List String}

/-! ### Walks -/

theorem Walk.present (h : Walk v names w) : v ≠ .null ∧ w ≠ .null := by
  induction h with
  | stay present => exact ⟨present, present⟩
  | step _ _ ih => exact ⟨nofun, ih.2⟩

/-- A walk leads to one value at most. -/
theorem Walk.unique (hv : Walk u names v) (hw : Walk u names w) : v = w := by
  induction hv with
  | stay _ =>
    cases hw
    rfl
  | step held _ ih =>
    cases hw with
    | step held' rest =>
      rw [held] at held'
      cases held'
      exact ih rest

theorem Path.present_eq_some {found : Option Json} :
    present found = some w ↔ found = some w ∧ w ≠ .null := by
  unfold present
  split
  · simp [eq_comm]
  next hfound => exact ⟨fun h => ⟨h, fun hw => hfound (hw ▸ h)⟩, fun h => h.1⟩

/-- A projection finds a member that is not `null`. -/
theorem Path.project_eq_some :
    project v name = some w ↔ ∃ r : Record, v = .obj r ∧ r.get? name = some w ∧ w ≠ .null := by
  unfold project
  cases v with
  | obj r => simp [present_eq_some]
  | _ => simp

/-- One name more at the end is one projection more. -/
theorem walk_concat :
    Walk u (names ++ [name]) w ↔ ∃ v, Walk u names v ∧ Path.project v name = some w := by
  constructor
  · intro h
    induction names generalizing u with
    | nil =>
      cases h with
      | step held rest =>
        cases rest with
        | stay present => exact ⟨_, .stay nofun, Path.project_eq_some.mpr ⟨_, rfl, held, present⟩⟩
    | cons first names ih =>
      cases h with
      | step held rest =>
        obtain ⟨v, hwalk, hproject⟩ := ih rest
        exact ⟨v, .step held hwalk, hproject⟩
  · rintro ⟨v, hwalk, hproject⟩
    obtain ⟨r, rfl, hheld, hpresent⟩ := Path.project_eq_some.mp hproject
    clear hproject
    -- the walk so far ends at an object, wherever it started
    generalize hr : Json.obj r = v at hwalk
    induction hwalk with
    | stay _ =>
      subst hr
      exact .step hheld (.stay hpresent)
    | step held _ ih => exact .step held (ih hr)

/-- A member holds no other numbers than the object. -/
theorem Record.numbers_get? {r : Record} {k : String} (h : r.get? k = some v) :
    ∀ x ∈ v.numbers, x ∈ Json.numbersOfMembers r := by
  intro x hx
  induction r with
  | nil => cases h
  | cons entry rest ih =>
    obtain ⟨j, u⟩ := entry
    rw [get?_cons] at h
    unfold Json.numbersOfMembers
    split at h
    · cases h
      exact List.mem_append_left _ hx
    · exact List.mem_append_right _ (ih h)

/-- What a value that JSON can hold leads to is such a value. -/
theorem Walk.legal (h : Walk v names w) (hv : v.Legal) : w.Legal := by
  induction h with
  | stay _ => exact hv
  | step held _ ih => exact ih fun x hx => hv x (Record.numbers_get? held x hx)

namespace Path

/-- A path is resolved to the value that it leads to. -/
theorem resolve_eq_some : p.resolve c = some w ↔ p.Leads c w := by
  -- the last field is the outermost, so it ends the walk along the others
  induction p generalizing w with
  | base name =>
    show present (c.get? name) = some w ↔ _
    rw [present_eq_some]
    constructor
    · rintro ⟨hroot, hpresent⟩
      exact ⟨w, hroot, .stay hpresent⟩
    · rintro ⟨v, hroot, hwalk⟩
      cases hwalk with
      | stay present => exact ⟨hroot, present⟩
  | field parent name ih =>
    have hstep : (parent.field name).resolve c =
        (parent.resolve c).bind fun v => project v name := by
      rw [resolve]
      cases parent.resolve c <;> rfl
    rw [hstep, Option.bind_eq_some_iff]
    constructor
    · rintro ⟨v, hparent, hproject⟩
      obtain ⟨u, hroot, hwalk⟩ := ih.mp hparent
      exact ⟨u, hroot, walk_concat.mpr ⟨v, hwalk, hproject⟩⟩
    · rintro ⟨u, hroot, hwalk⟩
      obtain ⟨v, hwalk, hproject⟩ := walk_concat.mp hwalk
      exact ⟨v, ih.mpr ⟨u, hroot, hwalk⟩, hproject⟩

/-! ### What a path does not look at -/

/-- A path from a root that is not bound leads nowhere. -/
theorem resolve_of_unbound (h : c.get? p.root = none) : p.resolve c = none := by
  refine Option.eq_none_iff_forall_ne_some.mpr fun w hw => ?_
  obtain ⟨v, hroot, -⟩ := resolve_eq_some.mp hw
  rw [h] at hroot
  cases hroot

/-- Of a context, a path looks at the value under its root. -/
theorem resolve_congr {c' : Context} (h : c.get? p.root = c'.get? p.root) :
    p.resolve c = p.resolve c' := by
  refine Option.ext fun w => ?_
  rw [resolve_eq_some, resolve_eq_some]
  unfold Leads
  rw [h]

/-- A path cannot tell two records apart that agree on its first field. -/
theorem resolve_bind_congr {root : String} {r r' : Record}
    (h : p.root = root → ∃ k rest, p.segments = k :: rest ∧ r.get? k = r'.get? k) :
    p.resolve (c.bind root (.obj r)) = p.resolve (c.bind root (.obj r')) := by
  by_cases hroot : root = p.root
  · -- the first step leads to the same value, and the rest goes on from there
    obtain ⟨k, rest, hsegments, hk⟩ := h hroot.symm
    have hwalk : ∀ {x y : Record} {w}, x.get? k = y.get? k →
        Walk (.obj x) (k :: rest) w → Walk (.obj y) (k :: rest) w := by
      intro x y w hxy hx
      cases hx with
      | step held rest => exact .step (hxy ▸ held) rest
    refine Option.ext fun w => ?_
    rw [resolve_eq_some, resolve_eq_some]
    unfold Leads
    simp only [Context.get?_bind, if_pos hroot, hsegments, Option.some.injEq, exists_eq_left']
    exact ⟨hwalk hk, hwalk hk.symm⟩
  · apply resolve_congr
    rw [Context.get?_bind, Context.get?_bind, if_neg hroot, if_neg hroot]

end Path

/-! ### Permissions -/

namespace Expr
variable {e : Expr} {c' : Context}

theorem evaluate_congr (h : ∀ p ∈ e.paths, p.resolve c = p.resolve c') :
    e.evaluate c = e.evaluate c' := by
  have hleft : e.left.resolve c = e.left.resolve c' := h _ List.mem_cons_self
  have hright : e.right.resolve c = e.right.resolve c' :=
    h _ (List.mem_cons_of_mem _ List.mem_cons_self)
  unfold evaluate
  rw [hleft, hright]

/-- Of a context, a permission looks at the values under its roots. -/
theorem evaluate_congr_roots (h : ∀ root ∈ e.roots, c.get? root = c'.get? root) :
    e.evaluate c = e.evaluate c' :=
  evaluate_congr fun p hp => Path.resolve_congr (forall_mem_roots.mp h p hp)

/-- A permission with a root that is not bound does not hold. -/
theorem holds_of_unbound {p : Path} (hp : p ∈ e.paths) (h : c.get? p.root = none) :
    e.holds c = false := by
  refine Bool.eq_false_iff.mpr fun hholds => ?_
  obtain ⟨a, b, hleft, hright, -⟩ := holds_iff.mp hholds
  have hnone := p.resolve_of_unbound h
  obtain rfl | rfl : p = e.left ∨ p = e.right := by simpa [paths] using hp
  · rw [hnone] at hleft
    cases hleft
  · rw [hnone] at hright
    cases hright

/-- A path compared with itself holds exactly if it leads somewhere. -/
theorem holds_same_iff (hc : ∀ root v, c.get? root = some v → v.Legal) (p : Path) :
    (⟨p, p⟩ : Expr).holds c = true ↔ ∃ v, p.Leads c v := by
  rw [holds_iff]
  constructor
  · rintro ⟨a, -, ha, -, -⟩
    exact ⟨a, Path.resolve_eq_some.mp ha⟩
  · rintro ⟨v, hv⟩
    have hresolve := Path.resolve_eq_some.mpr hv
    obtain ⟨u, hroot, hwalk⟩ := hv
    exact ⟨v, v, hresolve, hresolve,
      Json.matches_self (hwalk.legal (hc _ u hroot)) hwalk.present.2⟩

/-- A permission holds exactly if both paths lead to values and these match.
    So it does not hold with a root that is not bound, a path compared with
    itself holds exactly if it leads somewhere, and a binding under another
    name than those of the roots changes nothing. -/
theorem holds_iff_leads (e : Expr) (c : Context) :
    (e.holds c = true ↔
      ∃ a b, e.left.Leads c a ∧ e.right.Leads c b ∧ a.matches b = true) ∧
    (∀ (p : Path) (v w : Json), p.Leads c v → p.Leads c w → v = w) ∧
    (∀ root ∈ e.roots, c.get? root = none → e.holds c = false) ∧
    ((∀ root v, c.get? root = some v → v.Legal) →
      ∀ p : Path, (⟨p, p⟩ : Expr).holds c = true ↔ ∃ v, p.Leads c v) ∧
    (∀ name ∉ e.roots, ∀ v, e.evaluate (c.bind name v) = e.evaluate c) := by
  refine ⟨?walks, ?unique, ?unbound, holds_same_iff, ?rebound⟩
  case walks => simp only [holds_iff, Path.resolve_eq_some]
  case unique =>
    rintro p v w ⟨u, hroot, hv⟩ ⟨u', hroot', hw⟩
    rw [hroot] at hroot'
    cases hroot'
    exact hv.unique hw
  case unbound => exact forall_mem_roots.mpr fun p hp h => holds_of_unbound hp h
  case rebound =>
    intro name hname v
    refine evaluate_congr_roots fun root hroot => ?_
    rw [Context.get?_bind, if_neg fun h : name = root => hname (h ▸ hroot)]

/-- In the context of a note that nobody wrote, there is a day, a caller that is
    not bound denies, and the author leads nowhere. -/
theorem holds_iff_leads_note :
    ∃ c : Context, c.get? "note" = some (.obj [("at", .obj [("day", .num (.int 3))]), ("by", .null)]) ∧
      (⟨.field (.field (.base "note") "at") "day", .field (.field (.base "note") "at") "day"⟩ :
        Expr).holds c = true ∧
      (¬ ∃ v, (Path.field (.base "note") "by").Leads c v) ∧
      (⟨.field (.base "note") "by", .field (.base callerRoot) idField⟩ : Expr).holds c = false ∧
      (⟨.field (.base "note") "at", .field (.base "note") "by"⟩ : Expr).evaluate
          (c.bind callerRoot .null) =
        (⟨.field (.base "note") "at", .field (.base "note") "by"⟩ : Expr).evaluate c := by
  let c := Context.empty.bind "note"
    (.obj [("at", .obj [("day", .num (.int 3))]), ("by", .null)])
  have hlegal : ∀ root v, c.get? root = some v → v.Legal := by
    intro root v hv
    rw [Context.get?_bind] at hv
    split at hv
    · cases hv
      intro x hx
      rw [List.mem_singleton.mp hx]
      show Number.InRange 3
      decide
    · cases hv
  have hsame := (holds_iff_leads default c).2.2.2.1 hlegal
  refine ⟨c, rfl, ?day, ?author, ?unbound, ?rebound⟩
  case day => exact (hsame _).mpr ⟨.num (.int 3), _, rfl, .step rfl (.step rfl (.stay nofun))⟩
  case author =>
    rw [← hsame]
    decide +kernel
  case unbound => exact (holds_iff_leads _ c).2.2.1 callerRoot (by decide) (by decide)
  case rebound => exact (holds_iff_leads _ c).2.2.2.2 callerRoot (by decide) _

end Expr

end RecordGate

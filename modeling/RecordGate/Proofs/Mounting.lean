import Mathlib.Data.List.Pairwise
import Mathlib.Data.String.Basic
import RecordGate.Service.Mount

/-! # Mounting without faults

  Endpoints get into the router one by one, each to the others of its path.

  **Key idea.** A router is followed through what it serves (`Serves`): which
  endpoint is at which path. `addMounted_ok` says when an endpoint can be added,
  `addMounted_eq_ok` where, and `Added.serves` what that changes. So `mount_ok`
  is an induction over the endpoints: those whose paths look alike must have the
  same path and different methods.

  - `shape_mountPath` and `shape_mountPath_item`: how the paths of routes look
    in the router.
-/

namespace RecordGate.Service

/-! ### Paths in the router -/

theorem mountSegment_plain {segment : List Char} (h : ':' ∉ segment) :
    mountSegment segment = segment := by
  unfold mountSegment
  split
  · exact absurd List.mem_cons_self h
  · rfl

theorem shapeSegment_plain {segment : List Char} (h : '\x7b' ∉ segment) :
    shapeSegment segment = some segment := by
  unfold shapeSegment
  split
  · exact absurd List.mem_cons_self h
  · rfl

theorem map_mountSegment_plain {cs : List Char} (h : ':' ∉ cs) :
    (Text.splitOn '/' cs).map mountSegment = Text.splitOn '/' cs := by
  have hid : (Text.splitOn '/' cs).map mountSegment = (Text.splitOn '/' cs).map id := by
    apply List.map_congr_left
    intro segment hsegment
    apply mountSegment_plain
    intro hcolon
    exact h (Text.mem_of_mem_splitOn hsegment hcolon)
  rw [hid, List.map_id]

/-- A path without parameters stands in the router as it is. -/
theorem mountPath_plain {path : String} (h : ':' ∉ path.toList) : mountPath path = path := by
  unfold mountPath
  rw [map_mountSegment_plain h, Text.intercalate_splitOn, String.ofList_toList]

theorem shape_plain {path : String} (h : '\x7b' ∉ path.toList) :
    shape path = (Text.splitOn '/' path.toList).map some := by
  unfold shape
  apply List.map_congr_left
  intro segment hsegment
  apply shapeSegment_plain
  intro hbrace
  exact h (Text.mem_of_mem_splitOn hsegment hbrace)

/-- The path of a collection fits itself alone. -/
theorem shape_mountPath {path : String} (hcolon : ':' ∉ path.toList)
    (hbrace : '\x7b' ∉ path.toList) :
    shape (mountPath path) = (Text.splitOn '/' path.toList).map some := by
  rw [mountPath_plain hcolon, shape_plain hbrace]

/-- A record stands in the router behind its collection, its parameter in
    braces. -/
theorem toList_mountPath_item {path param : String} (hcolon : ':' ∉ path.toList)
    (hslash : '/' ∉ param.toList) :
    (mountPath (path ++ "/:" ++ param)).toList =
      path.toList ++ '/' :: ('\x7b' :: (param.toList ++ ['\x7d'])) := by
  have hitem : (path ++ "/:" ++ param).toList = path.toList ++ '/' :: (':' :: param.toList) := by
    rw [String.toList_append, String.toList_append, List.append_assoc]
    rfl
  have hparam : '/' ∉ ':' :: param.toList := by simp [hslash]
  have hbraced : '/' ∉ '\x7b' :: (param.toList ++ ['\x7d']) := by simp [hslash]
  -- the router's path is cut where the path of the endpoint is
  have hpieces : (Text.splitOn '/' (path ++ "/:" ++ param).toList).map mountSegment =
      Text.splitOn '/' (path.toList ++ '/' :: ('\x7b' :: (param.toList ++ ['\x7d']))) := by
    rw [hitem, Text.splitOn_append, Text.splitOn_append, Text.splitOn_of_not_mem hparam,
      Text.splitOn_of_not_mem hbraced, List.map_append, map_mountSegment_plain hcolon]
    rfl
  unfold mountPath
  rw [hpieces, Text.intercalate_splitOn, String.toList_ofList]

theorem splitOn_mountPath_item {path param : String} (hcolon : ':' ∉ path.toList)
    (hslash : '/' ∉ param.toList) :
    Text.splitOn '/' (mountPath (path ++ "/:" ++ param)).toList =
      Text.splitOn '/' path.toList ++ ['\x7b' :: (param.toList ++ ['\x7d'])] := by
  have hbraced : '/' ∉ '\x7b' :: (param.toList ++ ['\x7d']) := by simp [hslash]
  rw [toList_mountPath_item hcolon hslash, Text.splitOn_append, Text.splitOn_of_not_mem hbraced]

/-- The path of a record fits that of its collection with anything behind it. -/
theorem shape_mountPath_item {path param : String} (hcolon : ':' ∉ path.toList)
    (hbrace : '\x7b' ∉ path.toList) (hslash : '/' ∉ param.toList) :
    shape (mountPath (path ++ "/:" ++ param)) =
      (Text.splitOn '/' path.toList).map some ++ [none] := by
  have hplain := shape_plain hbrace
  unfold shape at hplain ⊢
  rw [splitOn_mountPath_item hcolon hslash, List.map_append, hplain]
  rfl

/-! ### What a router serves -/

/-- An endpoint is at a path of the router. -/
def Serves (ms : List Mounted) (path : String) (e : Endpoint) : Prop :=
  ∃ m ∈ ms, m.path = path ∧ e ∈ m.endpoints

/-- The paths are in order, and there is something at each. -/
structure Tidy (ms : List Mounted) : Prop where
  /-- The paths are in order. -/
  sorted : ms.Pairwise fun a b => a.path < b.path
  /-- There is something at each path. -/
  filled : ∀ m ∈ ms, m.endpoints ≠ []

variable {e x : Endpoint} {es : List Endpoint} {m : Mounted} {ms ms' : List Mounted}
  {path : String}

theorem serves_cons : Serves (m :: ms) path x ↔
    (m.path = path ∧ x ∈ m.endpoints) ∨ Serves ms path x := by
  unfold Serves
  simp only [List.mem_cons, exists_eq_or_imp]

theorem serves_append {ms₁ ms₂ : List Mounted} :
    Serves (ms₁ ++ ms₂) path x ↔ Serves ms₁ path x ∨ Serves ms₂ path x := by
  unfold Serves
  simp only [List.mem_append, or_and_right, exists_or]

/-- An endpoint can be added if none at its path has its method. -/
theorem addMounted_ok (h : ∀ x, Serves ms (mountPath e.path) x → x.method ≠ e.method) :
    ∃ ms', addMounted e ms = .ok ms' := by
  induction ms with
  | nil => exact ⟨_, rfl⟩
  | cons m rest ih =>
    unfold addMounted
    by_cases hpath : m.path = mountPath e.path
    · have hfree : ¬ (m.endpoints.any fun other => other.method = e.method) = true := by
        intro htaken
        obtain ⟨other, hother, hmethod⟩ := List.any_eq_true.mp htaken
        exact h other (serves_cons.mpr (.inl ⟨hpath, hother⟩)) (of_decide_eq_true hmethod)
      rw [if_pos hpath, if_neg hfree]
      exact ⟨_, rfl⟩
    · rw [if_neg hpath]
      by_cases hlt : mountPath e.path < m.path
      · rw [if_pos hlt]
        exact ⟨_, rfl⟩
      · rw [if_neg hlt]
        obtain ⟨rest', hrest'⟩ := ih fun x hx => h x (serves_cons.mpr (.inr hx))
        rw [hrest']
        exact ⟨_, rfl⟩

/-- How an endpoint is added: behind the smaller paths and before the greater
    ones, to what was at its path. -/
structure Added (e : Endpoint) (ms ms' before : List Mounted) (old : Option Mounted)
    (after : List Mounted) : Prop where
  /-- The router before. -/
  was : ms = before ++ (old.toList ++ after)
  /-- The smaller paths. -/
  smaller : ∀ m ∈ before, m.path < mountPath e.path
  /-- What was at the path. -/
  same : ∀ m ∈ old, m.path = mountPath e.path
  /-- The greater paths. -/
  greater : ∀ m ∈ after, mountPath e.path < m.path
  /-- The router afterwards. -/
  becomes : ms' =
    before ++ ⟨mountPath e.path, (old.elim [] Mounted.endpoints) ++ [e]⟩ :: after

theorem addMounted_eq_ok (ht : Tidy ms) (h : addMounted e ms = .ok ms') :
    ∃ before old after, Added e ms ms' before old after := by
  induction ms generalizing ms' with
  | nil =>
    cases h
    exact ⟨[], none, [], rfl, nofun, nofun, nofun, rfl⟩
  | cons first rest ih =>
    obtain ⟨hfirst, hrest⟩ := List.pairwise_cons.mp ht.sorted
    unfold addMounted at h
    split at h
    next hpath =>
      split at h
      · cases h
      · cases h
        refine ⟨[], some first, rest, rfl, nofun, ?_, ?_, by rw [hpath]; rfl⟩
        · intro m hm
          cases hm
          exact hpath
        · rw [← hpath]
          exact hfirst
    next hne =>
      split at h
      next hlt =>
        cases h
        refine ⟨[], none, first :: rest, rfl, nofun, nofun, ?_, rfl⟩
        intro m hm
        rcases List.mem_cons.mp hm with rfl | hm
        · exact hlt
        · exact lt_trans hlt (hfirst m hm)
      next hnlt =>
        cases hadd : addMounted e rest with
        | error fault =>
          rw [hadd] at h
          cases h
        | ok rest' =>
          rw [hadd] at h
          cases h
          have htidy : Tidy rest := ⟨hrest, fun m hm => ht.filled m (List.mem_cons_of_mem _ hm)⟩
          obtain ⟨before, old, after, hadded⟩ := ih htidy hadd
          refine ⟨first :: before, old, after, by rw [hadded.was]; rfl, ?_, hadded.same,
            hadded.greater, by rw [hadded.becomes]; rfl⟩
          intro m hm
          rcases List.mem_cons.mp hm with rfl | hm
          · exact lt_of_le_of_ne (not_lt.mp hnlt) hne
          · exact hadded.smaller m hm

/-- Adding an endpoint puts it at its path and leaves all others where they
    are. -/
theorem Added.serves {before after : List Mounted} {old : Option Mounted}
    (h : Added e ms ms' before old after) :
    Serves ms' path x ↔ Serves ms path x ∨ (mountPath e.path = path ∧ x = e) := by
  obtain ⟨rfl, -, hsame, -, rfl⟩ := h
  rw [serves_append, serves_append, serves_cons, List.mem_append, List.mem_singleton]
  cases old with
  | none =>
    have hnothing : x ∉ ([] : List Endpoint) := List.not_mem_nil
    simp only [Option.toList_none, List.nil_append, Option.elim_none]
    tauto
  | some m =>
    have hpath : m.path = mountPath e.path := hsame m rfl
    simp only [Option.toList_some, List.singleton_append, Option.elim_some]
    rw [serves_cons, hpath]
    tauto

theorem Added.tidy {before after : List Mounted} {old : Option Mounted}
    (h : Added e ms ms' before old after) (ht : Tidy ms) : Tidy ms' := by
  obtain ⟨rfl, hsmaller, -, hgreater, rfl⟩ := h
  obtain ⟨hbefore, hbehind, -⟩ := List.pairwise_append.mp ht.sorted
  obtain ⟨-, hafter, -⟩ := List.pairwise_append.mp hbehind
  constructor
  case sorted =>
    refine List.pairwise_append.mpr ⟨hbefore, List.pairwise_cons.mpr ⟨hgreater, hafter⟩, ?_⟩
    intro a ha b hb
    rcases List.mem_cons.mp hb with rfl | hb
    · exact hsmaller a ha
    · exact lt_trans (hsmaller a ha) (hgreater b hb)
  case filled =>
    intro m hm
    rcases List.mem_append.mp hm with hm | hm
    · exact ht.filled m (List.mem_append_left _ hm)
    · rcases List.mem_cons.mp hm with rfl | hm
      · exact List.append_ne_nil_of_right_ne_nil _ (List.cons_ne_nil _ _)
      · exact ht.filled m (List.mem_append_right _ (List.mem_append_right _ hm))

/-! ### All endpoints -/

/-- Two endpoints that can be served together: if their paths look alike, they
    have the same path and different methods. -/
def Compatible (a b : Endpoint) : Prop :=
  shape (mountPath a.path) = shape (mountPath b.path) → a.path = b.path ∧ a.method ≠ b.method

theorem Compatible.symm {a b : Endpoint} (h : Compatible a b) : Compatible b a := by
  intro hsame
  obtain ⟨hpath, hmethod⟩ := h hsame.symm
  exact ⟨hpath.symm, hmethod.symm⟩

instance : Std.Symm Compatible := ⟨fun _ _ => Compatible.symm⟩

theorem addAllMounted_ok (htidy : Tidy ms) (hes : es.Pairwise Compatible)
    (hms : ∀ path x, Serves ms path x → mountPath x.path = path ∧ ∀ e ∈ es, Compatible x e) :
    ∃ ms', addAllMounted es ms = .ok ms' ∧ Tidy ms' ∧
      ∀ path x, Serves ms' path x ↔ Serves ms path x ∨ (mountPath x.path = path ∧ x ∈ es) := by
  induction es generalizing ms with
  | nil =>
    refine ⟨ms, rfl, htidy, fun path x => ?_⟩
    simp
  | cons e rest ih =>
    obtain ⟨hfirst, hrest⟩ := List.pairwise_cons.mp hes
    have hfree : ∀ x, Serves ms (mountPath e.path) x → x.method ≠ e.method := by
      intro x hx
      obtain ⟨hpath, hcompatible⟩ := hms _ x hx
      exact (hcompatible e List.mem_cons_self (by rw [hpath])).2
    obtain ⟨ms₁, hadd⟩ := addMounted_ok hfree
    obtain ⟨before, old, after, hadded⟩ := addMounted_eq_ok htidy hadd
    have hserves : ∀ path x, Serves ms₁ path x ↔
        Serves ms path x ∨ (mountPath e.path = path ∧ x = e) := fun path x => hadded.serves
    have hms₁ : ∀ path x, Serves ms₁ path x →
        mountPath x.path = path ∧ ∀ e ∈ rest, Compatible x e := by
      intro path x hx
      rcases (hserves path x).mp hx with hx | ⟨hpath, rfl⟩
      · obtain ⟨hpath, hcompatible⟩ := hms path x hx
        exact ⟨hpath, fun e' he' => hcompatible e' (List.mem_cons_of_mem _ he')⟩
      · exact ⟨hpath, hfirst⟩
    obtain ⟨ms', hall, htidy', hserves'⟩ := ih (hadded.tidy htidy) hrest hms₁
    refine ⟨ms', ?_, htidy', fun path x => ?_⟩
    · unfold addAllMounted
      rw [hadd]
      exact hall
    · rw [hserves', hserves, List.mem_cons]
      constructor
      · rintro ((hx | ⟨hpath, rfl⟩) | ⟨hpath, hx⟩)
        · exact .inl hx
        · exact .inr ⟨hpath, .inl rfl⟩
        · exact .inr ⟨hpath, .inr hx⟩
      · rintro (hx | ⟨hpath, rfl | hx⟩)
        · exact .inl (.inl hx)
        · exact .inl (.inr ⟨hpath, rfl⟩)
        · exact .inr ⟨hpath, hx⟩

theorem addAllMounted_tidy (ht : Tidy ms) (h : addAllMounted es ms = .ok ms') : Tidy ms' := by
  induction es generalizing ms with
  | nil =>
    cases h
    exact ht
  | cons e rest ih =>
    cases hadd : addMounted e ms with
    | error fault =>
      rw [addAllMounted, hadd] at h
      cases h
    | ok ms₁ =>
      rw [addAllMounted, hadd] at h
      obtain ⟨before, old, after, hadded⟩ := addMounted_eq_ok ht hadd
      exact ih (hadded.tidy ht) h

theorem tidy_nil : Tidy [] := ⟨List.Pairwise.nil, fun m hm => by cases hm⟩

/-- A router is in order. -/
theorem mount_tidy (h : mount es = .ok ms) : Tidy ms := by
  unfold mount at h
  cases hall : addAllMounted es [] with
  | error fault =>
    rw [hall] at h
    cases h
  | ok table =>
    rw [hall] at h
    cases hcheck : checkShapes [Route.healthPath] table with
    | error fault =>
      change (checkShapes [Route.healthPath] table >>= fun _ => pure table) = .ok ms at h
      rw [hcheck] at h
      cases h
    | ok _ =>
      change (checkShapes [Route.healthPath] table >>= fun _ => pure table) = .ok ms at h
      rw [hcheck] at h
      cases h
      exact addAllMounted_tidy tidy_nil hall

theorem checkShapes_ok {seen : List String}
    (hpair : ms.Pairwise fun a b => shape a.path ≠ shape b.path)
    (hseen : ∀ m ∈ ms, ∀ other ∈ seen, shape other ≠ shape m.path) :
    checkShapes seen ms = .ok () := by
  induction ms generalizing seen with
  | nil => rfl
  | cons m rest ih =>
    obtain ⟨hfirst, hrest⟩ := List.pairwise_cons.mp hpair
    unfold checkShapes
    have hnone : (seen.find? fun path => shape path = shape m.path) = none := by
      rw [List.find?_eq_none]
      intro other hother hsame
      exact hseen m List.mem_cons_self other hother (of_decide_eq_true hsame)
    rw [hnone]
    apply ih hrest
    intro m' hm' other hother
    rcases List.mem_cons.mp hother with rfl | hother
    · exact hfirst m' hm'
    · exact hseen m' (List.mem_cons_of_mem _ hm') other hother

/-- Compatible endpoints that leave the path of the service alone are all
    mounted, each at its path and nothing else. -/
theorem mount_ok (hes : es.Pairwise Compatible)
    (hhealth : ∀ e ∈ es, shape Route.healthPath ≠ shape (mountPath e.path)) :
    ∃ table, mount es = .ok table ∧
      ∀ path e, Serves table path e ↔ mountPath e.path = path ∧ e ∈ es := by
  have hnothing : ∀ path x, ¬ Serves [] path x := by
    rintro path x ⟨m, hm, -⟩
    cases hm
  obtain ⟨table, hall, htidy, hserves⟩ := addAllMounted_ok tidy_nil hes
    (fun path x hx => absurd hx (hnothing path x))
  have hexact : ∀ path e, Serves table path e ↔ mountPath e.path = path ∧ e ∈ es := by
    intro path e
    rw [hserves, or_iff_right (hnothing path e)]
  -- at every path there is an endpoint, so what holds of endpoints holds of paths
  have hsome : ∀ m ∈ table, ∃ e ∈ es, mountPath e.path = m.path := by
    intro m hm
    obtain ⟨e, he⟩ := List.exists_mem_of_ne_nil _ (htidy.filled m hm)
    obtain ⟨hpath, hmem⟩ := (hexact m.path e).mp ⟨m, hm, rfl, he⟩
    exact ⟨e, hmem, hpath⟩
  have hshapes : table.Pairwise fun a b => shape a.path ≠ shape b.path := by
    refine htidy.sorted.imp_of_mem fun {a b} ha hb hlt hsame => ?_
    obtain ⟨e, he, hpath⟩ := hsome a ha
    obtain ⟨e', he', hpath'⟩ := hsome b hb
    have hsamePath : a.path = b.path := by
      by_cases heq : e = e'
      · rw [← hpath, heq, hpath']
      · have hcompatible : Compatible e e' := hes.forall he he' heq
        have hlook : shape (mountPath e.path) = shape (mountPath e'.path) := by
          rw [hpath, hpath', hsame]
        rw [← hpath, (hcompatible hlook).1, hpath']
    rw [hsamePath] at hlt
    exact lt_irrefl _ hlt
  refine ⟨table, ?_, hexact⟩
  unfold mount
  rw [hall]
  have hcheck : checkShapes [Route.healthPath] table = .ok () := by
    apply checkShapes_ok hshapes
    intro m hm other hother
    obtain ⟨e, he, hpath⟩ := hsome m hm
    rw [List.mem_singleton.mp hother, ← hpath]
    exact hhealth e he
  show (checkShapes [Route.healthPath] table >>= fun _ => pure table) = .ok table
  rw [hcheck]
  rfl

end RecordGate.Service

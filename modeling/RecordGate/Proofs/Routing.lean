import RecordGate.Proofs.Mounting
import RecordGate.Service.Router

/-! # Finding an endpoint by its path

  A request path fits the path of an endpoint segment by segment, and there are
  two ways to look for the endpoint: among all of them, and in the router, which
  holds those of one path together.

  **Key idea.** Both find what is `Reached`: what fits the path, where a path
  without parameters is preferred. If that is one endpoint at most for each
  method (`Determined`), then it does not matter how it is looked for.

  - `matchPath_fixed`, `matchPath_item`: what fits paths as routes have them.
  - `find_endpointsAt`, `routed_eq_some`: the search and the router find exactly
    what is reached.
-/

namespace RecordGate

/-! ### Characters and their bytes -/

namespace Text

/-- The byte of an ASCII character stands for no part of another one. -/
theorem mem_bytes {cs : List Char} {d : Char} (hd : d.toNat < 0x80)
    (h : UInt8.ofNat d.toNat ∈ bytes (String.ofList cs)) : d ∈ cs := by
  rw [bytes_ofList, List.mem_flatMap] at h
  obtain ⟨c, hc, hbyte⟩ := h
  have hvalue : d.toNat = c.toNat := by
    have hc' : c.toNat = c.val.toNat := rfl
    unfold String.utf8EncodeChar at hbyte
    dsimp only at hbyte
    split_ifs at hbyte <;>
      simp only [List.mem_cons, List.not_mem_nil, or_false, ← UInt8.toNat_inj,
        UInt8.toNat_ofNat'] at hbyte <;> omega
  have hsame : d = c := by
    rw [← Char.toNat_inj]
    exact hvalue
  rw [hsame]
  exact hc

end Text

namespace Service

/-- Bytes without a percent sign escape nothing. -/
theorem unescape_of_not_mem {bs : List UInt8} (h : 0x25 ∉ bs) : unescape bs = bs := by
  induction bs with
  | nil => rfl
  | cons b rest ih =>
    obtain ⟨hb, hrest⟩ := not_or.mp (mt List.mem_cons.mpr h)
    unfold unescape
    split
    next heq =>
      cases heq
      exact absurd rfl hb
    next heq =>
      cases heq
      rw [ih hrest]
    next heq => cases heq

/-- A segment without a percent sign is the value of its parameter. -/
theorem paramValue?_plain {segment : List Char} (h : '%' ∉ segment) :
    paramValue? segment = some (String.ofList segment) := by
  unfold paramValue?
  have hbytes : 0x25 ∉ Text.bytes (String.ofList segment) := fun hmem =>
    h (Text.mem_bytes (by decide) hmem)
  rw [unescape_of_not_mem hbytes, Text.ofBytes?_bytes]

/-! ### The paths of endpoints -/

/-- The segments of a path in the router. -/
def mountedSegments (path : String) : List Segment :=
  (Text.splitOn '/' path.toList).map fun
    | '\x7b' :: name => .param (String.ofList name.dropLast)
    | text => .fixed text

theorem segments_plain {path : String} (h : ':' ∉ path.toList) :
    segments path = (Text.splitOn '/' path.toList).map .fixed := by
  unfold segments
  apply List.map_congr_left
  intro segment hsegment
  split
  · exact absurd (Text.mem_of_mem_splitOn hsegment List.mem_cons_self) h
  · rfl

theorem segments_item {path param : String} (hcolon : ':' ∉ path.toList)
    (hslash : '/' ∉ param.toList) :
    segments (path ++ "/:" ++ param) =
      (Text.splitOn '/' path.toList).map .fixed ++ [.param param] := by
  have hplain := segments_plain hcolon
  have hitem : (path ++ "/:" ++ param).toList = path.toList ++ '/' :: (':' :: param.toList) := by
    rw [String.toList_append, String.toList_append, List.append_assoc]
    rfl
  have hparam : '/' ∉ ':' :: param.toList := by simp [hslash]
  unfold segments at hplain ⊢
  rw [hitem, Text.splitOn_append, Text.splitOn_of_not_mem hparam, List.map_append, hplain]
  simp

theorem mountedSegments_plain {path : String} (h : '\x7b' ∉ path.toList) :
    mountedSegments path = (Text.splitOn '/' path.toList).map .fixed := by
  unfold mountedSegments
  apply List.map_congr_left
  intro segment hsegment
  split
  · exact absurd (Text.mem_of_mem_splitOn hsegment List.mem_cons_self) h
  · rfl

theorem mountedSegments_item {path param : String} (hcolon : ':' ∉ path.toList)
    (hbrace : '\x7b' ∉ path.toList) (hslash : '/' ∉ param.toList) :
    mountedSegments (mountPath (path ++ "/:" ++ param)) =
      (Text.splitOn '/' path.toList).map .fixed ++ [.param param] := by
  have hplain := mountedSegments_plain hbrace
  unfold mountedSegments at hplain ⊢
  rw [splitOn_mountPath_item hcolon hslash, List.map_append, hplain]
  simp

/-! ### Matching -/

variable {pieces pieces' before : List (List Char)} {params : Keyed (List Char)}
  {last : List Char} {name : String}

theorem matchPath_fixed :
    matchPath (pieces.map .fixed) pieces' = some params ↔ pieces = pieces' ∧ params = [] := by
  induction pieces generalizing pieces' with
  | nil =>
    cases pieces' with
    | nil => exact ⟨fun h => ⟨rfl, (Option.some.inj h).symm⟩, fun h => h.2 ▸ rfl⟩
    | cons piece' rest' => simp [matchPath]
  | cons piece rest ih =>
    cases pieces' with
    | nil => simp [matchPath]
    | cons piece' rest' =>
      rw [List.map_cons, matchPath]
      by_cases hpiece : piece = piece' <;> simp [hpiece, ih]

/-- A parameter at the end takes the last piece, which must not be empty. -/
theorem matchPath_item (hlast : last ≠ []) :
    matchPath (pieces.map .fixed ++ [.param name]) (before ++ [last]) = some params ↔
      pieces = before ∧ params = [(name, last)] := by
  induction pieces generalizing before with
  | nil =>
    cases before with
    | nil =>
      have hone : matchPath [.param name] [last] = some [(name, last)] := by
        simp [matchPath, hlast, Keyed.put]
      exact ⟨fun h => ⟨rfl, Option.some.inj (h.symm.trans hone)⟩, fun h => h.2 ▸ hone⟩
    | cons piece rest =>
      have hnone : matchPath [] (rest ++ [last]) = none := by
        cases rest <;> rfl
      simp [matchPath, hnone]
  | cons piece rest ih =>
    cases before with
    | nil =>
      have hnone : matchPath (rest.map .fixed ++ [.param name]) [] = none := by
        cases rest <;> rfl
      simp [matchPath, hnone]
    | cons piece' rest' =>
      rw [List.map_cons, List.cons_append, List.cons_append, matchPath]
      by_cases hpiece : piece = piece' <;> simp [hpiece, ih]

/-- An endpoint fits a path, which gives its parameters these segments. -/
def Fits (e : Endpoint) (path : List Char) (params : Keyed (List Char)) : Prop :=
  matchPath (segments e.path) (Text.splitOn '/' path) = some params

/-- A request for a path can get to an endpoint: it fits, and with a parameter
    only if no other fits without. -/
structure Reached (es : List Endpoint) (path : List Char) (e : Endpoint)
    (params : Keyed (List Char)) : Prop where
  /-- It is one of the endpoints. -/
  mem : e ∈ es
  /-- It fits the path. -/
  fits : Fits e path params
  /-- A path without parameters is preferred. -/
  prefers : params = [] ∨ ∀ other ∈ es, ¬ Fits other path []

variable {es : List Endpoint} {e : Endpoint} {path : List Char} {table : List Mounted}
  {method : String}

theorem mem_endpointsAt : (e, params) ∈ endpointsAt es path ↔ Reached es path e params := by
  have hhits : ∀ e params, (e, params) ∈ es.filterMap (fun e =>
      (matchPath (segments e.path) (Text.splitOn '/' path)).map fun params => (e, params)) ↔
      e ∈ es ∧ Fits e path params := by
    intro e params
    simp only [List.mem_filterMap, Option.map_eq_some_iff, Prod.mk.injEq, Fits]
    constructor
    · rintro ⟨_, hmem, _, hfits, rfl, rfl⟩
      exact ⟨hmem, hfits⟩
    · rintro ⟨hmem, hfits⟩
      exact ⟨e, hmem, params, hfits, rfl, rfl⟩
  unfold endpointsAt
  dsimp only
  generalize es.filterMap (fun e => (matchPath (segments e.path) (Text.splitOn '/' path)).map
    fun params => (e, params)) = hits at hhits ⊢
  by_cases hexact : (hits.filter fun hit => hit.2.isEmpty).isEmpty = true
  · -- nothing fits without parameters
    rw [if_pos hexact, hhits]
    have hno : ∀ other ∈ es, ¬ Fits other path [] := by
      intro other hother hfits
      have hmem : (other, []) ∈ hits.filter fun hit => hit.2.isEmpty :=
        List.mem_filter.mpr ⟨(hhits other []).mpr ⟨hother, hfits⟩, rfl⟩
      rw [List.isEmpty_iff.mp hexact] at hmem
      cases hmem
    exact ⟨fun h => ⟨h.1, h.2, .inr hno⟩, fun h => ⟨h.mem, h.fits⟩⟩
  · rw [if_neg hexact, List.mem_filter, hhits, List.isEmpty_iff]
    obtain ⟨⟨other, params'⟩, hother⟩ := List.exists_mem_of_ne_nil _
      (mt List.isEmpty_iff.mpr hexact)
    obtain ⟨hmem, hempty⟩ := List.mem_filter.mp hother
    obtain ⟨hin, hfits⟩ := (hhits _ _).mp hmem
    rw [List.isEmpty_iff] at hempty
    subst hempty
    constructor
    · rintro ⟨h, hparams⟩
      exact ⟨h.1, h.2, .inl hparams⟩
    · intro h
      refine ⟨⟨h.mem, h.fits⟩, ?_⟩
      rcases h.prefers with hparams | hno
      · exact hparams
      · exact absurd hfits (hno other hin)

/-! ### Two searches for what is reached -/

theorem Method.name_inj : ∀ m m' : Method, m.name = m'.name → m = m' := by
  intro m m'
  cases m <;> cases m' <;> decide

/-- What a request can get to has one path, and one endpoint for each method. -/
def Determined (es : List Endpoint) (path : List Char) : Prop :=
  ∀ e params e' params', Reached es path e params → Reached es path e' params' →
    e.path = e'.path ∧ (e.method = e'.method → e = e')

/-- The search over all endpoints finds what is reached. -/
theorem find_endpointsAt (method : String) (hone : Determined es path) :
    (endpointsAt es path).find? (fun (e, _) => e.method.name = method) = some (e, params) ↔
      Reached es path e params ∧ e.method.name = method := by
  rw [find?_of_unique, mem_endpointsAt]
  · simp
  · rintro ⟨a, params⟩ ha ⟨b, params'⟩ hb hmethod hmethod'
    rw [mem_endpointsAt] at ha hb
    have hname : a.method.name = b.method.name := by
      rw [of_decide_eq_true hmethod, of_decide_eq_true hmethod']
    have hsame := (hone a params b params' ha hb).2 (Method.name_inj _ _ hname)
    subst hsame
    have hparams : params = params' := Option.some.inj (ha.fits.symm.trans hb.fits)
    rw [hparams]

/-- It finds nothing if no endpoint of the method is reached. -/
theorem find_endpointsAt_eq_none {m : Method} (hone : Determined es path)
    (hno : ∀ e params, Reached es path e params → e.method ≠ m) :
    (endpointsAt es path).find? (fun (e, _) => e.method.name = m.name) = none := by
  rw [← Option.not_isSome_iff_eq_none]
  intro hsome
  obtain ⟨⟨e, params⟩, hfound⟩ := Option.isSome_iff_exists.mp hsome
  obtain ⟨hreached, hname⟩ := (find_endpointsAt _ hone).mp hfound
  exact hno e params hreached (Method.name_inj _ _ hname)

/-- The node of the router at a path, with the parameters of the path: one
    without parameters is preferred. -/
def nodeAt (table : List Mounted) (path : List Char) : Option (Mounted × Keyed (List Char)) :=
  let hits := table.filterMap fun m =>
    (matchPath (mountedSegments m.path) (Text.splitOn '/' path)).map fun params => (m, params)
  (hits.find? fun (_, params) => params.isEmpty).or hits.head?

/-- The endpoint to which the router gives a request: of those at the node the
    one of the method. -/
def routed (table : List Mounted) (method : String) (path : List Char) :
    Option (Endpoint × Keyed (List Char)) :=
  (nodeAt table path).bind fun (m, params) =>
    (m.endpoints.find? fun e => e.method.name = method).map fun e => (e, params)

/-- A router for some endpoints: each is at its path, which is cut there as it
    was written. -/
structure RouterFor (table : List Mounted) (es : List Endpoint) : Prop where
  /-- The paths are in order. -/
  tidy : Tidy table
  /-- Each endpoint is at its path and nothing else. -/
  serves : ∀ path e, Serves table path e ↔ mountPath e.path = path ∧ e ∈ es
  /-- Parameters stay parameters. -/
  cut : ∀ e ∈ es, mountedSegments (mountPath e.path) = segments e.path

/-- The path of a node fits a path with some parameters. -/
def Mounted.Fits (m : Mounted) (path : List Char) (params : Keyed (List Char)) : Prop :=
  matchPath (mountedSegments m.path) (Text.splitOn '/' path) = some params

/-- An endpoint at a node has the path of the node. -/
theorem RouterFor.mem_at (h : RouterFor table es) {m : Mounted} (hm : m ∈ table)
    (he : e ∈ m.endpoints) : mountPath e.path = m.path ∧ e ∈ es :=
  (h.serves m.path e).mp ⟨m, hm, rfl, he⟩

/-- An endpoint at a node fits what the node fits. -/
theorem RouterFor.fits_iff (h : RouterFor table es) {m : Mounted} (hm : m ∈ table)
    (he : e ∈ m.endpoints) : Fits e path params ↔ m.Fits path params := by
  obtain ⟨hpath, hmem⟩ := h.mem_at hm he
  unfold Fits Mounted.Fits
  rw [← h.cut e hmem, hpath]

/-- There is one node for each path of the router. -/
theorem Tidy.eq_of_path {m m' : Mounted} (h : Tidy table) (hm : m ∈ table) (hm' : m' ∈ table)
    (hpath : m.path = m'.path) : m = m' := by
  by_contra hne
  have hirrefl : ∀ a b : Mounted, a.path < b.path ∨ b.path < a.path → a.path ≠ b.path := by
    rintro a b (hlt | hlt) hsame
    · exact lt_irrefl _ (hsame ▸ hlt)
    · exact lt_irrefl _ (hsame ▸ hlt)
  have hdistinct : table.Pairwise fun a b => a.path ≠ b.path :=
    h.sorted.imp fun {a b} hlt => hirrefl a b (.inl hlt)
  have : Std.Symm fun a b : Mounted => a.path ≠ b.path := ⟨fun _ _ => Ne.symm⟩
  exact hdistinct.forall hm hm' hne hpath

theorem mem_fitting {m : Mounted} :
    (m, params) ∈ table.filterMap (fun m =>
      (matchPath (mountedSegments m.path) (Text.splitOn '/' path)).map fun params => (m, params)) ↔
      m ∈ table ∧ m.Fits path params := by
  simp only [List.mem_filterMap, Option.map_eq_some_iff, Prod.mk.injEq]
  constructor
  · rintro ⟨_, hmem, _, hfits, rfl, rfl⟩
    exact ⟨hmem, hfits⟩
  · rintro ⟨hmem, hfits⟩
    exact ⟨m, hmem, params, hfits, rfl, rfl⟩

/-- The node at a path fits it, without parameters if there is one that does. -/
theorem nodeAt_fits {m : Mounted} (h : nodeAt table path = some (m, params)) :
    m ∈ table ∧ m.Fits path params ∧ (params = [] ∨ ∀ m' ∈ table, ¬ m'.Fits path []) := by
  unfold nodeAt at h
  dsimp only at h
  generalize hhits : table.filterMap _ = hits at h
  cases hfound : hits.find? fun (_, params) => params.isEmpty with
  | some hit =>
    rw [hfound] at h
    cases h
    have hempty := List.find?_some hfound
    have hhit := List.mem_of_find?_eq_some hfound
    rw [← hhits, mem_fitting] at hhit
    exact ⟨hhit.1, hhit.2, .inl (List.isEmpty_iff.mp hempty)⟩
  | none =>
    rw [hfound, Option.none_or] at h
    have hhit := List.mem_of_mem_head? (Option.mem_def.mpr h)
    rw [← hhits, mem_fitting] at hhit
    refine ⟨hhit.1, hhit.2, .inr ?_⟩
    intro m' hm' hfits
    have hhit' : (m', []) ∈ hits := hhits ▸ mem_fitting.mpr ⟨hm', hfits⟩
    exact List.find?_eq_none.mp hfound _ hhit' rfl

/-- There is a node at a path that one fits. -/
theorem nodeAt_ne_none {m : Mounted} (hm : m ∈ table) (hfits : m.Fits path params) :
    nodeAt table path ≠ none := by
  intro hnone
  unfold nodeAt at hnone
  dsimp only at hnone
  rw [Option.or_eq_none_iff, List.head?_eq_none_iff] at hnone
  have hhit := mem_fitting.mpr ⟨hm, hfits⟩
  rw [hnone.2] at hhit
  cases hhit

/-- What the node at a path serves is reached. -/
theorem RouterFor.reached_at (h : RouterFor table es) {m : Mounted}
    (hnode : nodeAt table path = some (m, params)) (he : e ∈ m.endpoints) :
    Reached es path e params := by
  obtain ⟨hm, hfits, hprefers⟩ := nodeAt_fits hnode
  obtain ⟨-, hmem⟩ := h.mem_at hm he
  refine ⟨hmem, (h.fits_iff hm he).mpr hfits, hprefers.imp_right ?_⟩
  intro hnone other hother hplain
  obtain ⟨m', hm', -, hserved⟩ := (h.serves _ other).mpr ⟨rfl, hother⟩
  exact hnone m' hm' ((h.fits_iff hm' hserved).mp hplain)

/-- The node at a path serves what is reached. -/
theorem RouterFor.exists_nodeAt (h : RouterFor table es) (hone : Determined es path)
    (hreached : Reached es path e params) :
    ∃ m, nodeAt table path = some (m, params) ∧ e ∈ m.endpoints := by
  obtain ⟨m, hm, hpath, he⟩ := (h.serves _ e).mpr ⟨rfl, hreached.mem⟩
  have hfits := (h.fits_iff hm he).mp hreached.fits
  obtain ⟨⟨m', params'⟩, hnode⟩ := Option.ne_none_iff_exists'.mp (nodeAt_ne_none hm hfits)
  obtain ⟨hm', hfits', -⟩ := nodeAt_fits hnode
  obtain ⟨e', he'⟩ := List.exists_mem_of_ne_nil _ (h.tidy.filled m' hm')
  obtain ⟨hpath', -⟩ := h.mem_at hm' he'
  -- two nodes that are reached have one path
  have hsame : m' = m := by
    apply h.tidy.eq_of_path hm' hm
    rw [← hpath', hpath, (hone e params e' params' hreached (h.reached_at hnode he')).1]
  subst hsame
  have hparams : params' = params := Option.some.inj (hfits'.symm.trans hfits)
  exact ⟨m', by rw [hnode, hparams], he⟩

/-- The router gives a request to what is reached. -/
theorem routed_eq_some (h : RouterFor table es) (hone : Determined es path) :
    routed table method path = some (e, params) ↔
      Reached es path e params ∧ e.method.name = method := by
  unfold routed
  constructor
  · intro hrouted
    obtain ⟨⟨m, params'⟩, hnode, hfound⟩ := Option.bind_eq_some_iff.mp hrouted
    obtain ⟨e', hfind, hsame⟩ := Option.map_eq_some_iff.mp hfound
    cases hsame
    have hmethod := List.find?_some hfind
    exact ⟨h.reached_at hnode (List.mem_of_find?_eq_some hfind), of_decide_eq_true hmethod⟩
  · rintro ⟨hreached, hmethod⟩
    obtain ⟨m, hnode, he⟩ := h.exists_nodeAt hone hreached
    have hfind : m.endpoints.find? (fun e => decide (e.method.name = method)) = some e := by
      apply (find?_of_unique ?_).mpr
      · exact ⟨he, decide_eq_true hmethod⟩
      · intro a ha b hb hmethod hmethod'
        apply (hone a params b params (h.reached_at hnode ha) (h.reached_at hnode hb)).2
        apply Method.name_inj
        rw [of_decide_eq_true hmethod, of_decide_eq_true hmethod']
    rw [hnode, Option.bind_some]
    dsimp only
    rw [hfind]
    rfl

end Service

end RecordGate

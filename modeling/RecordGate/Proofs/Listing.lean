import RecordGate.CommandLine.Listing
import RecordGate.Proofs.JsonText

/-! # What lists of endpoints show

  A list of endpoints shows every endpoint once and in order, and nothing else.

  **Key idea.** What is to be seen of an endpoint (`Endpoint.details`) is said
  from its rule, and not from how a list is laid out. A table is known by its
  columns, however wide they are (`Row`); indented JSON by what is read from it.

  - `tableOf_table`: the table has a heading and a row for each endpoint.
  - `ofText?_jsonListing`: the JSON is read as the array of the endpoints.
-/

namespace RecordGate

/-! ### What is to be seen -/

/-- What is to be seen of an endpoint with a rule: the method and the path, the
    letters of the action, the model, the permission, and the field by which the
    rule loads the record. -/
def Endpoint.details (e : Endpoint) : List (String × String) :=
  match e.rule? with
  | none => []
  | some rule =>
    [("method", e.method.name), ("path", e.path), ("op", e.action.code),
      ("model", e.route.model.name), ("allow", rule.permission.render)] ++
    rule.binding.toList.map fun b => ("where", b.field)

/-- The same in five columns. -/
def Endpoint.columns (e : Endpoint) : List String :=
  match e.rule? with
  | none => []
  | some rule =>
    let loaded := match rule.binding with
      | some b => " (where " ++ b.field ++ ")"
      | none => ""
    [e.method.name, e.path, e.action.code, e.route.model.name, rule.permission.render ++ loaded]

/-- An object of texts. -/
def textObject (members : List (String × String)) : Json :=
  .obj (Record.ofList (members.map fun (name, text) => (name, .str text)))

/-- The endpoints as JSON. -/
def Endpoint.listed (es : List Endpoint) : Json :=
  .arr (es.map fun e => textObject e.details)

namespace CommandLine

/-- A line with these columns, and at least one blank between them. -/
inductive Row : List String → List Char → Prop where
  /-- The last column ends the line. -/
  | last (t : String) : Row [t] (t.toList ++ ['\n'])
  /-- Blanks stand between a column and the next one. -/
  | next (t : String) (n : Nat) {ts : List String} {cs : List Char} (rest : Row ts cs) :
      Row (t :: ts) (t.toList ++ List.replicate (n + 1) ' ' ++ cs)

/-- Lines with these columns, and nothing else. -/
inductive Rows : List (List String) → List Char → Prop where
  /-- No line. -/
  | nil : Rows [] []
  /-- A line, and the others behind it. -/
  | cons {row : List String} {rows : List (List String)} {line cs : List Char}
      (first : Row row line) (rest : Rows rows cs) : Rows (row :: rows) (line ++ cs)

/-- A table of endpoints: below its heading a row for each of them, in order; or
    else that there are none. -/
def TableOf (es : List Endpoint) (text : String) : Prop :=
  es = [] ∧ text = "No routes.\n" ∨
    es ≠ [] ∧ Rows (["METHOD", "PATH", "OP", "MODEL", "ALLOW"] :: es.map Endpoint.columns) text.toList

variable {es : List Endpoint} {e : Endpoint} {rule : Rule}

/-! ### The table -/

theorem toList_padded (width : Nat) (s : String) :
    (padded width s ++ " ").toList = s.toList ++ List.replicate (width - s.length + 1) ' ' := by
  unfold padded
  rw [String.toList_append, String.toList_append, String.toList_ofList, List.append_assoc,
    List.replicate_succ']
  rfl

theorem row_tableLine (width : Nat) (method path code model allow : String) :
    Row [method, path, code, model, allow] (tableLine width method path code model allow).toList := by
  have htext : (tableLine width method path code model allow).toList =
      (padded 7 method ++ " ").toList ++ ((padded width path ++ " ").toList ++
        ((padded 3 code ++ " ").toList ++ ((padded 12 model ++ " ").toList ++
          (allow.toList ++ ['\n'])))) := by
    simp [tableLine]
  rw [htext]
  simp only [toList_padded]
  exact .next _ _ (.next _ _ (.next _ _ (.next _ _ (.last allow))))

theorem columns_eq (h : e.rule? = some rule) :
    e.columns = [e.method.name, e.path, e.action.code, e.route.model.name, allowText e] := by
  unfold Endpoint.columns allowText Endpoint.allow Endpoint.whereField?
  rw [h]
  cases hb : rule.binding with
  | none => simp [hb]
  | some b => simp [hb, toString, String.append_assoc]

theorem rows_lines (width : Nat) (hrules : ∀ e ∈ es, (e.rule?).isSome = true) :
    Rows (es.map Endpoint.columns) (String.join (es.map fun e =>
      tableLine width e.method.name e.path e.action.code e.route.model.name (allowText e))).toList := by
  induction es with
  | nil => exact .nil
  | cons e es ih =>
    obtain ⟨rule, hrule⟩ := Option.isSome_iff_exists.mp (hrules e List.mem_cons_self)
    rw [List.map_cons, List.map_cons, String.join_cons, String.toList_append, columns_eq hrule]
    exact .cons (row_tableLine _ _ _ _ _ _) (ih fun e he => hrules e (List.mem_cons_of_mem _ he))

/-- The table is one of the endpoints. -/
theorem tableOf_table (hrules : ∀ e ∈ es, (e.rule?).isSome = true) : TableOf es (table es) := by
  unfold table
  by_cases hes : es = []
  · subst hes
    exact .inl ⟨rfl, rfl⟩
  · rw [if_neg (by simpa using hes)]
    dsimp only
    refine .inr ⟨hes, ?_⟩
    rw [String.toList_append]
    exact .cons (row_tableLine _ _ _ _ _ _) (rows_lines _ hrules)

/-! ### Indented JSON -/

open Json Json.Reader

theorem summary_eq (h : (e.rule?).isSome = true) : e.summary = e.details := by
  obtain ⟨rule, hrule⟩ := Option.isSome_iff_exists.mp h
  unfold Endpoint.summary Endpoint.details Endpoint.allow Endpoint.whereField?
  rw [hrule]
  cases hb : rule.binding <;> simp [hb]

/-- Lines with commas behind all but the last are texts behind line breaks. -/
theorem toList_lines (line : String) (lines : List String) :
    '\n' :: (",\n".intercalate (line :: lines)).toList =
      [','].intercalate ((line :: lines).map fun l => '\n' :: l.toList) := by
  rw [String.toList_intercalate]
  induction lines generalizing line with
  | nil => simp
  | cons next lines ih =>
    have hnext := ih next
    simp only [List.map_cons, List.intercalate_cons_cons] at hnext ⊢
    rw [← hnext]
    simp

/-- A member on a line of its own. -/
def memberLine (m : String × String) : List Char :=
  ['\n', ' ', ' ', ' ', ' '] ++ ((quoted m.1).toList ++ ':' :: ([' '] ++ (quoted m.2).toList))

theorem reads_memberLine (m : String × String) (depth : Nat) :
    Opens (memberLine m) ∧ Reads (member · depth) (memberLine m) (m.1, .str m.2) := by
  have hgaps : ∀ g ∈ ['\n', ' ', ' ', ' ', ' '], isGap g = true := List.all_eq_true.mp rfl
  have hvalue : Reads (value · depth) (quoted m.2).toList (.str m.2) := by
    have hread : Reads (value · depth) (Json.str m.2).text.toList (Json.str m.2).echo :=
      reads_text (.str m.2)
    rw [Json.text, Json.echo] at hread
    exact hread
  have hblank : Reads (value · depth) ([' '] ++ (quoted m.2).toList) (.str m.2) :=
    hvalue.behind fun fuel cs => value_gaps (List.all_eq_true.mp rfl) fuel depth cs
  unfold memberLine
  constructor
  · refine Opens.behind ?_ hgaps
    rw [toList_quoted]
    exact opens_cons (by decide) (by decide) (by decide) _
  · exact (reads_member hblank).behind fun fuel cs => member_gaps hgaps fuel depth cs

theorem toList_objectText (m : String × String) (members : List (String × String)) :
    '\n' :: (objectText (m :: members)).toList = ['\n', ' ', ' '] ++
      '\x7b' :: ([','].intercalate ((m :: members).map memberLine) ++ ['\n', ' ', ' ', '\x7d']) := by
  have hline : ∀ m : String × String,
      '\n' :: (s!"    {quoted m.1}: {quoted m.2}").toList = memberLine m := by
    intro m
    simp [memberLine, toString]
  have hlines := toList_lines s!"    {quoted m.1}: {quoted m.2}"
    (members.map fun m => s!"    {quoted m.1}: {quoted m.2}")
  simp only [List.map_cons, List.map_map, Function.comp_def, hline] at hlines
  rw [List.map_cons, ← hlines]
  simp [objectText]

/-- An object with its members on lines of their own. -/
theorem reads_objectText {members : List (String × String)} (hmembers : members ≠ []) (depth : Nat) :
    Opens ('\n' :: (objectText members).toList) ∧
      Reads (value · (depth + 1)) ('\n' :: (objectText members).toList) (textObject members) := by
  obtain ⟨m, members, rfl⟩ := List.exists_cons_of_ne_nil hmembers
  have hgaps : ∀ g ∈ ['\n', ' ', ' '], isGap g = true := List.all_eq_true.mp rfl
  have hclosing : Closes '\x7d' ['\n', ' ', ' ', '\x7d'] := ⟨['\n', ' ', ' '], hgaps, rfl⟩
  have hpieces : ∀ p ∈ (m :: members).map fun m => (memberLine m, m.1, Json.str m.2),
      Opens p.1 ∧ Reads (member · depth) p.1 p.2 :=
    List.forall_mem_map.mpr fun m _ => reads_memberLine m depth
  have hobject := reads_object hclosing hpieces
  rw [List.map_map, List.map_map] at hobject
  rw [toList_objectText]
  constructor
  · exact Opens.behind (opens_cons (by decide) (by decide) (by decide) _) hgaps
  · exact Reads.behind (fun fuel cs => value_gaps hgaps fuel (depth + 1) cs) hobject

theorem details_ne_nil (h : (e.rule?).isSome = true) : e.details ≠ [] := by
  obtain ⟨rule, hrule⟩ := Option.isSome_iff_exists.mp h
  unfold Endpoint.details
  rw [hrule]
  simp

theorem toList_jsonListing (e : Endpoint) (es : List Endpoint) :
    (jsonListing (e :: es)).toList = '[' :: ([','].intercalate
      ((e :: es).map fun e => '\n' :: (objectText e.summary).toList) ++ ['\n', ']']) ++ ['\n'] := by
  have hlines := toList_lines (objectText e.summary) (es.map fun e => objectText e.summary)
  simp only [List.map_cons, List.map_map, Function.comp_def] at hlines
  rw [List.map_cons, ← hlines]
  simp [jsonListing]

/-- The JSON is read as the array of the endpoints, in order. -/
theorem ofText?_jsonListing (hrules : ∀ e ∈ es, (e.rule?).isSome = true) :
    Json.ofText? (jsonListing es) = some (Endpoint.listed es) := by
  cases es with
  | nil => decide +kernel
  | cons e es =>
    have hclosing : Closes ']' ['\n', ']'] := ⟨['\n'], List.all_eq_true.mp rfl, rfl⟩
    have hpieces : ∀ p ∈ (e :: es).map fun e =>
        ('\n' :: (objectText e.summary).toList, textObject e.details),
        Opens p.1 ∧ Reads (value · (maxDepth - 1)) p.1 p.2 := by
      intro p hp
      obtain ⟨e, he, rfl⟩ := List.mem_map.mp hp
      rw [summary_eq (hrules e he)]
      exact reads_objectText (details_ne_nil (hrules e he)) (maxDepth - 2)
    have harray := reads_array hclosing hpieces
    rw [List.map_map, List.map_map] at harray
    unfold ofText?
    rw [toList_jsonListing]
    exact ofChars?_of_reads harray (List.all_eq_true.mp rfl)

end CommandLine

end RecordGate

import RecordGate.Proofs.Handling
import RecordGate.Proofs.Trail

/-! # The order of the storage calls of a request

  A request looks a record up, is judged, and then makes the one call in which
  its action consists. This holds against every driver, whatever that answers.

  **Key idea.** A request is followed along its trails (`Stage`).

  - `execute_stage`: it was refused, or it is about to look a record up, or it
    was cleared and acts. A cleared request has a permission that holds in its
    context, and the record in this context is the one that the lookup was
    answered with.
  - `perform_paused`: an action makes its call (`Acts`) before any other.
  - `execute_paused` puts both together. What it says about the flow in front
    of one call settles the order of all of them (`call_discipline`), since a
    call comes after at most one lookup.
  - `execute_strict`: no failed call is tried again or hidden.
-/

namespace RecordGate.Engine

open Storage RecordGate.Flow

variable {route : Route} {m : Model} {action : Action} {rule : Rule} {req req' : Request}
  {bound : Bound} {log before after : List Exchange} {e : Exchange} {y : Flow Response}

/-! ### From the lookup to the permission -/

/-- The exchange in which a lookup finds a record. -/
def found (m : Model) (filter record : Record) : Exchange where
  call := .findOne m.collection filter
  answer := .ok (some record)

/-- The context of a request, with the lookup that it rests on. -/
inductive Binds (m : Model) (rule : Rule) (req : Request) : List Exchange → Bound → Prop where
  /-- No record is loaded. -/
  | caller (unbound : rule.binding = none) :
      Binds m rule req [] ⟨callerContext req.caller, none⟩
  /-- A record was found for the path, and for the caller if there is an owner. -/
  | record {b : Binding} {filter record : Record} (binding : rule.binding = some b)
      (lookup : lookupFilter? m b (callerContext req.caller) req.params = some filter) :
      Binds m rule req [found m filter record]
        ⟨(callerContext req.caller).bind m.bindingName (.obj record), some record⟩

/-- A request passed the credential, the lookup and the permission of the rule
    of its action. -/
def Clears (route : Route) (action : Action) (req : Request) (log : List Exchange)
    (bound : Bound) : Prop :=
  ∃ rule req', route.rule? action = some rule ∧ checkCredential rule req = .ok req' ∧
    Binds route.model rule req' log bound ∧ rule.permission.holds bound.context = true

/-- How far a request has come. -/
inductive Stage (route : Route) (action : Action) (req : Request) :
    List Exchange → Flow Response → Prop where
  /-- It was refused. -/
  | refused (log : List Exchange) (err : Error) : Stage route action req log (.done (.error err))
  /-- It is about to look for its record. -/
  | looking {rule : Rule} {req' : Request} {b : Binding} {filter : Record}
      {next : Except Error (Call.Answer (.findOne route.model.collection filter)) → Flow Response}
      (rule_eq : route.rule? action = some rule) (credential : checkCredential rule req = .ok req')
      (binding : rule.binding = some b)
      (lookup : lookupFilter? route.model b (callerContext req'.caller) req'.params = some filter)
      (missed : next (.ok none) = .done (.error (missing route.model))) :
      Stage route action req [] (.call (.findOne route.model.collection filter) next)
  /-- It was cleared and acts. -/
  | acting {log log' : List Exchange} {bound : Bound} {y : Flow Response}
      (clears : Clears route action req log bound)
      (trail : Trail (perform route.model action req bound) log' y) :
      Stage route action req (log ++ log') y

/-- The trails through the binding of a context. -/
theorem bindContext_trail {y : Flow Bound} (h : Trail (bindContext m rule req) log y) :
    (∃ err, y = .done (.error err)) ∨
      (∃ bound, y = .done (.ok bound) ∧ Binds m rule req log bound) ∨
      ∃ b filter next, rule.binding = some b ∧
        lookupFilter? m b (callerContext req.caller) req.params = some filter ∧ log = [] ∧
        y = .call (.findOne m.collection filter) next ∧
        next (.ok none) = .done (.error (missing m)) := by
  unfold bindContext at h
  dsimp only at h
  split at h
  next hb =>
    obtain ⟨rfl, rfl⟩ := h.of_done
    exact .inr (.inl ⟨_, rfl, .caller hb⟩)
  next b hb =>
    split at h
    · obtain ⟨-, rfl⟩ := h.of_done
      exact .inl ⟨_, rfl⟩
    next filter hfilter =>
      cases h with
      | here => exact .inr (.inr ⟨b, filter, _, hb, hfilter, rfl, rfl, rfl⟩)
      | call answer h =>
        cases answer with
        | error err =>
          obtain ⟨-, rfl⟩ := h.of_done
          exact .inl ⟨err, rfl⟩
        | ok found =>
          cases found with
          | none =>
            obtain ⟨-, rfl⟩ := h.of_done
            exact .inl ⟨_, rfl⟩
          | some record =>
            obtain ⟨rfl, rfl⟩ := h.of_done
            exact .inr (.inl ⟨_, rfl, .record hb hfilter⟩)

/-- Wherever a request has come to, it is at one of the stages. -/
theorem execute_stage (h : Trail (execute route action req) log y) :
    Stage route action req log y := by
  unfold execute at h
  split at h
  · obtain ⟨-, rfl⟩ := h.of_done
    exact .refused _ _
  next rule hrule =>
    unfold handleRule at h
    rcases trail_ofExcept_bind h with ⟨err, -, -, rfl⟩ | ⟨req', hcredential, h⟩
    · exact .refused _ _
    rcases trail_bind h with ⟨x, hx, hopen, rfl⟩ | ⟨bound, log₁, log₂, rfl, hx, h⟩
    · rcases bindContext_trail hx with
        ⟨err, rfl⟩ | ⟨bound, rfl, -⟩ | ⟨b, filter, next, hb, hfilter, rfl, rfl, hmissed⟩
      · exact .refused _ _
      · exact absurd rfl (hopen bound)
      · refine .looking hrule hcredential hb hfilter ?_
        show Flow.bind (next (.ok none)) _ = _
        rw [hmissed]
        rfl
    · rcases bindContext_trail hx with
        ⟨err, herr⟩ | ⟨bound', hbound, hbinds⟩ | ⟨_, _, _, -, -, -, hcall, -⟩
      · cases herr
      · cases hbound
        rcases trail_ofExcept_bind h with ⟨err, -, -, rfl⟩ | ⟨⟨⟩, hauthorize, h⟩
        · exact .refused _ _
        · rw [perform_checkCredential hcredential] at h
          exact .acting ⟨rule, req', hrule, hcredential, hbinds, authorize_eq_ok.mp hauthorize⟩ h
      · cases hcall

/-! ### The call of an action -/

/-- The filter of a list. -/
def listFilter? (m : Model) (c : Context) : Option Record :=
  match m.owner with
  | none => some []
  | some owner => (ownerValue? m c).map (Record.insert [] owner)

/-- What a delete answers. -/
def deleteReply (m : Model) (deleted : Bool) : Flow Response :=
  if deleted then pure .noContent else Flow.fail (missing m)

/-- The call in which an action consists, and what follows from its answer. -/
inductive Acts (m : Model) (req : Request) (bound : Bound) :
    Action → (c : Call) → (Except Error c.Answer → Flow Response) → Prop where
  /-- A create stores its values. -/
  | created {values : Record}
      (drawn : Trail (newValues m req bound.context) [] (.done (.ok values))) :
      Acts m req bound .create (.insertOne m.collection values) fun answer =>
        ofExcept answer >>= fun (stored : Record) => pure (.created (shown m stored))
  /-- A list looks for all records that the caller may see. -/
  | listed {filter : Record} (visible : listFilter? m bound.context = some filter) :
      Acts m req bound .list (.findAll m.collection filter) fun answer =>
        ofExcept answer >>= fun (records : List Record) =>
          pure (.ok (.arr (records.map (shown m))))
  /-- An update overwrites values in the loaded record. -/
  | updated {record filter values : Record} (loaded : bound.resource = some record)
      (again : byId record = .ok filter)
      (drawn : Trail (changedValues m req) [] (.done (.ok values))) :
      Acts m req bound .update (.updateOne m.collection filter values) fun answer =>
        ofExcept answer >>= updateReply m
  /-- A delete removes the loaded record. -/
  | deleted {record filter : Record} (loaded : bound.resource = some record)
      (again : byId record = .ok filter) :
      Acts m req bound .delete (.deleteOne m.collection filter) fun answer =>
        ofExcept answer >>= deleteReply m

theorem offline_updateReply (m : Model) (updated : Option Record) :
    Offline (updateReply m updated) := by
  cases updated <;> exact .done _

theorem offline_deleteReply (m : Model) (deleted : Bool) : Offline (deleteReply m deleted) := by
  cases deleted <;> exact .done _

theorem loaded_eq_ok {resource : Option Record} {record : Record} :
    loaded resource = .ok record ↔ resource = some record := by
  cases resource <;> simp [loaded]

theorem list_eq (m : Model) (bound : Bound) :
    list m bound =
      match listFilter? m bound.context with
      | none => pure (.ok (.arr []))
      | some filter => ask (.findAll m.collection filter) >>= fun (records : List Record) =>
          pure (.ok (.arr (records.map (shown m)))) := by
  unfold list listFilter?
  cases m.owner with
  | none => rfl
  | some owner => cases ownerValue? m bound.context <;> rfl

section acting
variable {c : Call} {next : Except Error c.Answer → Flow Response}

/-- An action that pauses at a call has made none, and this is its call. -/
theorem perform_paused (h : Trail (perform m action req bound) log (.call c next)) :
    log = [] ∧ Acts m req bound action c next := by
  cases action with
  | create =>
    have h : Trail (create m req bound) log (.call c next) := h
    rw [create_eq] at h
    obtain ⟨values, hdrawn, h⟩ := (offline_newValues m req bound.context).paused h
    obtain ⟨rfl, heq⟩ := paused_ask h fun _ => offline_pure _
    cases heq
    exact ⟨rfl, .created hdrawn⟩
  | list =>
    have h : Trail (list m bound) log (.call c next) := h
    rw [list_eq] at h
    split at h
    · cases h
    next filter hfilter =>
      obtain ⟨rfl, heq⟩ := paused_ask h fun _ => offline_pure _
      cases heq
      exact ⟨rfl, .listed hfilter⟩
  | read =>
    obtain ⟨record, -, h⟩ := (offline_ofExcept _).paused h
    cases h
  | update =>
    have h : Trail (update m req bound) log (.call c next) := h
    rw [update_eq] at h
    obtain ⟨record, hloaded, h⟩ := (offline_ofExcept _).paused h
    obtain ⟨values, hdrawn, h⟩ := (offline_changedValues m req).paused h
    obtain ⟨filter, hagain, h⟩ := (offline_ofExcept _).paused h
    obtain ⟨rfl, heq⟩ := paused_ask h (offline_updateReply m)
    cases heq
    exact ⟨rfl, .updated (loaded_eq_ok.mp (ofExcept_trail hloaded)) (ofExcept_trail hagain) hdrawn⟩
  | delete =>
    obtain ⟨record, hloaded, h⟩ := (offline_ofExcept _).paused h
    obtain ⟨filter, hagain, h⟩ := (offline_ofExcept _).paused h
    obtain ⟨rfl, heq⟩ := paused_ask h (offline_deleteReply m)
    cases heq
    exact ⟨rfl, .deleted (loaded_eq_ok.mp (ofExcept_trail hloaded)) (ofExcept_trail hagain)⟩

/-- A request that pauses at a call is about to look its record up, or it was
    cleared and this is the call of its action. -/
theorem execute_paused (h : Trail (execute route action req) log (.call c next)) :
    (log = [] ∧ ∃ rule filter, route.rule? action = some rule ∧ rule.binding.isSome = true ∧
        c = .findOne route.model.collection filter) ∨
      ∃ bound, Clears route action req log bound ∧ Acts route.model req bound action c next := by
  cases execute_stage h with
  | looking hrule _ hb _ _ => exact .inl ⟨rfl, _, _, hrule, by rw [hb]; rfl, rfl⟩
  | acting hclears htrail =>
    obtain ⟨rfl, hacts⟩ := perform_paused htrail
    rw [List.append_nil]
    exact .inr ⟨_, hclears, hacts⟩

end acting

/-! ### What was cleared before a call -/

/-- Without a lookup no record is loaded. -/
theorem Clears.unloaded (h : Clears route action req [] bound) : bound.resource = none := by
  obtain ⟨rule, req', -, -, hbinds, -⟩ := h
  cases hbinds with
  | caller _ => rfl

/-- A request that is cleared after a call has made that one alone. It acts on
    one record, and this is the record that the call found. -/
theorem Clears.looked
    (hroute : ∀ rule, route.rule? action = some rule → rule.Fits action route.model)
    (h : Clears route action req (e :: log) bound) :
    log = [] ∧ action.targetsOne = true ∧
      ∃ filter record, e = found route.model filter record ∧ bound.resource = some record := by
  obtain ⟨rule, req', hrule, -, hbinds, -⟩ := h
  cases hbinds with
  | @record b filter record hb _ =>
    have htargets : rule.binding.isSome = action.targetsOne := (hroute rule hrule).loads
    rw [hb] at htargets
    exact ⟨rfl, htargets.symm, filter, record, rfl, rfl⟩

/-- The record that was found before is the loaded one. -/
theorem Clears.loaded {filter record : Record} (h : Clears route action req log bound)
    (hfound : found route.model filter record ∈ log) : bound.resource = some record := by
  obtain ⟨rule, req', -, -, hbinds, -⟩ := h
  cases hbinds with
  | caller _ => cases hfound
  | @record b filter' record' _ _ =>
    obtain ⟨hcall, hanswer⟩ := Exchange.mk.inj (List.mem_singleton.mp hfound)
    cases hcall
    cases hanswer
    rfl

/-- What is loaded was found by the lookup. -/
theorem Clears.found {record : Record} (h : Clears route action req log bound)
    (hloaded : bound.resource = some record) :
    ∃ filter, found route.model filter record ∈ log := by
  obtain ⟨rule, req', -, -, hbinds, -⟩ := h
  cases hbinds with
  | caller _ => cases hloaded
  | @record b filter record' _ _ =>
    cases hloaded
    exact ⟨filter, List.mem_singleton.mpr rfl⟩

/-- The record that memory was found to hold is one of its records. -/
theorem find?_of_found {c : Call} {filter record : Record} {w : World Memory}
    (h : found m filter record = ⟨c, (Memory.driver.answer c w).1⟩) :
    c = .findOne m.collection filter ∧
      (w.store.rows m.collection).find? (accepts filter) = some record := by
  obtain ⟨rfl, hanswer⟩ := Exchange.mk.inj h
  exact ⟨rfl, (Except.ok.inj (eq_of_heq hanswer)).symm⟩

/-- The storage calls that an action on a model makes, in order. -/
inductive Sequence (m : Model) : Action → List Call → Prop where
  /-- None at all. -/
  | nothing (action : Action) : Sequence m action []
  /-- A create inserts. -/
  | created (values : Record) : Sequence m .create [.insertOne m.collection values]
  /-- A list finds all. -/
  | listed (filter : Record) : Sequence m .list [.findAll m.collection filter]
  /-- An action on one record looks it up, and perhaps no more. -/
  | looked {action : Action} (one : action.targetsOne = true) (lookup : Record) :
      Sequence m action [.findOne m.collection lookup]
  /-- An update writes after the lookup. -/
  | updated (lookup filter values : Record) : Sequence m .update
      [.findOne m.collection lookup, .updateOne m.collection filter values]
  /-- A delete removes after the lookup. -/
  | deleted (lookup filter : Record) : Sequence m .delete
      [.findOne m.collection lookup, .deleteOne m.collection filter]

section compiled
variable {catalog : Catalog} {c : Call} {answer : Except Error c.Answer}

/-- Every call of a request is its first one, a lookup, or the call of its
    action, for which it was cleared by what came before. -/
theorem execute_call (hroute : route.Compiled catalog)
    (h : Trail (execute route action req) (before ++ ⟨c, answer⟩ :: after) y) :
    (before = [] ∧ action.targetsOne = true ∧
        ∃ lookup, c = .findOne route.model.collection lookup) ∨
      ∃ bound next, Clears route action req before bound ∧
        Acts route.model req bound action c next := by
  obtain ⟨next, hbefore, -⟩ := h.split
  rcases execute_paused hbefore with
    ⟨hnil, rule, lookup, hrule, hb, hcall⟩ | ⟨bound, hclears, hacts⟩
  · have htargets : rule.binding.isSome = action.targetsOne :=
      (hroute.rules action rule hrule).loads
    exact .inl ⟨hnil, htargets.symm.trans hb, lookup, hcall⟩
  · exact .inr ⟨bound, next, hclears, hacts⟩

/-- The calls of a request, up to wherever it has come, are in order. -/
theorem execute_sequence (hroute : route.Compiled catalog)
    (h : Trail (execute route action req) log y) :
    Sequence route.model action (log.map (·.call)) := by
  match log with
  | [] => exact .nothing action
  | [⟨c, answer⟩] =>
    have h : Trail (execute route action req) ([] ++ ⟨c, answer⟩ :: []) y := h
    rcases execute_call hroute h with ⟨-, htargets, lookup, rfl⟩ | ⟨bound, next, hclears, hacts⟩
    · exact .looked htargets lookup
    · cases hacts with
      | created _ => exact .created _
      | listed _ => exact .listed _
      -- the other calls act on a record, and none was loaded
      | updated hloaded _ _ => cases hclears.unloaded.symm.trans hloaded
      | deleted hloaded _ => cases hclears.unloaded.symm.trans hloaded
  | [e, ⟨c, answer⟩] =>
    have h : Trail (execute route action req) ([e] ++ ⟨c, answer⟩ :: []) y := h
    rcases execute_call hroute h with ⟨hnil, -, -⟩ | ⟨bound, next, hclears, hacts⟩
    · cases hnil
    · obtain ⟨-, htargets, lookup, record, rfl, -⟩ := hclears.looked (hroute.rules action)
      cases hacts with
      | created _ => cases htargets
      | listed _ => cases htargets
      | updated _ _ _ => exact .updated _ _ _
      | deleted _ _ => exact .deleted _ _
  | e₁ :: e₂ :: e₃ :: rest =>
    -- a third call would be cleared after two calls
    have h : Trail (execute route action req) ([e₁, e₂] ++ e₃ :: rest) y := h
    rcases execute_call hroute h with ⟨hnil, -, -⟩ | ⟨bound, next, hclears, -⟩
    · cases hnil
    · obtain ⟨hnil, -, -⟩ := hclears.looked (hroute.rules action)
      cases hnil

end compiled

/-! ### Failed calls -/

theorem bindContext_strict (m : Model) (rule : Rule) (req : Request) :
    Strict (bindContext m rule req) := by
  unfold bindContext
  dsimp only
  split
  · exact (offline_pure _).strict
  · split
    · exact .done _
    · refine (strict_ask _).bind fun record => ?_
      cases record <;> exact .done _

theorem perform_strict (m : Model) (action : Action) (req : Request) (bound : Bound) :
    Strict (perform m action req bound) := by
  cases action with
  | create =>
    show Strict (create m req bound)
    rw [create_eq]
    refine (offline_newValues m req bound.context).strict.bind fun values => ?_
    exact (strict_ask _).bind fun stored => (offline_pure _).strict
  | list =>
    show Strict (list m bound)
    rw [list_eq]
    split
    · exact (offline_pure _).strict
    · exact (strict_ask _).bind fun records => (offline_pure _).strict
  | read => exact (offline_ofExcept _).strict.bind fun record => (offline_pure _).strict
  | update =>
    show Strict (update m req bound)
    rw [update_eq]
    refine (offline_ofExcept _).strict.bind fun record => ?_
    refine (offline_changedValues m req).strict.bind fun values => ?_
    refine (offline_ofExcept _).strict.bind fun filter => ?_
    exact (strict_ask _).bind fun updated => (offline_updateReply m updated).strict
  | delete =>
    refine (offline_ofExcept _).strict.bind fun record => ?_
    refine (offline_ofExcept _).strict.bind fun filter => ?_
    exact (strict_ask _).bind fun deleted => (offline_deleteReply m deleted).strict

/-- No failed call of a request is tried again or hidden. -/
theorem execute_strict (route : Route) (action : Action) (req : Request) :
    Strict (execute route action req) := by
  unfold execute
  split
  · exact .done _
  next rule _ =>
    refine (offline_ofExcept _).strict.bind fun req' => ?_
    refine (bindContext_strict route.model rule req').bind fun bound => ?_
    refine (offline_ofExcept _).strict.bind fun allowed => ?_
    exact perform_strict route.model action req' bound

/-- The response to a request whose storage failed. -/
def storageFailure : Response where
  status := 500
  body := some (.obj [("error", .obj [("code", .str "STORAGE_ERROR"),
    ("message", .str "storage operation failed")])])

/-! ### The discipline -/

/-- Against every driver, the calls of a request to a compiled route come in the
    order of its action, on the collection of its model. Every call but a lookup
    comes after the permission was found to hold in the context of the request.
    A failed call is the last one, and the response then says nothing of how it
    failed. -/
theorem call_discipline {σ : Type} {decl : RouteDecl} {catalog : Catalog}
    (hroute : Route.compile decl catalog = .ok route) (driver : Driver σ) (action : Action)
    (req : Request) (w : World σ) :
    let calls := (execute route action req).exchanges driver w
    Sequence route.model action (calls.map (·.call)) ∧
      ∀ before e after, calls = before ++ e :: after →
        ((∀ lookup, e.call ≠ .findOne route.model.collection lookup) →
          ∃ bound, Clears route action req before bound) ∧
        ∀ message, e.answer = .error (.storage message) →
          after = [] ∧ (handle driver route action req w).1 = storageFailure := by
  intro calls
  have hcompiled : route.Compiled catalog := Route.compile_compiled hroute
  have htrail : Trail (execute route action req) calls
      (.done ((execute route action req).run driver w).1) := trail_exchanges _ _ _
  refine ⟨execute_sequence hcompiled htrail, ?_⟩
  intro before e after hcalls
  have htrail : Trail (execute route action req) (before ++ ⟨e.call, e.answer⟩ :: after)
      (.done ((execute route action req).run driver w).1) := hcalls ▸ htrail
  constructor
  · intro hlookup
    rcases execute_call hcompiled htrail with ⟨-, -, lookup, hcall⟩ | ⟨bound, next, hclears, -⟩
    · exact absurd hcall (hlookup lookup)
    · exact ⟨bound, hclears⟩
  · intro message hfailed
    obtain ⟨hlast, hend⟩ := (execute_strict route action req).failed_last htrail hfailed
    have hresult : ((execute route action req).run driver w).1 = .error (.storage message) :=
      Flow.done.inj hend
    have hresponse : (handle driver route action req w).1 =
        Response.ofResult ((execute route action req).run driver w).1 := rfl
    rw [hresponse, hresult]
    exact ⟨hlast, rfl⟩

/-- A driver that finds one record and cannot write. -/
def readOnly (record : Record) (reason : String) : Driver Unit where
  kind := "read-only"
  answer c w :=
    match c with
    | .findOne .. => (.ok (some record), w)
    | _ => (.error (.storage reason), w)

/-- How an exchange failed, if it did. -/
def failure? (e : Exchange) : Option Error :=
  match e.answer with
  | .ok _ => none
  | .error err => some err

theorem failure?_eq_some {err : Error} : failure? e = some err ↔ e.answer = .error err := by
  unfold failure?
  cases e.answer <;> simp

/-- Ann changes her note on a full disk: it is found, the write fails, and
    nothing more is tried or told. -/
theorem notes_on_a_full_disk :
    ∃ decl catalog route, Route.compile decl catalog = .ok route ∧
      let driver := readOnly [("_id", .str "1"), ("by", .str "ann")] "no space left on device"
      let req : Request := ⟨[("_id", (Supply.still.ids 0).toHex)],
        some (.obj [("at", .str "dusk")]), .authenticated ⟨"ann", [], none, none, []⟩⟩
      let w : World Unit := ⟨Supply.still, ()⟩
      let calls := (execute route .update req).exchanges driver w
      calls.map failure? = [none, some (.storage "no space left on device")] ∧
      Sequence route.model .update (calls.map (·.call)) ∧
      (handle driver route .update req w).1 = storageFailure := by
  let decl : RouteDecl := ⟨"/n", "Note", [("u", .permission "@note.by=@req_user._id")]⟩
  let driver := readOnly [("_id", .str "1"), ("by", .str "ann")] "no space left on device"
  let req : Request := ⟨[("_id", (Supply.still.ids 0).toHex)],
    some (.obj [("at", .str "dusk")]), .authenticated ⟨"ann", [], none, none, []⟩⟩
  let w : World Unit := ⟨Supply.still, ()⟩
  have htest : okAnd (Config.catalogOf Config.notesDecl) (fun catalog =>
      okAnd (Route.compile decl catalog) fun route =>
        decide (((execute route .update req).exchanges driver w).map failure? =
          [none, some (.storage "no space left on device")])) = true := by decide +kernel
  obtain ⟨catalog, -, htest⟩ := okAnd_iff.mp htest
  obtain ⟨route, hroute, htest⟩ := okAnd_iff.mp htest
  have hfailures := of_decide_eq_true htest
  obtain ⟨hsequence, hcalls⟩ := call_discipline hroute driver .update req w
  refine ⟨decl, catalog, route, hroute, hfailures, hsequence, ?_⟩
  obtain ⟨lookup, rest, hlog, -, hrest⟩ := List.map_eq_cons_iff.mp hfailures
  obtain ⟨write, last, rfl, hwrite, -⟩ := List.map_eq_cons_iff.mp hrest
  exact ((hcalls [lookup] write last hlog).2 _ (failure?_eq_some.mp hwrite)).2

end RecordGate.Engine

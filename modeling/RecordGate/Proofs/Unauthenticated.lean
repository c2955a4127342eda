import RecordGate.Engine.Handle
import RecordGate.Proofs.Compilation
import RecordGate.Proofs.Resolution

/-! # Callers without a valid credential

  Under a checked configuration nobody creates or lists anything without a
  valid credential, and nobody reaches an owned record.

  **Key idea.** Without claims nothing is bound under the caller's root.

  - Where no record is loaded, the permission can only be about the caller, so
    it is unresolved.
  - Where a record with an owner is loaded, the lookup needs the caller's
    identifier, so it is not even made.

  Either way the flow is a plain failure: it asks the storage for nothing.
-/

namespace RecordGate.Engine

/-- A caller without claims. -/
def Unauthenticated (caller : Caller) : Prop :=
  ∀ claims, caller ≠ .authenticated claims

/-- A request ends with an error under every driver, in the world in which it
    came in and without a storage call. -/
def Refused (route : Route) (action : Action) (req : Request) (e : Error) : Prop :=
  ∀ (σ : Type) (driver : Storage.Driver σ) (w : World σ),
    (execute route action req).run driver w = (.error e, w) ∧
      (execute route action req).exchanges driver w = []

theorem refused_of_fail {route : Route} {action : Action} {req : Request} {e : Error}
    (h : execute route action req = Flow.fail e) : Refused route action req e := by
  intro σ driver w
  rw [h]
  exact ⟨rfl, rfl⟩

/-! ### What is bound without claims -/

theorem callerContext_of_unauthenticated {caller : Caller} (h : Unauthenticated caller) :
    callerContext caller = Context.empty := by
  cases caller with
  | authenticated claims => exact absurd rfl (h claims)
  | anonymous => rfl
  | rejected reason => rfl

/-- Nothing resolves where nothing is bound. -/
theorem evaluate_empty (e : Expr) : e.evaluate Context.empty = .error (.unresolved e.left) := by
  unfold Expr.evaluate
  rw [Path.resolve_of_unbound rfl]

theorem ownerValue?_empty (m : Model) : ownerValue? m Context.empty = none := by
  unfold ownerValue?
  cases m.owner with
  | none => rfl
  | some owner => cases m.field? owner <;> simp [Context.callerId?, Context.get?, Context.empty]

theorem lookupFilter?_empty {m : Model} {w : String} (hw : m.owner = some w) (b : Binding)
    (params : Keyed String) : lookupFilter? m b Context.empty params = none := by
  unfold lookupFilter?
  cases keyValue? m b params with
  | none => rfl
  | some key => simp [hw, ownerValue?_empty]

/-- A credential that was rejected is refused or forgotten. -/
theorem checkCredential_of_unauthenticated {req : Request} (h : Unauthenticated req.caller)
    (rule : Rule) :
    (∃ reason, checkCredential rule req = .error (.unauthorized reason)) ∨
      ∃ req', checkCredential rule req = .ok req' ∧ callerContext req'.caller = Context.empty := by
  unfold checkCredential
  split
  next reason _ =>
    split
    · exact .inl ⟨reason, rfl⟩
    · exact .inr ⟨_, rfl, rfl⟩
  · exact .inr ⟨req, rfl, callerContext_of_unauthenticated h⟩

/-! ### How a rule refuses -/

section rules
variable {m : Model} {action : Action} {rule : Rule} {req req' : Request} {e : Error}

theorem handleRule_of_credential (h : checkCredential rule req = .error e) :
    handleRule m action rule req = Flow.fail e := by
  unfold handleRule
  rw [h]
  rfl

/-- Without a record to load, the permission is evaluated on the caller
    alone. -/
theorem handleRule_of_unbound (h : checkCredential rule req = .ok req')
    (hcontext : callerContext req'.caller = Context.empty) (hb : rule.binding = none) :
    handleRule m action rule req =
      Flow.fail (.forbidden (Denial.unresolved rule.permission.left).message) := by
  have hdenied : authorize rule Context.empty =
      .error (.forbidden (Denial.unresolved rule.permission.left).message) := by
    unfold authorize
    rw [evaluate_empty]
  unfold handleRule bindContext
  rw [h, Flow.ofExcept_ok_bind, hb, hcontext]
  show (Flow.ofExcept (authorize rule Context.empty) >>= fun _ =>
    perform m action req' ⟨Context.empty, none⟩) = _
  rw [hdenied]
  rfl

/-- The record of somebody is not looked up for nobody. -/
theorem handleRule_of_owned {b : Binding} {w : String} (h : checkCredential rule req = .ok req')
    (hcontext : callerContext req'.caller = Context.empty) (hb : rule.binding = some b)
    (hw : m.owner = some w) : handleRule m action rule req = Flow.fail (missing m) := by
  unfold handleRule bindContext
  simp only [h, Flow.ofExcept_ok_bind, hb, hcontext, lookupFilter?_empty hw]
  rfl

end rules

/-! ### Unauthenticated requests -/

/-- Under a checked configuration, a caller without claims is refused every
    create and every list, and every action on a record of a model with an
    owner, before any storage call. -/
theorem unauthenticated_refused {text : String} {cfg : Config} (hcfg : Config.ofText text = .ok cfg)
    {e : Endpoint} (he : e ∈ Endpoint.plan cfg.routes) {req : Request}
    (hcaller : Unauthenticated req.caller) :
    (e.action = .create ∨ e.action = .list →
      ∃ error, Refused e.route e.action req error ∧ (error.status = 401 ∨ error.status = 403)) ∧
    (e.route.model.owner.isSome = true →
      e.action = .read ∨ e.action = .update ∨ e.action = .delete →
      ∃ error, Refused e.route e.action req error ∧ (error.status = 401 ∨ error.status = 404)) := by
  obtain ⟨hroute, -, -, rule, hrule⟩ := Endpoint.mem_plan he
  have hfits := (Config.ofText_compiled hcfg e.route hroute).rules e.action rule hrule
  have hexecute : execute e.route e.action req = handleRule e.route.model e.action rule req := by
    unfold execute
    rw [hrule]
  constructor
  · intro haction
    -- these actions load nothing, so the permission is about the caller alone
    have hb : rule.binding = none := by
      have hloads := hfits.loads
      rcases haction with haction | haction <;> simpa [haction, Action.targetsOne] using hloads
    rcases checkCredential_of_unauthenticated hcaller rule with ⟨reason, hcred⟩ | ⟨req', hcred, hc⟩
    · exact ⟨_, refused_of_fail (hexecute.trans (handleRule_of_credential hcred)), .inl rfl⟩
    · exact ⟨_, refused_of_fail (hexecute.trans (handleRule_of_unbound hcred hc hb)), .inr rfl⟩
  · intro howner haction
    have htargets : e.action.targetsOne = true := by
      rcases haction with haction | haction | haction <;> rw [haction] <;> rfl
    -- the lookup would need the identifier of the caller
    obtain ⟨w, hw⟩ := Option.isSome_iff_exists.mp howner
    obtain ⟨b, hb⟩ := Option.isSome_iff_exists.mp (hfits.loads.trans htargets)
    rcases checkCredential_of_unauthenticated hcaller rule with ⟨reason, hcred⟩ | ⟨req', hcred, hc⟩
    · exact ⟨_, refused_of_fail (hexecute.trans (handleRule_of_credential hcred)), .inl rfl⟩
    · exact ⟨_, refused_of_fail (hexecute.trans (handleRule_of_owned hcred hc hb hw)), .inr rfl⟩

/-- Nobody creates or updates a note anonymously. -/
theorem notes_refused :
    ∃ cfg, Config.ofText Config.notes = .ok cfg ∧
      (∃ e ∈ Endpoint.plan cfg.routes, e.action = .create ∧
        ∃ error, Refused e.route e.action ⟨[], none, .anonymous⟩ error ∧
          (error.status = 401 ∨ error.status = 403)) ∧
      (∃ e ∈ Endpoint.plan cfg.routes, e.action = .update ∧ e.route.model.owner = some "by" ∧
        ∃ error, Refused e.route e.action ⟨[], none, .anonymous⟩ error ∧
          (error.status = 401 ∨ error.status = 404)) := by
  obtain ⟨cfg, hcfg, hplan⟩ := Config.notes_accepted
  have hanonymous : Unauthenticated Caller.anonymous := fun claims h => by cases h
  have hmem : ∀ pair ∈ [(Action.create, some "by"), (.update, some "by")],
      ∃ e ∈ Endpoint.plan cfg.routes, (e.action, e.route.model.owner) = pair := by
    intro pair hpair
    rw [← hplan] at hpair
    exact List.mem_map.mp hpair
  refine ⟨cfg, hcfg, ?_, ?_⟩
  · obtain ⟨e, he, hpair⟩ := hmem _ List.mem_cons_self
    have haction : e.action = .create := congrArg Prod.fst hpair
    exact ⟨e, he, haction, (unauthenticated_refused hcfg he hanonymous).1 (.inl haction)⟩
  · obtain ⟨e, he, hpair⟩ := hmem _ (List.mem_cons_of_mem _ List.mem_cons_self)
    have haction : e.action = .update := congrArg Prod.fst hpair
    have howner : e.route.model.owner = some "by" := congrArg Prod.snd hpair
    exact ⟨e, he, haction, howner, (unauthenticated_refused hcfg he hanonymous).2
      (by rw [howner]; rfl) (.inr (.inl haction))⟩

end RecordGate.Engine

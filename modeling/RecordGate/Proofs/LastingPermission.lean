import RecordGate.Proofs.Interleaving
import RecordGate.Proofs.Lockstep

/-! # Permissions that last until the write

  An update or a delete is allowed on what its lookup found, and writes later.
  The write names the record by its identifier alone, so other requests may
  have changed or replaced that record in between. Where the permission looks
  at nothing but what no update writes, this makes no difference.

  **Key idea.** The record that was found is followed (`Followed`): what stands
  under its identifier when the write comes has the same values under all names
  that no update writes, for identifiers are not handed out twice. These names
  include the owner, which the lookup compared with the caller.
-/

namespace RecordGate

/-- The record that a call is about to update or to delete. -/
def Storage.Call.target? (c : Storage.Call) (store : Storage.Memory) : Option Record :=
  match c with
  | .updateOne collection filter _ => (store.rows collection).find? (Storage.accepts filter)
  | .deleteOne collection filter => (store.rows collection).find? (Storage.accepts filter)
  | .findOne .. | .findAll .. | .insertOne .. => none

namespace Engine

open Storage RecordGate.Flow

/-- A permission that looks at nothing of the loaded record but what no update
    writes. -/
def Steady (m : Model) (permission : Expr) : Prop :=
  ∀ p ∈ permission.paths, p.root = m.bindingName →
    ∃ k rest, p.segments = k :: rest ∧ WriteOnce m k

variable {m : Model} {permission : Expr} {c : Context} {record row : Record}

/-- Such a permission cannot tell two records apart that agree on what no update
    writes. -/
theorem Steady.holds_congr (h : Steady m permission)
    (hsame : ∀ k, WriteOnce m k → row.get? k = record.get? k) :
    permission.holds (c.bind m.bindingName (.obj row)) =
      permission.holds (c.bind m.bindingName (.obj record)) := by
  have hpaths : ∀ p ∈ permission.paths, p.resolve (c.bind m.bindingName (.obj row)) =
      p.resolve (c.bind m.bindingName (.obj record)) := by
    intro p hp
    refine Path.resolve_bind_congr fun hroot => ?_
    obtain ⟨k, rest, hsegments, hk⟩ := h p hp hroot
    exact ⟨k, rest, hsegments, hsame k hk⟩
  unfold Expr.holds
  rw [Expr.evaluate_congr hpaths]

/-- What a lookup on a model with an owner accepts belongs to the caller. -/
theorem owned_of_accepts (hm : m.Checked) {owner : String} (howner : m.owner = some owner)
    {b : Binding} {params : Keyed String} {filter : Record}
    (hlookup : lookupFilter? m b c params = some filter) (haccepts : accepts filter record = true) :
    ∃ id, ownerValue? m c = some id ∧ record.get? owner = some id := by
  rw [lookupFilter?_owned howner] at hlookup
  obtain ⟨key, -, hlookup⟩ := Option.bind_eq_some_iff.mp hlookup
  obtain ⟨id, hid, rfl⟩ := Option.map_eq_some_iff.mp hlookup
  obtain ⟨text, rfl⟩ := ownerValue?_text hm hid
  have howned := ((accepts_insert b.field owner key (.str text) record).mp haccepts).2
  exact ⟨_, hid, (accepts_text owner text record).mp howned⟩

/-- A call that has a target names it by the identifier of the loaded record. -/
theorem Acts.target {req : Request} {bound : Bound} {action : Action} {call : Call}
    {next : Except Error call.Answer → Flow Response} (h : Acts m req bound action call next)
    {store : Memory} (htarget : call.target? store = some row) :
    row ∈ store.rows m.collection ∧ ∃ record, bound.resource = some record ∧
      ∀ id, record.get? idField = some (.str id) → row.get? idField = some (.str id) := by
  have hrow : ∀ filter record, byId record = .ok filter →
      (store.rows m.collection).find? (accepts filter) = some row →
      row ∈ store.rows m.collection ∧
        ∀ id, record.get? idField = some (.str id) → row.get? idField = some (.str id) := by
    intro filter record hagain hfind
    refine ⟨List.mem_of_find?_eq_some hfind, fun id hid => ?_⟩
    have hfilter : filter = [(idField, .str id)] :=
      Except.ok.inj (hagain.symm.trans (byId_text hid))
    rw [hfilter] at hfind
    exact (accepts_text idField id row).mp (List.find?_some hfind)
  cases h with
  | created _ => cases htarget
  | listed _ => cases htarget
  | updated loaded again _ =>
    obtain ⟨hmem, hid⟩ := hrow _ _ again htarget
    exact ⟨hmem, _, loaded, hid⟩
  | deleted loaded again =>
    obtain ⟨hmem, hid⟩ := hrow _ _ again htarget
    exact ⟨hmem, _, loaded, hid⟩

/-- Requests may interleave in any way. If the next call of an update or a delete
    has a target, then that has the identifier of the record on which the
    request was allowed, its owner is still the caller, and a permission that
    looks at nothing but what no update writes still holds on it. -/
theorem permission_lasts {text : String} {cfg : Config} (hcfg : Config.ofText text = .ok cfg)
    (hm : SoleModel cfg m) (howner : m.owner ≠ some idField) {s : Traffic}
    (hs : Reached cfg s) (hdistinct : s.world.supply.Distinct) {t : Task} (ht : t ∈ s.tasks)
    (hmodel : t.visit.route.model = m) {c : Call}
    {next : Except Error c.Answer → Flow Response} (hrest : t.rest = .call c next)
    (htarget : c.target? s.world.store = some row) :
    ∃ rule req filter record, t.visit.route.rule? t.visit.action = some rule ∧
      checkCredential rule t.visit.request = .ok req ∧ found m filter record ∈ t.log ∧
      let context := callerContext req.caller
      rule.permission.holds (context.bind m.bindingName (.obj record)) = true ∧
      row.get? idField = record.get? idField ∧
      (∀ owner, m.owner = some owner →
        ∃ id, ownerValue? m context = some id ∧ row.get? owner = some id) ∧
      (Steady m rule.permission →
        rule.permission.holds (context.bind m.bindingName (.obj row)) = true) := by
  have hsound : Sound cfg m s := hs.sound hcfg hm howner hdistinct
  have htrail := hsound.trails t ht
  rw [hrest] at htrail
  subst hmodel
  rcases execute_paused htrail with ⟨-, _, lookup, -, -, rfl⟩ | ⟨bound, hclears, hacts⟩
  · cases htarget
  obtain ⟨hmem, record, hloaded, hsame⟩ := hacts.target htarget
  obtain ⟨rule, req, hrule, hcredential, hbinds, hholds⟩ := hclears
  generalize hlog : t.log = log at hbinds
  cases hbinds with
  | caller _ => cases hloaded
  | @record b filter _ hb hlookup =>
    cases hloaded
    have hfound : found t.visit.route.model filter record ∈
        [found t.visit.route.model filter record] := List.mem_singleton.mpr rfl
    obtain ⟨haccepts, hfollowed⟩ := hsound.followed t ht filter record (hlog ▸ hfound)
    obtain ⟨k, -, hid⟩ := hfollowed.issued
    have hid' : row.get? idField = record.get? idField := (hsame _ hid).trans hid.symm
    -- what stands under the identifier agrees with the record on what no update writes
    have hagrees : ∀ k, WriteOnce t.visit.route.model k → row.get? k = record.get? k :=
      hfollowed.agrees row hmem hid'
    refine ⟨rule, req, filter, record, hrule, hcredential, hfound, hholds, hid', ?_, ?_⟩
    · intro owner howned
      have hmodel : t.visit.route.model ∈ cfg.catalog.models := hm.mem
      have hchecked := (Config.ofText_built hcfg).checked _ hmodel
      obtain ⟨id, hcaller, hrecord⟩ := owned_of_accepts hchecked howned hlookup haccepts
      exact ⟨id, hcaller, (hagrees owner (.owner howned)).trans hrecord⟩
    · intro hsteady
      rw [hsteady.holds_congr hagrees]
      exact hholds

/-- In the rush, the second change is written after the first one, to a card that
    is no longer what it was when it was found, but still Ann's. -/
theorem cards_last :
    ∃ cfg m s t c row, Config.ofText Config.cards = .ok cfg ∧ SoleModel cfg m ∧
      Reached cfg s ∧ t ∈ s.tasks ∧ t.visit.route.model = m ∧ t.call? = some c ∧
      c.target? s.world.store = some row ∧ row.get? "text" = some (.str "hi") ∧
      ∃ rule req filter record, t.visit.route.rule? t.visit.action = some rule ∧
        checkCredential rule t.visit.request = .ok req ∧ found m filter record ∈ t.log ∧
        record.get? "text" = some (.str "hello") ∧ row.get? idField = record.get? idField ∧
        rule.permission.holds
          ((callerContext req.caller).bind m.bindingName (.obj row)) = true := by
  have htest : okAnd (Config.ofDecl Config.cardsDecl) (fun cfg => cfg.onlyAnd fun m route =>
      decide ((rush route [1]).world.supply.issued = 1) && decide (m.owner = some "by") &&
      ((rush route [1]).tasks[2]?).any fun t =>
        decide ((t.call?.bind fun c => c.target? (rush route [1]).world.store).map
          (Record.get? · "text") = some (some (.str "hi"))) &&
        t.log.all (fun e =>
          decide ((foundRecord? e).bind (Record.get? · "text") = some (.str "hello"))) &&
        (t.visit.route.rule? t.visit.action).all fun rule =>
          rule.permission.paths.all fun p =>
            decide (p.root = m.bindingName → p.segments = ["by"])) = true := by
    decide +kernel
  obtain ⟨cfg, hdecl, htest⟩ := okAnd_iff.mp htest
  have hcfg : Config.ofText Config.cards = .ok cfg := Config.ofText_cards.trans hdecl
  obtain ⟨m, route, hmodels, hroutes, htest⟩ := Config.onlyAnd_iff.mp htest
  have hm : SoleModel cfg m := soleModel_of_single hmodels
  have hroute : route ∈ cfg.routes := by
    rw [hroutes]
    exact List.mem_singleton.mpr rfl
  have hreached : Reached cfg (rush route [1]) := reached_rush hroute [1]
  cases htask : (rush route [1]).tasks[2]? with
  | none => simp [htask] at htest
  | some t =>
    simp only [htask, Option.any_some, Bool.and_eq_true, decide_eq_true_eq, List.all_eq_true] at htest
    obtain ⟨⟨hissued, howned⟩, ⟨htarget, hlog⟩, hpaths⟩ := htest
    obtain ⟨row, hrow, htext⟩ := Option.map_eq_some_iff.mp htarget
    obtain ⟨c, hcall, hrow⟩ := Option.bind_eq_some_iff.mp hrow
    obtain ⟨next, hrest⟩ := Task.call?_eq_some hcall
    have hmem : t ∈ (rush route [1]).tasks := List.mem_of_getElem? htask
    have howner : m.owner ≠ some idField := by
      rw [howned]
      decide
    have hdistinct : (rush route [1]).world.supply.Distinct := Supply.distinct_of_one hissued
    have hmodel : t.visit.route.model = m :=
      (hreached.sound hcfg hm howner hdistinct).model_eq hcfg hmodels hmem
    obtain ⟨rule, req, filter, record, hrule, hcredential, hfound, -, hid, -, hlasts⟩ :=
      permission_lasts hcfg hm howner hreached hdistinct hmem hmodel hrest hrow
    -- the permission looks at the owner alone
    have hsteady : Steady m rule.permission := by
      intro p hp hroot
      rw [hrule] at hpaths
      have hsegments := of_decide_eq_true (List.all_eq_true.mp hpaths p hp)
      exact ⟨"by", [], hsegments hroot, .owner howned⟩
    have hold : record.get? "text" = some (.str "hello") := hlog _ hfound
    exact ⟨cfg, m, _, t, c, row, hcfg, hm, hreached, hmem, hmodel, hcall, hrow, htext, rule, req,
      filter, record, hrule, hcredential, hfound, hold, hid, hlasts hsteady⟩

end Engine

end RecordGate

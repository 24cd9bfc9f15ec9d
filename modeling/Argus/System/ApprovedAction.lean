import Argus.Actions.RoundTrip
import Argus.System.LocalExecution

/-!
# What was approved is what runs

The columns of a proposal never change, and an approval request has copies of them. A typed handler asks the
control state for exactly the values that the catalog accepted when the action was proposed, although the
parameters were a Go map then and come back from their `jsonb` column with other types of numbers.
-/

namespace Argus.System

open Remediation (RemediationAction SameProposal SameAction Status ControlState)
open Approvals (RequestFor)
open Workers (Handler Merge TypedHandler findHandler)

variable {cfg : Config} {s s' : Shared} {w w' : World}

/-! ## The columns of a proposal -/

/-- The row of a proposal, whatever happened to it since. -/
def Stands (r : RemediationAction) (s : Shared) : Prop :=
  ∃ r' ∈ s.db.remediations, SameProposal r r' ∧ SameAction r r'

theorem keeps_stands (cfg : Config) (d : Discipline) (r : RemediationAction) :
    Keeps cfg d (Stands r) := by
  rintro l s s' - hchange ⟨r₁, hr₁, hproposal, haction⟩
  obtain ⟨r', hr', hrow⟩ := hchange.row hr₁
  exact ⟨r', hr', hproposal.trans hrow.sameProposal, haction.trans hrow.sameAction⟩

/-- Every remediation has an idempotency key. -/
def Keyed (s : Shared) : Prop := ∀ r ∈ s.db.remediations, r.idempotencyKey ≠ ""

theorem keeps_keyed (cfg : Config) (d : Discipline) : Keeps cfg d Keyed := by
  intro l s s' _ hchange hkeyed r' hr'
  rcases hchange.row_of_mem hr' with ⟨r, hr, hrow⟩ | ⟨_, _, _, _, _, _, _, _, -, rfl⟩
  · rw [hrow.sameProposal.idempotencyKey]
    exact hkeyed r hr
  · intro hempty
    have hlist := congrArg String.toList hempty
    simp [Remediation.newRemediation, Remediation.buildIdempotencyKey] at hlist

theorem keyed_of_reachable (h : Reachable cfg w) : Keyed w.shared :=
  ((keeps_keyed cfg .none).continues .refl h fun _ hr => by cases hr).2

/-! ## What handlers ask for -/

/-- The state that a handler asks for, given the parameters that were proposed. -/
def AsksFor (t : TypedHandler) (key : String) (parameters : GoMap GoJson.Number)
    (desired : ControlState) : Prop :=
  match t with
  | .podRestart => ("restart_token", .str key) ∈ desired
  | .connectionPoolResize => ∃ size, Actions.integer (parameters.get "size") = some size ∧
      desired = [("max_connections", .num (.ofInt size))]
  | .featureFlagToggle => ∃ enabled, parameters.get "enabled" = some (.bool enabled) ∧
      desired = [("enabled", .bool enabled)]
  | .cachePurge => ∃ maxKeys, Actions.integer (parameters.get "max_keys") = some maxKeys ∧
      desired = [("max_keys", .num (.ofInt maxKeys)), ("purge_token", .str key)]

variable {g : GoMap GoJson.Number} {r : RemediationAction}

/-- A handler reads from the stored row the values that were proposed. -/
theorem asksFor_desired {t : TypedHandler} (hg : g.encoded = r.parameters.encoded)
    (hvalid : Actions.validate t.name r.target r.parameters = .ok ()) :
    AsksFor t r.idempotencyKey g (t.desired r.decoded) := by
  have hstored : Actions.validate t.name r.target r.parameters.decoded = .ok () := by
    rwa [Actions.validate_decoded]
  cases t with
  | podRestart => simp [AsksFor, TypedHandler.desired, RemediationAction.decoded]
  | connectionPoolResize =>
    obtain ⟨n, hn, hlow, hhigh⟩ := Actions.size_of_validate hstored
    have hint : IsInt64 n := ⟨by omega, by omega⟩
    refine ⟨n, (Actions.integer_get_iff hg "size" hint).mpr hn, ?_⟩
    simp only [TypedHandler.desired, TypedHandler.number, RemediationAction.decoded, hn,
      Option.getD_some]
  | featureFlagToggle =>
    obtain ⟨b, hb⟩ := Actions.enabled_of_validate hstored
    refine ⟨b, (Actions.bool_get_iff hg "enabled" b).mpr hb, ?_⟩
    simp only [TypedHandler.desired, RemediationAction.decoded, hb, Option.getD_some]
  | cachePurge =>
    obtain ⟨n, hn, hlow, hhigh⟩ := Actions.maxKeys_of_validate hstored
    have hint : IsInt64 n := ⟨by omega, by omega⟩
    refine ⟨n, (Actions.integer_get_iff hg "max_keys" hint).mpr hn, ?_⟩
    simp only [TypedHandler.desired, TypedHandler.number, RemediationAction.decoded, hn,
      Option.getD_some]

/-- What was asked of the control state under the key of a row, its handler asked for on the row's behalf. -/
theorem exists_of_mem_asked (hinv : Invariant cfg .none s) {m : Merge} (hm : m ∈ s.asked)
    (hr : r ∈ s.db.remediations) (hkey : m.idempotencyKey = r.idempotencyKey) :
    ∃ t : TypedHandler, t.name = r.actionType ∧ m = t.merge r.decoded ∧
      Actions.validate r.actionType r.target r.parameters = .ok () := by
  obtain ⟨job, hjob, ⟨t, hhandler, hvalid, rfl⟩⟩ := hinv.tables.effects.asked m hm
  have hrunnable := hinv.tables.effects.jobs job hjob
  obtain ⟨r₀, hr₀, hsame, -⟩ := hrunnable.row
  obtain rfl := Table.eq_of_key_eq hinv.tables.coupling.keys hr₀ hr
    (hsame.idempotencyKey.trans hkey)
  have hname : t.name = r₀.actionType := by
    have hfind := List.find?_some hhandler
    rw [hsame.actionType]
    simpa [Handler.name] using hfind
  refine ⟨t, hname, merge_of_sameAction t hsame hrunnable.plain, ?_⟩
  obtain ⟨-, haction⟩ := Workers.validateTypedRequest_eq_ok_iff.mp hvalid
  have hchecked := (Workers.validateAction_eq_ok_iff.mp haction).2
  rw [parameters_of_sameAction hsame hrunnable.plain, hname, ← hsame.target] at hchecked
  rwa [← Actions.validate_decoded]

/-- A handler accepts the stored row of an action that was accepted when it was proposed. -/
theorem validate_stored (hkey : r.idempotencyKey ≠ "") (hg : g.encoded = r.parameters.encoded)
    (hvalid : Actions.validate r.actionType r.target g = .ok ()) {handler : Handler}
    (hname : handler.name = r.actionType) : handler.validate r.decoded = .ok () := by
  rw [Actions.validate_of_encoded_eq hg, ← Actions.validate_decoded] at hvalid
  have haction : Workers.validateAction handler.name r.decoded = .ok () :=
    Workers.validateAction_eq_ok_iff.mpr ⟨hname.symm, hname ▸ hvalid⟩
  cases handler with
  | typed t => exact Workers.validateTypedRequest_eq_ok_iff.mpr ⟨hkey, haction⟩
  | static name message => exact haction

/-! ## Proposals -/

/-- Changes other than an insert leave no row without a predecessor. -/
theorem exists_old_of_changes (h : Changes cfg .none .read s s') {r' : RemediationAction}
    (hr' : r' ∈ s'.db.remediations) : ∃ r ∈ s.db.remediations, r.id = r'.id := by
  induction h generalizing r' with
  | refl => exact ⟨r', hr', rfl⟩
  | tail _ hchange ih =>
    rcases hchange.row_of_mem hr' with ⟨r₁, hr₁, hrow⟩ | ⟨_, _, _, _, _, _, _, _, hl, -⟩
    · obtain ⟨r, hr, hid⟩ := ih hr₁
      exact ⟨r, hr, hid.trans hrow.sameProposal.id.symm⟩
    · cases hl

/-- A new row holds what its proposer passed, and the catalog accepted that unless the row is blocked. -/
theorem exists_candidate_of_new {e : Event} (h : Reachable cfg w)
    (hstep : (argus cfg).step w e = some w') (hr : r ∈ w'.shared.db.remediations)
    (hnew : ∀ y ∈ w.shared.db.remediations, y.id ≠ r.id) :
    ∃ i o incident c, e = .act i o ∧
      w.waiting i = some (.insert (Remediation.Candidate.identity c incident) c.parameters) ∧
      r.actionType = c.actionType ∧ r.target = c.target ∧ r.parameters = c.parameters ∧
      (r.status ≠ .policyBlocked →
        Actions.validate c.actionType c.target c.parameters = .ok ()) := by
  have hold (hrows : w'.shared.db.remediations = w.shared.db.remediations) : False :=
    hnew r (hrows ▸ hr) rfl
  cases happens (sound_of_reachable h) (disciplined_none cfg w e) hstep with
  | nothing heq => exact (hold (by rw [heq])).elim
  | crash heq => exact (hold (by rw [heq, db_crash])).elim
  | environment henv => exact (hold (remediations_environment henv)).elim
  | @step i o l hwaiting _ hact =>
    rcases hact.changes_or_inserts with
      hchanges | ⟨⟨incident, c, _, _, _, _, _, _, rfl, hins, -⟩, -⟩
    · obtain ⟨y, hy, hid⟩ := exists_old_of_changes hchanges hr
      exact (hnew y hy hid).elim
    · rw [hins.eq, List.mem_append, List.mem_singleton] at hr
      rcases hr with hr | rfl
      · exact (hnew r hr rfl).elim
      · exact ⟨i, o, incident, c, rfl, hwaiting, rfl, rfl, rfl, valid_newRemediation⟩

/-! ## Every run -/

/-- From any state on, the columns of a proposal stay as they are, and those of a request are those of its
remediation. Whatever Go map the parameters were when the action was proposed, the catalog accepted it if a
handler ever asks for the action, and the handler asks for the stored target and the values in that map. -/
theorem approved_action_runs (h : Reachable cfg w) (hrun : Continues cfg w w') :
    (∀ r ∈ w.shared.db.remediations, (∃ r' ∈ w'.shared.db.remediations, r'.id = r.id) ∧
      ∀ r' ∈ w'.shared.db.remediations, r'.id = r.id → SameProposal r r' ∧ r'.risk = r.risk) ∧
    (∀ q ∈ w.shared.db.approvals, ∃ r ∈ w.shared.db.remediations, RequestFor q r) ∧
    (∀ e w₁, (argus cfg).step w e = some w₁ → ∀ r ∈ w₁.shared.db.remediations,
      (∀ y ∈ w.shared.db.remediations, y.id ≠ r.id) →
      ∃ i o incident c, e = .act i o ∧
        w.waiting i = some (.insert (Remediation.Candidate.identity c incident) c.parameters) ∧
        r.actionType = c.actionType ∧ r.target = c.target ∧ r.parameters = c.parameters ∧
        (r.status ≠ .policyBlocked →
          Actions.validate c.actionType c.target c.parameters = .ok ())) ∧
    ∀ r ∈ w.shared.db.remediations, ∀ g : GoMap GoJson.Number,
      g.encoded = r.parameters.encoded →
        (Actions.validate r.actionType r.target g = .ok () → ∀ handler : Handler,
          handler.name = r.actionType → handler.validate r.decoded = .ok ()) ∧
        ∀ m ∈ w'.shared.asked, m.idempotencyKey = r.idempotencyKey →
          Actions.validate r.actionType r.target g = .ok () ∧ m.target = r.target ∧
            ∃ t : TypedHandler, t.name = r.actionType ∧ AsksFor t r.idempotencyKey g m.desired := by
  have hinv := invariant_of_reachable h
  have hstands {r : RemediationAction} (hr : r ∈ w.shared.db.remediations) :
      Invariant cfg .none w'.shared ∧ Stands r w'.shared := by
    obtain ⟨hw', hstands⟩ :=
      (keeps_stands cfg .none r).continues h hrun ⟨r, hr, .refl r, .refl r⟩
    exact ⟨invariant_of_reachable hw', hstands⟩
  refine ⟨fun r hr => ?_, fun q hq => ?_, fun e w₁ hstep r hr hnew => ?_, fun r hr g hg => ⟨?_, ?_⟩⟩
  · obtain ⟨hinv', r₁, hr₁, hproposal, haction⟩ := hstands hr
    refine ⟨⟨r₁, hr₁, hproposal.id⟩, fun r' hr' hid => ?_⟩
    obtain rfl := Table.eq_of_key_eq hinv'.ids hr' hr₁ (hid.trans hproposal.id.symm)
    exact ⟨hproposal, haction.risk⟩
  · obtain ⟨r, hr, hcoupled⟩ := hinv.tables.coupling.coupled q hq
    exact ⟨r, hr, hcoupled.columns⟩
  · exact exists_candidate_of_new h hstep hr hnew
  · exact fun hvalid handler hname => validate_stored (keyed_of_reachable h r hr) hg hvalid hname
  · intro m hm hkey
    obtain ⟨hinv', r', hr', hproposal, -⟩ := hstands hr
    obtain ⟨t, hname, rfl, hvalid⟩ :=
      exists_of_mem_asked hinv' hm hr' (hkey.trans hproposal.idempotencyKey.symm)
    have hg' : g.encoded = r'.parameters.encoded := by rw [hproposal.parameters, hg]
    have hdesired := asksFor_desired hg' (hname ▸ hvalid)
    rw [hproposal.actionType, hproposal.target, hproposal.parameters,
      ← Actions.validate_of_encoded_eq hg] at hvalid
    rw [hproposal.idempotencyKey] at hdesired
    exact ⟨hvalid, hproposal.target, t, hname.trans hproposal.actionType, hdesired⟩

/-- The parameters of a rule of the correlator: a Go integer. -/
def poolSize : GoMap GoJson.Number where
  members := [("size", .num (.int 20))]
  normalized := rfl

def poolCandidate : Remediation.Candidate where
  actionType := "resize_connection_pool"
  target := "payments-api"
  risk := "medium"
  parameters := ⟨[("size", .num (.ofInt 20))], rfl⟩

/-- The pool was resized for the row of the candidate. -/
private def resized (w : World) : Bool :=
  w.shared.db.remediations.any fun r =>
    r.parameters == poolCandidate.parameters && r.actionType == poolCandidate.actionType &&
      w.shared.asked.any fun m => m.idempotencyKey == r.idempotencyKey

/-- A connection pool is resized to the size that a rule proposed. -/
theorem approved_action_runs_resize :
    ∃ w, Reachable (defaultConfig .localQueue) w ∧ ∃ r ∈ w.shared.db.remediations,
      poolSize.encoded = r.parameters.encoded ∧ ∃ m ∈ w.shared.asked,
        m.idempotencyKey = r.idempotencyKey ∧ m.target = r.target ∧
          m.desired = [("max_connections", .num (.ofInt 20))] := by
  obtain ⟨w, hw, hrows⟩ := exists_reachable (defaultConfig .localQueue) (executed poolCandidate)
    resized (by decide +kernel)
  obtain ⟨r, hr, ⟨hparameters, haction⟩, m, hm, hkey⟩ :
      ∃ r ∈ w.shared.db.remediations, (r.parameters = poolCandidate.parameters ∧
        r.actionType = poolCandidate.actionType) ∧
        ∃ m ∈ w.shared.asked, m.idempotencyKey = r.idempotencyKey := by
    simpa [resized] using hrows
  have hg : poolSize.encoded = r.parameters.encoded := by
    rw [hparameters]
    decide +kernel
  obtain ⟨-, htarget, t, hname, hasks⟩ :=
    ((approved_action_runs hw .refl).2.2.2 r hr poolSize hg).2 m hm hkey
  obtain rfl : t = .connectionPoolResize := by
    rw [haction] at hname
    cases t with
    | connectionPoolResize => rfl
    | podRestart | featureFlagToggle | cachePurge => exact absurd hname (by decide)
  obtain ⟨size, hsize, hdesired⟩ := hasks
  obtain rfl : (20 : ℤ) = size := Option.some.inj hsize
  exact ⟨w, hw, r, hr, hg, m, hm, hkey, htarget, hdesired⟩

end Argus.System

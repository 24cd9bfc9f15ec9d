import Argus.System.Runs

/-!
# The approval gate

No remediation gets past the gate without a decision of somebody entitled to it, unless it is of low risk
and the policy asked for none. A request and its remediation are always in matching states, and a decision
that is refused leaves both alone.
-/

namespace Argus.System

open Remediation (RemediationAction Status)
open Approvals (Request)
open Strings (trimSpace equalFold)
open Interleave (CanReturn Silent)

variable {cfg : Config} {s : Shared} {w w' : World}

/-! ## Who let a remediation through -/

/-- The approved request of a remediation. -/
theorem approves_of_mem (hinv : Invariant cfg .none s) {r : RemediationAction}
    (hr : r ∈ s.db.remediations) {q : Request} (hq : q ∈ s.db.approvals)
    (hid : q.remediationID = r.id) (happroved : q.status = .approved) :
    Approves cfg q r ∧ q.requestedBy = r.proposedBy := by
  obtain ⟨r', hr', hc⟩ := hinv.tables.coupling.coupled q hq
  obtain rfl := Table.eq_of_key_eq hinv.ids hr' hr (hc.columns.remediationID.trans hid)
  exact ⟨hc.approves happroved, hc.columns.requestedBy⟩

/-- A remediation that was ever let through is of low risk and was free by the policy, or an approved
request for it names who approved it, in time, for a reason, and on somebody else's proposal. -/
theorem four_eyes (h : Reachable cfg w) :
    ∀ r ∈ w.shared.db.remediations,
      (r.status = .approved ∨ r.status = .queued ∨ r.status = .running ∨ r.status = .succeeded) →
      (Actions.risk r.actionType = "low" ∧ r.policyDecision.requiresApproval = false) ∨
      ∃ q ∈ w.shared.db.approvals, q.remediationID = r.id ∧ q.status = .approved ∧
        trimSpace q.decidedBy ≠ "" ∧ q.decidedBy ≠ "system" ∧ q.decidedBy = r.approvedBy ∧
        q.requestedBy = r.proposedBy ∧
        (cfg.allowSelf = false →
          equalFold cfg.fold (trimSpace q.requestedBy) (trimSpace q.decidedBy) = false) ∧
        trimSpace q.decisionReason ≠ "" ∧ ∃ t, q.decidedAt = some t ∧ t < q.expiresAt := by
  intro r hr hstatus
  have hinv := invariant_of_reachable h
  have hgated : gated r.status = true := by
    rcases hstatus with hs | hs | hs | hs <;> rw [hs] <;> rfl
  rcases hinv.tables.coupling.cleared r hr hgated with hlow | ⟨q, hq, hid, happroved⟩
  · exact .inl hlow
  · obtain ⟨happroves, hrequested⟩ := approves_of_mem hinv hr hq hid happroved
    exact .inr ⟨q, hq, hid, happroved, happroves.decidedBy.1, happroves.decidedBy.2,
      happroves.approvedBy.symm, hrequested, happroves.separate, happroves.reason,
      happroves.decidedAt⟩

/-- A remediation of medium risk that was reserved. -/
theorem four_eyes_reserved :
    ∃ w, Reachable (defaultConfig .localQueue) w ∧ ∃ r ∈ w.shared.db.remediations,
      r.status = .queued ∧ Actions.risk r.actionType = "medium" ∧
        ∃ q ∈ w.shared.db.approvals, q.remediationID = r.id ∧ q.decidedBy = r.approvedBy := by
  obtain ⟨w, hw, hrows⟩ := exists_reachable (defaultConfig .localQueue) (reservedPod false)
    (fun w => w.shared.db.remediations.any fun r =>
      r.status == .queued && Actions.risk r.actionType == "medium") (by decide +kernel)
  obtain ⟨r, hr, hrow⟩ := List.any_eq_true.mp hrows
  simp only [Bool.and_eq_true, beq_iff_eq] at hrow
  obtain ⟨hqueued, hmedium⟩ := hrow
  rcases four_eyes hw r hr (.inr (.inl hqueued)) with ⟨hlow, -⟩ | ⟨q, hq, hid, -, -, -, hby, -⟩
  · exact absurd (hmedium.symm.trans hlow) (by decide)
  · exact ⟨w, hw, r, hr, hqueued, hmedium, q, hq, hid, hby⟩

/-! ## Refused decisions -/

/-- The calls that decide or cancel a request. -/
def decidesRequest : Call → Bool
  | .decide .. | .decideByRemediation .. | .cancelByRemediation .. => true
  | _ => false

/-- The call failed, and not because the request had expired. -/
def Refusal (a : Answer) : Prop := ∃ e, e ≠ .expired ∧ a = .done (.error e)

theorem not_refusal_ok : ¬ Refusal (.done (.ok ())) := by
  rintro ⟨_, -, h⟩
  cases h

theorem not_refusal_expired : ¬ Refusal (.done (.error .expired)) := by
  rintro ⟨_, hne, h⟩
  cases h
  exact hne rfl

/-- The decision is the last statement, so a refused call never made one. -/
theorem silent_decide (cfg : Config) (id actor decision reason source : String) :
    Silent Refusal (decide cfg id actor decision reason source) := by
  unfold decide
  split
  · exact Silent.ret _
  refine Silent.bind silent_readClock fun started => Silent.bind silent_query ?_
  rintro (e | _ | pending)
  · exact Silent.ret _
  · exact Silent.ret _
  dsimp only
  split
  · exact Silent.ret _
  refine Silent.bind (silent_transact ?_) ?_
  · rintro o s (_ | _) s' - ⟨a, ha, hreturn⟩ <;> obtain rfl := Interleave.canReturn_ret hreturn
    · exact absurd ha not_refusal_ok
    · exact absurd ha not_refusal_expired
  · rintro (e | _ | _) <;> exact Silent.ret _

theorem silent_decideByRemediation (cfg : Config) (id actor decision reason : String) :
    Silent Refusal (decideByRemediation cfg id actor decision reason) := by
  refine Silent.bind silent_query ?_
  rintro (e | _ | request)
  · exact Silent.ret _
  · exact Silent.ret _
  · exact silent_decide cfg request.id actor decision reason "api"

theorem silent_cancelByRemediation (id actor reason : String) :
    Silent Refusal (cancelByRemediation id actor reason) := by
  unfold cancelByRemediation
  split
  · exact Silent.ret _
  refine Silent.bind (silent_transact ?_) ?_
  · rintro o s _ s' - ⟨a, ha, hreturn⟩
    obtain rfl := Interleave.canReturn_ret hreturn
    exact absurd ha not_refusal_ok
  · rintro (e | _) <;> exact Silent.ret _

theorem silent_refused (cfg : Config) (i : ℕ) (c : Call) :
    Silent (fun a => decidesRequest c = true ∧ Refusal a) (program cfg i c) := by
  cases c with
  | decide id actor decision reason source =>
    simpa [decidesRequest, program] using silent_decide cfg id actor decision reason source
  | decideByRemediation id actor decision reason =>
    simpa [decidesRequest, program] using silent_decideByRemediation cfg id actor decision reason
  | cancelByRemediation id actor reason =>
    simpa [decidesRequest, program] using silent_cancelByRemediation id actor reason
  | _ =>
    refine Silent.of_not_canReturn ?_
    rintro a ⟨h, -⟩
    cases h

/-! ## Requests and their remediations -/

/-- A request that was decided stays as it is. -/
theorem keeps_decided (cfg : Config) (q : Request) (hdecided : q.status ≠ .pending) :
    Keeps cfg .none fun s => q ∈ s.db.approvals := by
  intro l s s' htables hchange hq
  obtain ⟨q', hq', -, heq⟩ := hchange.request_of_mem htables.coupling.requestIDs hq
  exact heq hdecided ▸ hq'

/-- What the state of a request says about the state of its remediation. -/
structure Matches (q : Approvals.Status) (r : Status) : Prop where
  pending : q = .pending ↔ r = .awaitingApproval
  denied : q = .denied → r = .rejected
  expired : q = .expired → r = .timedOut
  cancelled : q = .cancelled → r = .cancelled
  approved : q = .approved →
    r ∈ [Status.approved, .queued, .running, .succeeded, .failed, .timedOut, .cancelled]

theorem matches_of_coupled {q : Approvals.Status} {r : Status} (h : coupled q r = true) :
    Matches q r := by
  constructor <;> cases q <;> cases r <;> simp_all [coupled]

/-- A remediation has at most one request, in a matching state. A request is decided at most once, and a
call that decides or cancels one and fails, unless it found the request expired, changed nothing. -/
theorem requests_coupled (h : Reachable cfg w) :
    (∀ id, (w.shared.db.approvals.filter fun q => q.remediationID = id).length ≤ 1) ∧
    (∀ q ∈ w.shared.db.approvals, ∃ r ∈ w.shared.db.remediations, r.id = q.remediationID) ∧
    (∀ q ∈ w.shared.db.approvals, ∀ r ∈ w.shared.db.remediations, r.id = q.remediationID →
      Matches q.status r.status) ∧
    (∀ q ∈ w.shared.db.approvals, q.status ≠ .pending → ∀ w', Continues cfg w w' →
      q ∈ w'.shared.db.approvals) ∧
    ∀ i c e, w.procs i = some (c, .ret (.done (.error e))) → decidesRequest c = true →
      e ≠ .expired → ∀ w₁ w₂ o, Reachable cfg w₁ → (argus cfg).step w₁ (.act i o) = some w₂ →
        Continues cfg w₂ w → w₂.shared = w₁.shared := by
  have hinv := invariant_of_reachable h
  have hcoupling := hinv.tables.coupling
  refine ⟨fun id => Table.length_filter_key_le_one hcoupling.requests id, fun q hq => ?_,
    fun q hq r hr hid => ?_, fun q hq hdecided w' hrun => ?_,
    fun i c e hp hc he w₁ w₂ o hw₁ hstep hrun => ?_⟩
  · obtain ⟨r, hr, hc⟩ := hcoupling.coupled q hq
    exact ⟨r, hr, hc.columns.remediationID⟩
  · obtain ⟨r', hr', hc⟩ := hcoupling.coupled q hq
    obtain rfl := Table.eq_of_key_eq hinv.ids hr' hr (hc.columns.remediationID.trans hid.symm)
    exact matches_of_coupled hc.status
  · exact ((keeps_decided cfg q hdecided).continues h hrun hq).2
  · exact Interleave.System.unchanged_of_returns (silent_refused cfg) hw₁ hstep hrun hp
      ⟨hc, e, he, rfl⟩

/-- An approved request whose remediation was reserved and cancelled, and a second decision on it. -/
theorem requests_coupled_decided :
    ∃ w, Reachable (defaultConfig .localQueue) w ∧ ∃ q ∈ w.shared.db.approvals,
      q.status = .approved ∧ ∀ r ∈ w.shared.db.remediations, r.id = q.remediationID →
        Matches q.status r.status := by
  obtain ⟨w, hw, hrequests⟩ := exists_reachable (defaultConfig .localQueue)
    (reservedPod false ++ [.start (.cancel "rem_1" "ops"), .act 3 {}, .act 3 {},
      .start (.decideByRemediation "rem_1" "lead" "deny" "too late"), .act 4 {}, .act 4 {},
      .act 4 {}, .act 4 {}])
    (fun w => w.shared.db.approvals.any fun q => q.status == .approved) (by decide +kernel)
  obtain ⟨q, hq, happroved⟩ := List.any_eq_true.mp hrequests
  obtain ⟨-, -, hall, -⟩ := requests_coupled hw
  exact ⟨w, hw, q, hq, by simpa using happroved, hall q hq⟩

end Argus.System

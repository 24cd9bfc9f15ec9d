import Argus.System.Changes

/-!
# Requests and remediations

The invariant of the two tables: a request and its remediation move together, and a remediation that was
let through is of low risk or has an approved request, decided in time by somebody entitled to.
-/

namespace Argus.System

open Remediation (Time RemediationAction Status SameProposal SameAction Write)
open Approvals (Request SameRequest RequestFor)

/-- What the status of a request says about the status of its remediation. -/
def coupled : Approvals.Status → Status → Bool
  | .pending, status => status == .awaitingApproval
  | .denied, status => status == .rejected
  | .expired, status => status == .timedOut
  | .cancelled, status => status == .cancelled
  | .approved, status =>
    match status with
    | .approved | .queued | .running | .succeeded | .failed | .timedOut | .cancelled => true
    | _ => false

/-- The decision that an approved request records. -/
structure Approves (cfg : Config) (q : Request) (r : RemediationAction) : Prop where
  decidedBy : Strings.trimSpace q.decidedBy ≠ "" ∧ q.decidedBy ≠ "system"
  approvedBy : r.approvedBy = q.decidedBy
  separate : cfg.allowSelf = false →
    Strings.equalFold cfg.fold (Strings.trimSpace q.requestedBy) (Strings.trimSpace q.decidedBy) =
      false
  reason : Strings.trimSpace q.decisionReason ≠ ""
  decidedAt : ∃ t, q.decidedAt = some t ∧ t < q.expiresAt

/-- A request and its remediation. -/
structure Coupled (cfg : Config) (q : Request) (r : RemediationAction) : Prop where
  columns : RequestFor q r
  status : coupled q.status r.status = true
  approves : q.status = .approved → Approves cfg q r

/-- The statuses behind the approval gate. -/
def gated : Status → Bool
  | .approved | .queued | .running | .succeeded => true
  | _ => false

/-- Why a remediation may be behind the gate. -/
def Cleared (s : Shared) (r : RemediationAction) : Prop :=
  Actions.risk r.actionType = "low" ∧ r.policyDecision.requiresApproval = false ∨
    ∃ q ∈ s.db.approvals, q.remediationID = r.id ∧ q.status = .approved

/-- The invariant of the two tables. -/
structure Coupling (cfg : Config) (s : Shared) : Prop where
  ids : (s.db.remediations.map (·.id)).Nodup
  keys : (s.db.remediations.map (·.idempotencyKey)).Nodup
  requestIDs : (s.db.approvals.map (·.id)).Nodup
  requests : (s.db.approvals.map (·.remediationID)).Nodup
  coupled : ∀ q ∈ s.db.approvals, ∃ r ∈ s.db.remediations, Coupled cfg q r
  valid : ∀ r ∈ s.db.remediations, r.status ≠ .policyBlocked →
    Actions.validate r.actionType r.target r.parameters = .ok ()
  cleared : ∀ r ∈ s.db.remediations, gated r.status = true → Cleared s r

/-! ## One row -/

variable {cfg : Config} {d : Discipline} {s : Shared} {id : String} {w : Write}
variable {aw : Approvals.Write} {incident : Incidents.Incident} {engine : Policy.Engine}
  {c : Remediation.Candidate} {r' : RemediationAction} {status : Status} {actor id role : String}
  {clock now : Time} {w : Write} {failed recent : ℕ}

theorem Licensed.coupled (h : Licensed cfg d s id w) {a : Approvals.Status}
    (hguard : w.guard status = true) (hcoupled : coupled a status = true) :
    System.coupled a w.status = true := by
  cases w with
  | cancel expected =>
    obtain ⟨hne, hcan⟩ := h
    obtain rfl : status = expected := by simpa [Write.guard] using hguard
    rw [Status.canTransition_cancelled_iff] at hcan
    rcases hcan with rfl | rfl | rfl | rfl | rfl <;> cases a <;>
      simp_all [System.coupled, Write.status]
  | complete target _ _ =>
    rcases h.complete_cases with rfl | rfl | rfl | ⟨rfl, -⟩ <;> cases status <;> cases a <;>
      simp_all [System.coupled, Write.guard, Write.status, Status.isDispatchable]
  | release | claim | markRunning _ =>
    cases status <;> cases a <;>
      simp_all [System.coupled, Write.guard, Write.status, Status.isDispatchable]
  | _ => exact False.elim h

theorem Licensed.gated (h : Licensed cfg d s id w) (hguard : w.guard status = true)
    (hgated : gated w.status = true) : System.gated status = true := by
  cases w with
  | cancel _ => cases hgated
  | complete target _ _ | release | claim | markRunning _ =>
    cases status <;> simp_all [System.gated, Write.guard, Status.isDispatchable]
  | _ => exact False.elim h

theorem Licensed.approvedBy_set (h : Licensed cfg d s id w) (now : Time) (r : RemediationAction) :
    (w.set now r).approvedBy = r.approvedBy := by
  cases w with
  | cancel _ | complete _ _ _ | release | claim | markRunning _ => rfl
  | _ => exact False.elim h

variable {r : RemediationAction} {q : Request}

/-- An update that keeps the approver. -/
private theorem Coupled.set (h : Coupled cfg q r)
    (hstatus : System.coupled q.status w.status = true)
    (hby : (w.set now r).approvedBy = r.approvedBy) : Coupled cfg q (w.set now r) := by
  refine ⟨h.columns.sameAction (w.sameAction_set now r), ?_, fun hq => ?_⟩
  · rwa [Write.status_set]
  · exact { h.approves hq with approvedBy := hby.trans (h.approves hq).approvedBy }

theorem Coupled.reserve (h : Coupled cfg q r) (now : Time) (dryRun : Bool)
    (hstatus : r.status = .approved) : Coupled cfg q ((Write.markQueued dryRun).set now r) := by
  refine h.set ?_ rfl
  have hcoupled := h.status
  rw [hstatus] at hcoupled
  cases hq : q.status <;> simp_all [System.coupled, Write.status]

/-- A request that ends together with its remediation. -/
theorem Settles.coupled (h : Settles cfg q aw w) (hc : Coupled cfg q r) (now : Time) :
    Coupled cfg (aw.set q) (w.set now r) := by
  refine ⟨?_, ?_, fun hq => ?_⟩
  · exact (hc.columns.sameAction (w.sameAction_set now r)).sameRequest (aw.sameRequest_set q)
  · cases h <;> rfl
  · cases h with
    | approve hvalid =>
      exact ⟨hvalid.named, rfl, hvalid.separate, hvalid.reasoned, _, rfl, hvalid.inTime⟩
    | deny | cancel | expire => cases hq

/-! ## One change -/

theorem Cleared.change {l : Label} {s' : Shared} (h : Change cfg d l s s')
    (hids : (s.db.approvals.map (·.id)).Nodup) (hsame : SameProposal r r') (hr : Cleared s r) :
    Cleared s' r' := by
  rcases hr with ⟨hrisk, hpolicy⟩ | ⟨q, hq, hid, hstatus⟩
  · left
    rw [hsame.actionType, hsame.policyDecision]
    exact ⟨hrisk, hpolicy⟩
  · right
    obtain ⟨q', hq', -, heq⟩ := h.request_of_mem hids hq
    obtain rfl := heq (by simp [hstatus])
    exact ⟨q', hq', hid.trans hsame.id.symm, hstatus⟩

/-- A new row is behind the gate only if the policy let it through. -/
theorem cleared_newRemediation (s : Shared)
    (h : gated (Remediation.newRemediation engine incident c actor role id clock recent
      failed).status = true) :
    Cleared s (Remediation.newRemediation engine incident c actor role id clock recent failed) := by
  left
  simp only [Remediation.newRemediation, Remediation.proposedStatus] at h ⊢
  split_ifs at h with hallow happroval
  · cases h
  · have hfree := Bool.eq_false_iff.mpr happroval
    exact ⟨Policy.Engine.risk_low_of_evaluate hallow hfree, hfree⟩
  · cases h

/-- A new row that is not blocked passed the catalog's checks. -/
theorem valid_newRemediation
    (h : (Remediation.newRemediation engine incident c actor role id clock recent failed).status ≠
      .policyBlocked) : Actions.validate c.actionType c.target c.parameters = .ok () := by
  simp only [Remediation.newRemediation, Remediation.proposedStatus] at h
  split_ifs at h with hallow happroval
  · exact (Policy.Engine.checked_of_allow hallow).1.valid
  · exact (Policy.Engine.checked_of_allow hallow).1.valid
  · exact absurd rfl h

namespace Coupling

variable {cfg : Config} {d : Discipline} {s : Shared}

variable {q : Request}

/-- The row of a pending request awaits approval. -/
theorem awaiting_of_pending (h : Coupling cfg s) (hq : q ∈ s.db.approvals)
    (hpending : q.status = .pending) :
    ∃ r ∈ s.db.remediations, Coupled cfg q r ∧ r.status = .awaitingApproval := by
  obtain ⟨r, hr, hc⟩ := h.coupled q hq
  have hstatus := hc.status
  rw [hpending] at hstatus
  exact ⟨r, hr, hc, by simpa [System.coupled] using hstatus⟩

variable {l : Label} {s' : Shared}

section

variable (h : Coupling cfg s)

include h

/-- What was checked at the proposal stays right. -/
private theorem valid' (hchange : Change cfg d l s s') (hr' : r' ∈ s'.db.remediations)
    (hstatus : r'.status ≠ .policyBlocked) :
    Actions.validate r'.actionType r'.target r'.parameters = .ok () := by
  rcases hchange.row_of_mem hr' with ⟨r, hr, hrow⟩ | ⟨_, _, _, _, _, _, _, _, -, rfl⟩
  · have hsame := hrow.sameProposal
    rw [hsame.actionType, hsame.target, hsame.parameters]
    refine h.valid r hr fun hblocked => hstatus ?_
    exact (hrow.terminal (by rw [hblocked]; rfl)).1.trans hblocked
  · exact valid_newRemediation hstatus

/-- An update of remediation rows alone. -/
private theorem rows (hchange : Change cfg d l s s')
    (hrows : s'.db.remediations = Remediation.updateWhere now id w s.db.remediations)
    (happrovals : s'.db.approvals = s.db.approvals)
    (hcoupled : ∀ q r, Coupled cfg q r → w.guard r.status = true → Coupled cfg q (w.set now r))
    (hgated : ∀ status, w.guard status = true → gated w.status = true → gated status = true) :
    Coupling cfg s' := by
  refine ⟨?_, ?_, ?_, ?_, ?_, fun _ => h.valid' hchange, ?_⟩
  · rw [hrows, Remediation.map_updateWhere now id w fun r => (w.sameProposal_set now r).id]
    exact h.ids
  · rw [hrows,
      Remediation.map_updateWhere now id w fun r => (w.sameProposal_set now r).idempotencyKey]
    exact h.keys
  · rw [happrovals]
    exact h.requestIDs
  · rw [happrovals]
    exact h.requests
  · rw [happrovals, hrows]
    intro q hq
    obtain ⟨r, hr, hc⟩ := h.coupled q hq
    obtain ⟨r', hr', ⟨rfl, -⟩ | ⟨rfl, -, hguard⟩⟩ := Remediation.exists_mem_updateWhere now id w hr
    · exact ⟨r', hr', hc⟩
    · exact ⟨_, hr', hcoupled q r hc hguard⟩
  · intro r' hr' hg
    rw [hrows] at hr'
    obtain ⟨r, hr, rfl | ⟨rfl, -, hguard⟩⟩ := Remediation.mem_updateWhere hr'
    · exact (h.cleared r' hr hg).change hchange h.requestIDs (.refl r')
    · rw [Write.status_set] at hg
      exact (h.cleared r hr (hgated _ hguard hg)).change hchange h.requestIDs
        (w.sameProposal_set now r)

private theorem settle (now : Time) (l : Label) (hq : q ∈ s.db.approvals)
    (hpending : q.status = .pending) (hsettles : Settles cfg q aw w) :
    Coupling cfg (s.withDb (s.db.settle now q aw w)) := by
  have hchange : Change cfg .none l s (s.withDb (s.db.settle now q aw w)) :=
    .settle now q aw w hq hpending hsettles
  refine ⟨?_, ?_, ?_, ?_, ?_, fun _ => h.valid' hchange, ?_⟩
  · have hmap := Remediation.map_updateWhere now q.remediationID w
      (fun r => (w.sameProposal_set now r).id) s.db.remediations
    exact hmap ▸ h.ids
  · have hmap := Remediation.map_updateWhere now q.remediationID w
      (fun r => (w.sameProposal_set now r).idempotencyKey) s.db.remediations
    exact hmap ▸ h.keys
  · have hmap := Approvals.map_update q.id aw (fun q => (aw.sameRequest_set q).id) s.db.approvals
    exact hmap ▸ h.requestIDs
  · have hmap := Approvals.map_update q.id aw (fun q => (aw.sameRequest_set q).remediationID)
      s.db.approvals
    exact hmap ▸ h.requests
  · intro q' hq'
    obtain ⟨q₁, hq₁, ⟨rfl, hne⟩ | ⟨rfl, hid⟩⟩ := Approvals.mem_update hq'
    · -- another request: its row has another id
      obtain ⟨r, hr, hc⟩ := h.coupled q' hq₁
      have hother : r.id ≠ q.remediationID := by
        rw [hc.columns.remediationID]
        intro heq
        exact hne (congrArg Request.id (Table.eq_of_key_eq h.requests hq₁ hq heq))
      obtain ⟨r', hr', ⟨rfl, -⟩ | ⟨-, hid, -⟩⟩ :=
        Remediation.exists_mem_updateWhere now q.remediationID w hr
      · exact ⟨r', hr', hc⟩
      · exact absurd hid hother
    · obtain rfl := Table.eq_of_key_eq h.requestIDs hq₁ hq hid
      obtain ⟨r, hr, hc, hawait⟩ := h.awaiting_of_pending hq hpending
      obtain ⟨r', hr', ⟨-, hnot⟩ | ⟨rfl, -, -⟩⟩ :=
        Remediation.exists_mem_updateWhere now q₁.remediationID w hr
      · exact absurd ⟨hc.columns.remediationID, (hsettles.guard_iff _).mpr hawait⟩ hnot
      · exact ⟨_, hr', hsettles.coupled hc now⟩
  · intro r' hr' hg
    obtain ⟨r, hr, rfl | ⟨rfl, hid, -⟩⟩ := Remediation.mem_updateWhere hr'
    · exact (h.cleared r' hr hg).change hchange h.requestIDs (.refl r')
    · rw [Write.status_set] at hg
      cases hsettles with
      | approve hvalid =>
        right
        obtain ⟨q', hq', ⟨-, hnot⟩ | ⟨rfl, -⟩⟩ :=
          Approvals.exists_mem_update q.id (.decide .approve _ _ _ _) hq
        · exact absurd rfl hnot
        · exact ⟨_, hq', hid.symm, rfl⟩
      | deny | cancel | expire => cases hg

private theorem insert
    (hins : Remediation.Inserted (Remediation.newRemediation cfg.engine incident c actor role id
      clock recent failed) s.db.remediations s'.db.remediations) (hrest : SameRest s s') :
    Coupling cfg s' := by
  have hchange : Change cfg .none (.insert (c.identity incident) c.parameters) s s' :=
    .insert hins hrest
  refine ⟨?_, ?_, ?_, ?_, ?_, fun _ => h.valid' hchange, ?_⟩
  · rw [hins.eq]
    exact Table.nodup_map_concat h.ids hins.id
  · rw [hins.eq]
    exact Table.nodup_map_concat h.keys hins.key
  · rw [hrest.approvals]
    exact h.requestIDs
  · rw [hrest.approvals]
    exact h.requests
  · rw [hrest.approvals, hins.eq]
    intro q hq
    obtain ⟨r, hr, hc⟩ := h.coupled q hq
    exact ⟨r, List.mem_append_left _ hr, hc⟩
  · intro r hr hg
    rw [hins.eq, List.mem_append, List.mem_singleton] at hr
    rcases hr with hr | rfl
    · exact (h.cleared r hr hg).change hchange h.requestIDs (.refl r)
    · exact cleared_newRemediation s' hg

private theorem request {r : RemediationAction} (hq : q.status = .pending)
    (hr : r ∈ s.db.remediations) (hfor : RequestFor q r) (hstatus : r.status = .awaitingApproval)
    (hnew : ∀ q' ∈ s.db.approvals, q'.id ≠ q.id ∧ q'.remediationID ≠ q.remediationID) :
    Coupling cfg (s.withDb { s.db with approvals := s.db.approvals ++ [q] }) := by
  refine ⟨h.ids, h.keys, ?_, ?_, ?_, h.valid, ?_⟩
  · exact Table.nodup_map_concat h.requestIDs fun q' hq' => (hnew q' hq').1
  · exact Table.nodup_map_concat h.requests fun q' hq' => (hnew q' hq').2
  · intro q' hq'
    rcases List.mem_append.mp hq' with hq' | hq'
    · exact h.coupled q' hq'
    · obtain rfl := List.mem_singleton.mp hq'
      refine ⟨r, hr, hfor, ?_, fun happroved => ?_⟩
      · rw [hq, hstatus]
        rfl
      · rw [hq] at happroved
        cases happroved
  · intro r' hr' hg
    rcases h.cleared r' hr' hg with hlow | ⟨q', hq', hid', hstatus'⟩
    · exact .inl hlow
    · exact .inr ⟨q', List.mem_append_left _ hq', hid', hstatus'⟩

/-- The two tables alone matter. -/
private theorem congr (hrows : s'.db.remediations = s.db.remediations)
    (happrovals : s'.db.approvals = s.db.approvals) : Coupling cfg s' := by
  obtain ⟨h₁, h₂, h₃, h₄, h₅, h₆, h₇⟩ := h
  constructor <;> simp_all [Cleared]

/-- Every change keeps the invariant. -/
theorem change (hchange : Change cfg d l s s') : Coupling cfg s' := by
  cases hchange with
  | frame hrows hrest => exact h.congr hrows hrest.approvals
  | insert hins hrest => exact h.insert hins hrest
  | write now id w hlicensed =>
    refine h.rows (.write (l := l) now id w hlicensed) rfl rfl ?_ ?_
    · intro q r hc hguard
      exact hc.set (hlicensed.coupled hguard hc.status) (hlicensed.approvedBy_set now r)
    · intro status hguard hg
      exact hlicensed.gated hguard hg
  | reserve now pid id dryRun dispatches haffects henqueues =>
    refine h.rows (d := d) (.reserve (l := l) now pid id dryRun dispatches haffects henqueues) rfl
      rfl ?_ ?_
    · intro q r hc hguard
      exact hc.reserve now dryRun (by simpa [Write.guard] using hguard)
    · intro status hguard _
      obtain rfl : status = .approved := by simpa [Write.guard] using hguard
      rfl
  | request hq hr hfor hstatus hnew => exact h.request hq hr hfor hstatus hnew
  | settle now q aw w hq hpending hsettles => exact h.settle now l hq hpending hsettles
  | _ => exact h.congr rfl rfl

end

end Coupling

end Argus.System

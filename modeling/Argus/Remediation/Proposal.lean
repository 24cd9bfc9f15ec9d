import Argus.Incidents.Lifecycle
import Argus.Remediation.Store

/-!
# Proposals

The row that `Propose` builds for a candidate, and the numbering of rows that it keeps: the attempt
number counts the rows of the last ten minutes, while keys are unique over the whole table.
-/

namespace Argus.Remediation

open Incidents (Incident)

/-- A candidate remediation. -/
structure Candidate where
  actionType : String
  target : String
  risk : String
  parameters : Parameters

def Candidate.identity (c : Candidate) (incident : Incident) : Identity where
  incidentID := incident.id
  actionType := c.actionType
  target := c.target
  parameters := c.parameters.stored

/-- The policy input of a proposal. -/
def policyInput (incident : Incident) (c : Candidate) (role : String) (recent failed : ℕ) :
    Policy.Input where
  role := role
  environment := incident.environment
  type := c.actionType
  target := c.target
  risk := c.risk
  parameters := c.parameters
  sameActionLast10m := recent
  failedAttempts := failed

/-- The status of a new row. -/
def proposedStatus (d : Policy.Decision) : Status :=
  if d.allow then if d.requiresApproval then .awaitingApproval else .approved else .policyBlocked

/-- `firstNonEmptyRisk`. -/
def firstNonEmptyRisk (values : List String) : String := (values.find? (· ≠ "")).getD "medium"

/-- The row `Propose` inserts, from the counts it read. -/
def newRemediation (engine : Policy.Engine) (incident : Incident) (c : Candidate)
    (actor role id : String) (clock : Time) (recent failed : ℕ) : RemediationAction :=
  let decision := engine.evaluate (policyInput incident c role recent failed)
  let attempt := recent + 1
  { id := id
    incidentID := incident.id
    actionType := c.actionType
    target := c.target
    parameters := c.parameters
    status := proposedStatus decision
    risk := firstNonEmptyRisk [decision.risk, c.risk]
    idempotencyKey := buildIdempotencyKey incident.id c.actionType c.target attempt c.parameters
    proposedBy := actor
    approvedBy := ""
    policyDecision :=
      { allow := decision.allow
        requiresApproval := decision.requiresApproval
        reason := decision.reason
        maxAttempts := decision.maxAttempts
        failedAttempts := failed
        sameAction10m := recent }
    dryRun := true
    attempt := attempt
    maxAttempts := decision.maxAttempts
    queuedAt := none
    startedAt := none
    completedAt := none
    result := .null
    error := ""
    createdAt := clock.column }

/-- The row that `Propose` builds when it reads its counts from `rows`. -/
def proposal (engine : Policy.Engine) (rows : List RemediationAction) (incident : Incident)
    (c : Candidate) (actor role id : String) (now clock : Time) : RemediationAction :=
  newRemediation engine incident c actor role id clock
    (countRecentSimilarRemediations rows now (c.identity incident))
    (countFailedRemediations rows (c.identity incident))

/-! ## What the table says about attempts

Rows carry the key of their own columns, and an attempt number is never above the number of rows of its
identity. Without negative zeros the attempts of an identity are all the numbers up to that count.
-/

/-- The rows of an identity. -/
def countIdentity (rows : List RemediationAction) (k : Identity) : ℕ :=
  rows.countP fun r => r.identity = k

/-- The parts of a row that its key is spelled from, apart from the attempt. -/
def RemediationAction.spelling (r : RemediationAction) : Digits.Text × Digits.Text :=
  (joinedText r.incidentID r.actionType r.target, digestSuffix r.parameters)

def Candidate.spelling (c : Candidate) (incident : Incident) : Digits.Text × Digits.Text :=
  (joinedText incident.id c.actionType c.target, digestSuffix c.parameters)

/-- The numbering of the rows. -/
structure Numbered (rows : List RemediationAction) : Prop where
  key : ∀ r ∈ rows, r.idempotencyKey =
    buildIdempotencyKey r.incidentID r.actionType r.target r.attempt r.parameters
  pos : ∀ r ∈ rows, 0 < r.attempt
  le_maxInteger : ∀ r ∈ rows, r.attempt ≤ maxInteger
  le_count : ∀ r ∈ rows, r.attempt ≤ countIdentity rows r.identity
  keys : (rows.map (·.idempotencyKey)).Nodup

/-- The attempts of an identity leave no gap. -/
def Consecutive (rows : List RemediationAction) : Prop :=
  ∀ k a, 0 < a → a ≤ countIdentity rows k → ∃ r ∈ rows, r.identity = k ∧ r.attempt = a

/-- The window counts among the rows of the identity. -/
theorem countRecent_eq_countP (rows : List RemediationAction) (now : Time) (k : Identity) :
    countRecentSimilarRemediations rows now k =
      (rows.filter fun r => r.identity = k).countP fun r => now - tenMinutes ≤ r.createdAt := by
  rw [countRecentSimilarRemediations, ← List.countP_eq_length_filter, List.countP_filter]
  exact List.countP_congr fun r _ => by simp [and_comm]

theorem countIdentity_eq_length (rows : List RemediationAction) (k : Identity) :
    countIdentity rows k = (rows.filter fun r => r.identity = k).length :=
  List.countP_eq_length_filter

theorem countRecent_le (rows : List RemediationAction) (now : Time) (k : Identity) :
    countRecentSimilarRemediations rows now k ≤ countIdentity rows k := by
  rw [countRecent_eq_countP, countIdentity_eq_length]
  exact List.countP_le_length

variable {rows : List RemediationAction}

/-- The window holds every row of an identity exactly when it counts them all. -/
theorem countRecent_eq_iff {now : Time} {k : Identity} :
    countRecentSimilarRemediations rows now k = countIdentity rows k ↔
      ∀ r ∈ rows, r.identity = k → now - tenMinutes ≤ r.createdAt := by
  rw [countRecent_eq_countP, countIdentity_eq_length, List.countP_eq_length]
  simp

theorem countIdentity_append (rows : List RemediationAction) (action : RemediationAction)
    (k : Identity) :
    countIdentity (rows ++ [action]) k =
      countIdentity rows k + if action.identity = k then 1 else 0 := by
  simp [countIdentity, List.countP_cons]

variable {f : RemediationAction → RemediationAction}

theorem countIdentity_map (hf : ∀ r, SameProposal r (f r)) (rows : List RemediationAction)
    (k : Identity) : countIdentity (rows.map f) k = countIdentity rows k := by
  rw [countIdentity, List.countP_map]
  exact List.countP_congr fun r _ => by simp [(hf r).identity]

/-- Updates keep the numbering. -/
theorem Numbered.map (h : Numbered rows) (hf : ∀ r, SameProposal r (f r)) :
    Numbered (rows.map f) where
  key := List.forall_mem_map.mpr fun r hr => by
    rw [(hf r).idempotencyKey, (hf r).incidentID, (hf r).actionType, (hf r).target,
      (hf r).attempt, (hf r).parameters]
    exact h.key r hr
  pos := List.forall_mem_map.mpr fun r hr => by
    rw [(hf r).attempt]
    exact h.pos r hr
  le_maxInteger := List.forall_mem_map.mpr fun r hr => by
    rw [(hf r).attempt]
    exact h.le_maxInteger r hr
  le_count := List.forall_mem_map.mpr fun r hr => by
    rw [(hf r).attempt, (hf r).identity, countIdentity_map hf]
    exact h.le_count r hr
  keys := by
    have hkeys : (rows.map f).map (·.idempotencyKey) = rows.map (·.idempotencyKey) := by
      rw [List.map_map]
      exact List.map_congr_left fun r _ => (hf r).idempotencyKey
    rw [hkeys]
    exact h.keys

theorem Consecutive.map (h : Consecutive rows) (hf : ∀ r, SameProposal r (f r)) :
    Consecutive (rows.map f) := by
  intro k a hpos hle
  rw [countIdentity_map hf] at hle
  obtain ⟨r, hr, hk, ha⟩ := h k a hpos hle
  exact ⟨f r, List.mem_map_of_mem hr, (hf r).identity.trans hk, (hf r).attempt.trans ha⟩

/-- A row numbered within the count of its identity. -/
structure NumberedRow (rows : List RemediationAction) (action : RemediationAction) : Prop where
  key : action.idempotencyKey = buildIdempotencyKey action.incidentID action.actionType
    action.target action.attempt action.parameters
  pos : 0 < action.attempt
  le : action.attempt ≤ countIdentity rows action.identity + 1

variable {action : RemediationAction}

theorem Numbered.insert {rows' : List RemediationAction} (h : Numbered rows)
    (hrow : NumberedRow rows action) (hins : Inserted action rows rows') : Numbered rows' := by
  obtain rfl := hins.eq
  have hforall : ∀ {P : RemediationAction → Prop}, (∀ r ∈ rows, P r) → P action →
      ∀ r ∈ rows ++ [action], P r := fun hrows haction =>
    List.forall_mem_append.mpr ⟨hrows, List.forall_mem_singleton.mpr haction⟩
  refine ⟨hforall h.key hrow.key, hforall h.pos hrow.pos,
    hforall h.le_maxInteger hins.attempt, hforall (fun r hr => ?_) ?_, ?_⟩
  · rw [countIdentity_append]
    exact (h.le_count r hr).trans (Nat.le_add_right _ _)
  · rw [countIdentity_append, if_pos rfl]
    exact hrow.le
  · exact Table.nodup_map_concat h.keys hins.key

/-- Rows of one identity, without negative zeros, spell the same keys. -/
theorem key_eq_of_identity_eq {r r' : RemediationAction} (hplain : r.parameters.Plain)
    (hplain' : r'.parameters.Plain) (hk : r.identity = r'.identity) (n : ℕ) :
    buildIdempotencyKey r.incidentID r.actionType r.target n r.parameters =
      buildIdempotencyKey r'.incidentID r'.actionType r'.target n r'.parameters := by
  simp only [RemediationAction.identity, Identity.mk.injEq] at hk
  obtain ⟨hincident, haction, htarget, hstored⟩ := hk
  rw [hincident, haction, htarget, Parameters.eq_of_stored_eq hplain hplain' hstored]

/-- A fresh key is the next number of its identity. -/
theorem Numbered.attempt_eq (h : Numbered rows) (hcons : Consecutive rows)
    (hplain : ∀ r ∈ rows, r.parameters.Plain) (hrow : NumberedRow rows action)
    (haction : action.parameters.Plain)
    (hfresh : ∀ r ∈ rows, r.idempotencyKey ≠ action.idempotencyKey) :
    action.attempt = countIdentity rows action.identity + 1 := by
  refine le_antisymm hrow.le ?_
  by_contra hlt
  obtain ⟨r, hr, hk, ha⟩ := hcons action.identity action.attempt hrow.pos (by omega)
  apply hfresh r hr
  rw [h.key r hr, hrow.key, ha]
  exact key_eq_of_identity_eq (hplain r hr) haction hk _

theorem Consecutive.insert {rows' : List RemediationAction} (hcons : Consecutive rows)
    (hnext : action.attempt = countIdentity rows action.identity + 1)
    (hins : Inserted action rows rows') : Consecutive rows' := by
  obtain rfl := hins.eq
  intro k a hpos hle
  rw [countIdentity_append] at hle
  by_cases hnew : action.identity = k ∧ a = countIdentity rows k + 1
  · obtain ⟨rfl, rfl⟩ := hnew
    exact ⟨action, by simp, rfl, hnext⟩
  · have hold : a ≤ countIdentity rows k := by
      split at hle <;> simp_all
      omega
    obtain ⟨r, hr, hk, ha⟩ := hcons k a hpos hold
    exact ⟨r, List.mem_append_left _ hr, hk, ha⟩

theorem numberedRow_newRemediation (engine : Policy.Engine) (incident : Incident) (c : Candidate)
    (actor role id : String) (clock : Time) (failed : ℕ) {recent : ℕ}
    (h : recent ≤ countIdentity rows (c.identity incident)) :
    NumberedRow rows
      (newRemediation engine incident c actor role id clock recent failed) where
  key := rfl
  pos := Nat.succ_pos _
  le := Nat.succ_le_succ h

theorem numberedRow_proposal (engine : Policy.Engine) (rows : List RemediationAction)
    (incident : Incident) (c : Candidate) (actor role id : String) (now clock : Time) :
    NumberedRow rows (proposal engine rows incident c actor role id now clock) :=
  numberedRow_newRemediation _ _ _ _ _ _ _ _ (countRecent_le _ _ _)

end Argus.Remediation

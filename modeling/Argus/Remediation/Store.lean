import Argus.Base.Table
import Argus.Policy.Engine
import Argus.Remediation.IdempotencyKey
import Argus.Remediation.States
import Mathlib.Data.List.MinMax

/-!
# The `remediation_actions` table

Rows, the queries that `Propose` makes, the insert, and every `UPDATE` of the table. An update is a
`Write`: a guard on the status it finds, and what it sets. `updateWhere` applies it to the row with
a given id, and the table's invariants follow from what a write can change.
-/

namespace Argus.Remediation

/-- Nanoseconds since the epoch. -/
abbrev Time := ℤ

/-- A time as a `timestamptz` column holds it: whole microseconds. -/
def Time.column (t : Time) : Time := t - t % 1000

theorem Time.column_le (t : Time) : t.column ≤ t := by
  have hmod : (0 : ℤ) ≤ t % 1000 := Int.emod_nonneg t (by decide)
  exact Int.sub_le_self t hmod

/-! ## Rows -/

/-- The `policy_decision` column. -/
structure PolicyDecision where
  allow : Bool
  requiresApproval : Bool
  reason : Policy.Reason
  maxAttempts : ℕ
  failedAttempts : ℕ
  sameAction10m : ℕ

/-- A control state: the members of a JSON object. -/
abbrev ControlState := List (String × Json GoJson.Float)

/-- The `result` column: what an executor reported. -/
inductive Result where
  | null
  | reason (text : String)
  | message (mode text target : String)
  | control (mode resourceType target : String) (before after : ControlState) (reused : Bool)
  | helios (workflowID state : String)

/-- A row. -/
structure RemediationAction where
  id : String
  incidentID : String
  actionType : String
  target : String
  parameters : Parameters
  status : Status
  risk : String
  idempotencyKey : String
  proposedBy : String
  approvedBy : String
  policyDecision : PolicyDecision
  dryRun : Bool
  attempt : ℕ
  maxAttempts : ℕ
  queuedAt : Option Time
  startedAt : Option Time
  completedAt : Option Time
  result : Result
  error : String
  createdAt : Time

/-- What makes two remediations the same action. -/
structure Identity where
  incidentID : String
  actionType : String
  target : String
  parameters : Json GoJson.Float
  deriving DecidableEq

def RemediationAction.identity (r : RemediationAction) : Identity where
  incidentID := r.incidentID
  actionType := r.actionType
  target := r.target
  parameters := r.parameters.stored

/-- A row as it is read: its parameters come back from the `jsonb` column. -/
def RemediationAction.decoded (r : RemediationAction) : RemediationAction :=
  { r with parameters := r.parameters.decoded }

/-- Outside the terminal states. -/
def RemediationAction.isActive (r : RemediationAction) : Bool := !r.status.isTerminalState

/-! ## Queries -/

/-- The order of times, in a form that computes. -/
local instance : Preorder Time := Int.instLinearOrder.toPartialOrder.toPreorder

/-- `FindActiveRemediationByAction`: the newest active row of an identity. -/
def findActiveRemediationByAction (rows : List RemediationAction) (k : Identity) :
    Option RemediationAction :=
  (rows.filter fun r => r.identity = k ∧ r.isActive).argmax (·.createdAt)

def tenMinutes : Time := 600 * 10 ^ 9

/-- `CountRecentSimilarRemediations`. -/
def countRecentSimilarRemediations (rows : List RemediationAction) (now : Time) (k : Identity) :
    ℕ :=
  (rows.filter fun r => r.identity = k ∧ now - tenMinutes ≤ r.createdAt).length

/-- `CountFailedRemediations`. -/
def countFailedRemediations (rows : List RemediationAction) (k : Identity) : ℕ :=
  (rows.filter fun r => r.identity = k ∧ (r.status = .failed ∨ r.status = .timedOut)).length

/-- `GetRemediation`. -/
def getRemediation (rows : List RemediationAction) (id : String) : Option RemediationAction :=
  rows.find? fun r => r.id == id

variable {rows : List RemediationAction}

theorem findActive_eq_none_iff {k : Identity} :
    findActiveRemediationByAction rows k = none ↔
      ∀ r ∈ rows, r.identity = k → r.isActive = false := by
  rw [findActiveRemediationByAction, List.argmax_eq_none, List.filter_eq_nil_iff]
  simp

variable {r : RemediationAction}

theorem mem_of_findActive {k : Identity} (h : findActiveRemediationByAction rows k = some r) :
    r ∈ rows ∧ r.identity = k ∧ r.isActive = true := by
  have hmem := List.argmax_mem (Option.mem_def.mpr h)
  simpa using List.mem_filter.mp hmem

variable {id : String}

theorem mem_of_getRemediation (h : getRemediation rows id = some r) : r ∈ rows ∧ r.id = id :=
  ⟨List.mem_of_find?_eq_some h, by simpa using List.find?_some h⟩

/-! ## The insert -/

/-- Why a call fails. -/
inductive Failure where
  /-- the statement, or the commit of its transaction, failed -/
  | unavailable
  | notFound
  | duplicateID
  | duplicateKey
  | constraint
  /-- a conditional update found the row in another state -/
  | stateChanged
  | incidentClosed
  | notDispatchable
  | alreadyDecided
  | expired
  /-- the executor failed, or its answer did not arrive -/
  | executor
  | invalid (message : String)
  deriving DecidableEq, Repr

/-- The largest `INTEGER`. -/
def maxInteger : ℕ := 2 ^ 31 - 1

/-- `CreateRemediation` on the table: types and checks, the primary key, then the unique key. -/
def createRemediation (action : RemediationAction) (rows : List RemediationAction) :
    Except Failure (List RemediationAction) :=
  if action.risk ∉ ["low", "medium", "high"] ∨ maxInteger < action.attempt ∨
      maxInteger < action.maxAttempts then .error .constraint
  else if rows.any fun r => r.id == action.id then .error .duplicateID
  else if rows.any fun r => r.idempotencyKey == action.idempotencyKey then .error .duplicateKey
  else .ok (rows ++ [action])

/-- What a successful insert says. -/
structure Inserted (action : RemediationAction) (rows rows' : List RemediationAction) : Prop where
  eq : rows' = rows ++ [action]
  attempt : action.attempt ≤ maxInteger
  id : ∀ r ∈ rows, r.id ≠ action.id
  key : ∀ r ∈ rows, r.idempotencyKey ≠ action.idempotencyKey

theorem inserted_of_createRemediation {action : RemediationAction} {rows' : List RemediationAction}
    (h : createRemediation action rows = .ok rows') : Inserted action rows rows' := by
  unfold createRemediation at h
  split_ifs at h with hcheck hid hkey
  injection h with h
  refine ⟨h.symm, ?_, ?_, ?_⟩
  · omega
  · simpa using hid
  · simpa using hkey

/-! ## Updates -/

/-- The `UPDATE` statements on the table. -/
inductive Write where
  /-- `CancelRemediation` -/
  | cancel (expected : Status)
  /-- `MarkRemediationQueued` -/
  | markQueued (dryRun : Bool)
  /-- `ReleaseRemediationQueueReservation` -/
  | release
  /-- `ClaimRemediation` -/
  | claim
  /-- `MarkRemediationRunning` -/
  | markRunning (result : Result)
  /-- `CompleteRemediation` -/
  | complete (status : Status) (result : Result) (error : String)
  /-- the decision of an approval request: approved by somebody, or rejected -/
  | approve (approvedBy : String)
  | reject
  /-- the cancellation of an approval request -/
  | cancelAwaiting
  /-- the expiry of an approval request -/
  | expireAwaiting

namespace Write

/-- The `WHERE` clause on the status. -/
def guard : Write → Status → Bool
  | cancel expected, s => s == expected
  | markQueued _, s => s == .approved
  | release, s => s == .queued
  | claim, s | markRunning _, s | complete _ _ _, s => s.isDispatchable
  | approve _, s | reject, s | cancelAwaiting, s | expireAwaiting, s => s == .awaitingApproval

/-- The status it sets. -/
def status : Write → Status
  | cancel _ | cancelAwaiting => .cancelled
  | markQueued _ => .queued
  | release | approve _ => .approved
  | claim | markRunning _ => .running
  | complete status _ _ => status
  | reject => .rejected
  | expireAwaiting => .timedOut

/-- The `SET` clause. -/
def set (now : Time) (w : Write) (r : RemediationAction) : RemediationAction :=
  match w with
  | cancel _ => { r with status := w.status, completedAt := some now }
  | markQueued dryRun => { r with status := w.status, queuedAt := some now, dryRun := dryRun }
  | release => { r with status := w.status, queuedAt := none }
  | claim => { r with status := w.status, startedAt := some (r.startedAt.getD now) }
  | markRunning result =>
    { r with status := w.status, startedAt := some (r.startedAt.getD now), result := result }
  | complete _ result error =>
    { r with status := w.status, completedAt := some now, result := result, error := error }
  | approve approvedBy => { r with status := w.status, approvedBy := approvedBy }
  | reject => { r with status := w.status, approvedBy := "" }
  | cancelAwaiting | expireAwaiting => { r with status := w.status }

end Write

/-- The columns that no update sets. -/
structure SameProposal (r r' : RemediationAction) : Prop where
  id : r'.id = r.id
  incidentID : r'.incidentID = r.incidentID
  actionType : r'.actionType = r.actionType
  target : r'.target = r.target
  parameters : r'.parameters = r.parameters
  idempotencyKey : r'.idempotencyKey = r.idempotencyKey
  proposedBy : r'.proposedBy = r.proposedBy
  policyDecision : r'.policyDecision = r.policyDecision
  attempt : r'.attempt = r.attempt
  createdAt : r'.createdAt = r.createdAt

theorem SameProposal.refl (r : RemediationAction) : SameProposal r r := by
  constructor <;> rfl

variable {r' : RemediationAction}

theorem SameProposal.trans {r'' : RemediationAction} (h : SameProposal r r')
    (h' : SameProposal r' r'') : SameProposal r r'' where
  id := h'.id.trans h.id
  incidentID := h'.incidentID.trans h.incidentID
  actionType := h'.actionType.trans h.actionType
  target := h'.target.trans h.target
  parameters := h'.parameters.trans h.parameters
  idempotencyKey := h'.idempotencyKey.trans h.idempotencyKey
  proposedBy := h'.proposedBy.trans h.proposedBy
  policyDecision := h'.policyDecision.trans h.policyDecision
  attempt := h'.attempt.trans h.attempt
  createdAt := h'.createdAt.trans h.createdAt

theorem SameProposal.identity (h : SameProposal r r') : r'.identity = r.identity := by
  simp only [RemediationAction.identity, h.incidentID, h.actionType, h.target, h.parameters]

/-- The columns that no update sets, as the tables compare them. -/
structure SameAction (r r' : RemediationAction) : Prop where
  id : r'.id = r.id
  incidentID : r'.incidentID = r.incidentID
  actionType : r'.actionType = r.actionType
  target : r'.target = r.target
  parameters : r'.parameters.stored = r.parameters.stored
  risk : r'.risk = r.risk
  idempotencyKey : r'.idempotencyKey = r.idempotencyKey
  proposedBy : r'.proposedBy = r.proposedBy

theorem SameAction.refl (r : RemediationAction) : SameAction r r := by
  constructor <;> rfl

theorem SameAction.trans {r'' : RemediationAction} (h : SameAction r r') (h' : SameAction r' r'') :
    SameAction r r'' where
  id := h'.id.trans h.id
  incidentID := h'.incidentID.trans h.incidentID
  actionType := h'.actionType.trans h.actionType
  target := h'.target.trans h.target
  parameters := h'.parameters.trans h.parameters
  risk := h'.risk.trans h.risk
  idempotencyKey := h'.idempotencyKey.trans h.idempotencyKey
  proposedBy := h'.proposedBy.trans h.proposedBy

/-- A row is the action that is read from it. -/
theorem sameAction_decoded (r : RemediationAction) : SameAction r.decoded r where
  id := rfl
  incidentID := rfl
  actionType := rfl
  target := rfl
  parameters := (Parameters.stored_decoded r.parameters).symm
  risk := rfl
  idempotencyKey := rfl
  proposedBy := rfl

theorem Write.sameAction_set (now : Time) (w : Write) (r : RemediationAction) :
    SameAction r (w.set now r) := by
  cases w <;> constructor <;> rfl

theorem Write.sameProposal_set (now : Time) (w : Write) (r : RemediationAction) :
    SameProposal r (w.set now r) := by
  cases w <;> constructor <;> rfl

@[simp] theorem Write.status_set (now : Time) (w : Write) (r : RemediationAction) :
    (w.set now r).status = w.status := by
  cases w <;> rfl

/-- `UPDATE remediation_actions SET ... WHERE id = $1 AND <guard>`. -/
def updateWhere (now : Time) (id : String) (w : Write) (rows : List RemediationAction) :
    List RemediationAction :=
  Table.updateIf (fun r => r.id = id ∧ w.guard r.status = true) (w.set now) rows

theorem map_updateWhere {κ : Type*} {key : RemediationAction → κ} (now : Time) (id : String)
    (w : Write) (hkey : ∀ r, key (w.set now r) = key r) (rows : List RemediationAction) :
    (updateWhere now id w rows).map key = rows.map key :=
  Table.map_updateIf hkey rows

theorem mem_updateWhere {now : Time} {w : Write} (h : r' ∈ updateWhere now id w rows) :
    ∃ r ∈ rows, r' = r ∨ r' = w.set now r ∧ r.id = id ∧ w.guard r.status = true := by
  obtain ⟨r, hr, hsame | hset⟩ := Table.mem_updateIf h
  · exact ⟨r, hr, .inl hsame.1⟩
  · exact ⟨r, hr, .inr hset⟩

theorem exists_mem_updateWhere (now : Time) (id : String) (w : Write) (h : r ∈ rows) :
    ∃ r' ∈ updateWhere now id w rows,
      r' = r ∧ ¬ (r.id = id ∧ w.guard r.status = true) ∨
        r' = w.set now r ∧ r.id = id ∧ w.guard r.status = true :=
  Table.exists_mem_updateIf h

/-- Whether the update affects a row. -/
def affects (id : String) (w : Write) (rows : List RemediationAction) : Bool :=
  rows.any fun r => r.id == id && w.guard r.status

theorem affects_iff {w : Write} :
    affects id w rows = true ↔ ∃ r ∈ rows, r.id = id ∧ w.guard r.status = true := by
  simp [affects]

end Argus.Remediation

import Argus.Remediation.Store

/-!
# Approval requests

The `approval_requests` table, its updates, and the checks that the approval service makes before it
opens a transaction.
-/

namespace Argus.Approvals

open Remediation (Time RemediationAction Failure SameAction)
open Strings (trimSpace toLower equalFold)

/-- The values of the `status` column. -/
inductive Status where
  | pending
  | approved
  | denied
  | expired
  | cancelled
  deriving DecidableEq, Repr

def Status.name : Status → String
  | pending => "pending"
  | approved => "approved"
  | denied => "denied"
  | expired => "expired"
  | cancelled => "cancelled"

/-- A row. -/
structure Request where
  id : String
  remediationID : String
  incidentID : String
  actionType : String
  target : String
  parameters : Parameters
  risk : String
  status : Status
  requestedBy : String
  requestedAt : Time
  escalatesAt : Time
  expiresAt : Time
  decidedAt : Option Time
  decidedBy : String
  decisionReason : String
  decisionSource : String

/-- The request that `RequestApproval` builds for a remediation. -/
def newRequest (id incidentID : String) (remediation : RemediationAction)
    (clock escalateAfter timeout : Time) : Request where
  id := id
  remediationID := remediation.id
  incidentID := incidentID
  actionType := remediation.actionType
  target := remediation.target
  parameters := remediation.parameters
  risk := remediation.risk
  status := .pending
  requestedBy := remediation.proposedBy
  requestedAt := clock.column
  escalatesAt := Time.column (clock + escalateAfter)
  expiresAt := Time.column (clock + timeout)
  decidedAt := none
  decidedBy := ""
  decisionReason := ""
  decisionSource := ""

def get (requests : List Request) (id : String) : Option Request :=
  requests.find? fun q => q.id == id

def getByRemediation (requests : List Request) (remediationID : String) : Option Request :=
  requests.find? fun q => q.remediationID == remediationID

variable {requests : List Request} {q : Request} {id : String}

theorem mem_of_get (h : get requests id = some q) : q ∈ requests ∧ q.id = id :=
  ⟨List.mem_of_find?_eq_some h, by simpa using List.find?_some h⟩

theorem mem_of_getByRemediation (h : getByRemediation requests id = some q) :
    q ∈ requests ∧ q.remediationID = id :=
  ⟨List.mem_of_find?_eq_some h, by simpa using List.find?_some h⟩

/-! ## Decisions -/

inductive Decision where
  | approve
  | deny
  deriving DecidableEq, Repr

/-- `strings.ToLower(strings.TrimSpace(decision))` as a decision. -/
def parseDecision (decision : String) : Option Decision :=
  let word := toLower (trimSpace decision)
  if word = "approve" then some .approve else if word = "deny" then some .deny else none

/-- `validateDecision`, with the decision it accepts. -/
def validateDecision (decision reason actor : String) : Except Failure Decision :=
  match parseDecision decision with
  | none => .error (.invalid "decision must be approve or deny")
  | some d =>
    if trimSpace actor = "" ∨ actor = "system" then
      .error (.invalid "authenticated approver identity is required")
    else if trimSpace reason = "" then .error (.invalid "decision reason is required")
    else .ok d

/-- `validateSeparation`: whether somebody may decide a request. -/
def validateSeparation (fold : Char → Char) (requestedBy actor : String) (allowSelf : Bool) :
    Except Failure Unit :=
  if !allowSelf && equalFold fold (trimSpace requestedBy) (trimSpace actor) then
    .error (.invalid "proposer cannot approve or deny their own remediation")
  else .ok ()

/-- What an accepted decision says about who made it and why. -/
theorem validateDecision_eq_ok {decision reason actor : String} {d : Decision}
    (h : validateDecision decision reason actor = .ok d) :
    trimSpace actor ≠ "" ∧ actor ≠ "system" ∧ trimSpace reason ≠ "" := by
  unfold validateDecision at h
  split at h
  · cases h
  · split_ifs at h with hactor hreason
    exact ⟨fun h' => hactor (.inl h'), fun h' => hactor (.inr h'), hreason⟩

theorem validateSeparation_eq_ok {fold : Char → Char} {requestedBy actor : String}
    {allowSelf : Bool} (h : validateSeparation fold requestedBy actor allowSelf = .ok ()) :
    allowSelf = false → equalFold fold (trimSpace requestedBy) (trimSpace actor) = false := by
  intro hself
  unfold validateSeparation at h
  split at h
  · cases h
  · simp_all

/-! ## Updates -/

/-- The `UPDATE` statements that change a status. Times are as the column holds them. -/
inductive Write where
  | decide (decision : Decision) (now : Time) (actor reason source : String)
  | cancel (now : Time) (actor reason : String)
  | expire

/-- The status it sets. -/
def Write.status : Write → Status
  | decide .approve _ _ _ _ => .approved
  | decide .deny _ _ _ _ => .denied
  | cancel _ _ _ => .cancelled
  | expire => .expired

/-- The `SET` clause. -/
def Write.set (w : Write) (q : Request) : Request :=
  match w with
  | decide _ now actor reason source =>
    { q with
      status := w.status, decidedAt := some now, decidedBy := actor
      decisionReason := reason, decisionSource := source }
  | cancel now actor reason =>
    { q with
      status := w.status, decidedAt := some now, decidedBy := actor
      decisionReason := reason, decisionSource := "api" }
  | expire => { q with status := w.status }

/-- The update of the request with an id. Every caller has seen it pending in the same transaction, or
says so in the `WHERE` clause. -/
def update (id : String) (w : Write) (requests : List Request) : List Request :=
  Table.updateIf (fun q => q.id = id) w.set requests

theorem map_update {κ : Type*} {key : Request → κ} (id : String) (w : Write)
    (hkey : ∀ q, key (w.set q) = key q) (requests : List Request) :
    (update id w requests).map key = requests.map key :=
  Table.map_updateIf hkey requests

variable {q' : Request}

theorem mem_update {w : Write} (h : q' ∈ update id w requests) :
    ∃ q ∈ requests, q' = q ∧ q.id ≠ id ∨ q' = w.set q ∧ q.id = id :=
  Table.mem_updateIf h

theorem exists_mem_update (id : String) (w : Write) (h : q ∈ requests) :
    ∃ q' ∈ update id w requests, q' = q ∧ q.id ≠ id ∨ q' = w.set q ∧ q.id = id :=
  Table.exists_mem_updateIf h

/-- The columns that a request copies from its remediation. -/
structure RequestFor (q : Request) (r : RemediationAction) : Prop where
  remediationID : r.id = q.remediationID
  actionType : q.actionType = r.actionType
  target : q.target = r.target
  parameters : q.parameters.stored = r.parameters.stored
  risk : q.risk = r.risk
  requestedBy : q.requestedBy = r.proposedBy

variable {r : RemediationAction}

/-- A new request copies the columns of the action it was built for. -/
theorem requestFor_newRequest {incidentID : String} {remediation : RemediationAction}
    {clock escalateAfter timeout : Time} (h : SameAction remediation r) :
    RequestFor (newRequest id incidentID remediation clock escalateAfter timeout) r where
  remediationID := h.id
  actionType := h.actionType.symm
  target := h.target.symm
  parameters := h.parameters.symm
  risk := h.risk.symm
  requestedBy := h.proposedBy.symm

theorem RequestFor.sameAction {r' : RemediationAction} (h : RequestFor q r)
    (hsame : SameAction r r') : RequestFor q r' where
  remediationID := hsame.id.trans h.remediationID
  actionType := h.actionType.trans hsame.actionType.symm
  target := h.target.trans hsame.target.symm
  parameters := h.parameters.trans hsame.parameters.symm
  risk := h.risk.trans hsame.risk.symm
  requestedBy := h.requestedBy.trans hsame.proposedBy.symm

/-- The columns that no update sets. -/
structure SameRequest (q q' : Request) : Prop where
  id : q'.id = q.id
  remediationID : q'.remediationID = q.remediationID
  actionType : q'.actionType = q.actionType
  target : q'.target = q.target
  parameters : q'.parameters = q.parameters
  risk : q'.risk = q.risk
  requestedBy : q'.requestedBy = q.requestedBy
  expiresAt : q'.expiresAt = q.expiresAt

theorem SameRequest.refl (q : Request) : SameRequest q q := by
  constructor <;> rfl

theorem SameRequest.trans {q'' : Request} (h : SameRequest q q') (h' : SameRequest q' q'') :
    SameRequest q q'' where
  id := h'.id.trans h.id
  remediationID := h'.remediationID.trans h.remediationID
  actionType := h'.actionType.trans h.actionType
  target := h'.target.trans h.target
  parameters := h'.parameters.trans h.parameters
  risk := h'.risk.trans h.risk
  requestedBy := h'.requestedBy.trans h.requestedBy
  expiresAt := h'.expiresAt.trans h.expiresAt

theorem RequestFor.sameRequest (h : RequestFor q r) (hsame : SameRequest q q') :
    RequestFor q' r where
  remediationID := h.remediationID.trans hsame.remediationID.symm
  actionType := hsame.actionType.trans h.actionType
  target := hsame.target.trans h.target
  parameters := hsame.parameters ▸ h.parameters
  risk := hsame.risk.trans h.risk
  requestedBy := hsame.requestedBy.trans h.requestedBy

theorem Write.sameRequest_set (w : Write) (q : Request) : SameRequest q (w.set q) := by
  cases w <;> constructor <;> rfl

end Argus.Approvals

import Argus.System.Transactions

/-!
# Programs

The functions of the source, statement by statement. The first part names the statements, each one atomic
step; the rest are the functions that perform them. Between two statements the other calls run.
-/

namespace Argus.System

open Incidents (Incident)
open Remediation (Time RemediationAction Failure Candidate Identity Result Status)
open Approvals (Request)
open Outbox (Dispatch Job)
open Workers (Handler Merge)

/-! ## Statements of the proposal and approval services -/

/-- `GetRemediation`. -/
def getRemediation (id : String) : Program (Except Failure RemediationAction) :=
  query .read fun _ db => db.remediation id

/-- `FindActiveRemediationByAction`. -/
def findActive (k : Identity) : Program (Except Failure (Option RemediationAction)) :=
  query (.findActive k) fun _ db =>
    .ok ((Remediation.findActiveRemediationByAction db.remediations k).map
      RemediationAction.decoded)

/-- `CountRecentSimilarRemediations`. -/
def countRecent (k : Identity) : Program (Except Failure ℕ) :=
  query (.countRecent k) fun o db =>
    .ok (Remediation.countRecentSimilarRemediations db.remediations o.now k)

/-- `CountFailedRemediations`. -/
def countFailed (k : Identity) : Program (Except Failure ℕ) :=
  query (.countFailed k) fun _ db => .ok (Remediation.countFailedRemediations db.remediations k)

/-- The insert transaction of `Propose`; the row it inserted. -/
def insertProposal (cfg : Config) (incident : Incident) (c : Candidate) (actor role : String)
    (recent failed : ℕ) : Program (Except Failure RemediationAction) :=
  transact (.insert (c.identity incident) c.parameters) fun o s =>
    let action := Remediation.newRemediation cfg.engine incident c actor role o.fresh o.clock recent
      failed
    (s.db.insertRemediation action actor).map fun db => (action, s.withDb db)

/-- `TransitionIncident`. -/
def transitionIncident (id : String) (status : Incidents.Status) :
    Program (Except Failure Unit) :=
  transact .bookkeeping fun _ s =>
    .ok ((), s.withDb
      { s.db with incidents := Incidents.transitionIncident id status s.db.incidents })

/-- `GetByRemediation`. -/
def getByRemediation (remediationID : String) : Program (Except Failure (Option Request)) :=
  query .read fun _ db => .ok (Approvals.getByRemediation db.approvals remediationID)

/-- The insert of `Create`. -/
def insertRequest (cfg : Config) (incidentID : String) (remediation : RemediationAction) :
    Program (Except Failure Unit) :=
  transact .requestApproval fun o s =>
    (s.db.insertRequest (Approvals.newRequest o.fresh incidentID remediation o.clock
      cfg.escalateAfter cfg.approvalTimeout)).map fun db => ((), s.withDb db)

/-- `Get` of the approval store. -/
def getRequest (id : String) : Program (Except Failure (Option Request)) :=
  query .read fun _ db => .ok (Approvals.get db.approvals id)

/-- `Decide` of the approval store. -/
def decideRequest (id actor : String) (decision : Approvals.Decision) (reason source : String)
    (now : Time) : Program (Except Failure Db.Decided) :=
  transact .decide fun _ s =>
    (s.db.decide id actor "user" decision reason source now).map fun r => (r.1, s.withDb r.2)

/-- `CancelByRemediation` of the approval store. -/
def cancelRequest (remediationID actor reason : String) : Program (Except Failure Unit) :=
  transact .cancelRequest fun o s =>
    (s.db.cancelRequest remediationID actor reason o.clock).map fun db => ((), s.withDb db)

/-- The pending requests whose time is over. -/
def listDue (now : Time) : Program (Except Failure (List Request)) :=
  query .read fun _ db =>
    .ok (((db.approvals.filter fun q => q.status = .pending ∧ q.expiresAt ≤ now).insertionSort
      fun q q' => q.expiresAt ≤ q'.expiresAt).take 100)

/-- `expire` of the approval store. -/
def expireRequest (now : Time) (request : Request) : Program (Except Failure Bool) :=
  transact .expire fun _ s =>
    .ok ((s.db.expire now request).1, s.withDb (s.db.expire now request).2)

/-! ## Propose -/

/-- `Create` of the approval store: the check and the insert are separate statements, and an insert that
fails reads the request again. -/
def createRequest (cfg : Config) (incidentID : String) (remediation : RemediationAction) :
    Program (Except Failure Unit) := do
  match ← getByRemediation remediation.id with
  | .error e => return .error e
  | .ok (some _) => return .ok ()
  | .ok none =>
    match ← insertRequest cfg incidentID remediation with
    | .ok () => return .ok ()
    | .error e =>
      match ← getByRemediation remediation.id with
      | .ok (some _) => return .ok ()
      | _ => return .error e

/-- What `Propose` does with a row that is awaiting approval, or not. -/
def requestIfAwaiting (cfg : Config) (incidentID : String) (remediation : RemediationAction) :
    Program (Except Failure Unit) :=
  if remediation.status = .awaitingApproval then createRequest cfg incidentID remediation
  else return .ok ()

/-- One candidate of `Propose`: whether it awaits approval. -/
def proposeOne (cfg : Config) (incident : Incident) (actor role : String) (c : Candidate) :
    Program (Except Failure Bool) := do
  match ← findActive (c.identity incident) with
  | .error e => return .error e
  | .ok (some existing) =>
    match ← requestIfAwaiting cfg incident.id existing with
    | .error e => return .error e
    | .ok () => return .ok (existing.status = .awaitingApproval)
  | .ok none =>
    match ← countRecent (c.identity incident) with
    | .error e => return .error e
    | .ok recent =>
      match ← countFailed (c.identity incident) with
      | .error e => return .error e
      | .ok failed =>
        match ← insertProposal cfg incident c actor role recent failed with
        | .error e => return .error e
        | .ok action =>
          match ← requestIfAwaiting cfg incident.id action with
          | .error e => return .error e
          | .ok () => return .ok (action.status = .awaitingApproval)

/-- `Propose`, one candidate after the other; the incident advances at the end. -/
def proposeEach (cfg : Config) (incident : Incident) (actor role : String) (awaiting : Bool) :
    List Candidate → Program Answer
  | [] => do
      let status := if awaiting then .awaitingApproval else .remediationProposed
      let _ ← transitionIncident incident.id status
      return .done (.ok ())
  | c :: rest => do
      match ← proposeOne cfg incident actor role c with
      | .error e => return .done (.error e)
      | .ok awaits => proposeEach cfg incident actor role (awaiting || awaits) rest

/-- `Propose`. -/
def propose (cfg : Config) (incident : Incident) (candidates : List Candidate)
    (actor role : String) : Program Answer :=
  if candidates = [] then return .done (.ok ())
  else proposeEach cfg incident actor role false candidates

/-! ## Approvals -/

/-- `Decide`. -/
def decide (cfg : Config) (id actor decision reason source : String) : Program Answer :=
  match Approvals.validateDecision decision (Strings.trimSpace reason) actor with
  | .error e => return .done (.error e)
  | .ok d => do
      let started ← readClock
      match ← getRequest id with
      | .error e => return .done (.error e)
      | .ok none => return .done (.error .notFound)
      | .ok (some pending) =>
        match Approvals.validateSeparation cfg.fold pending.requestedBy actor cfg.allowSelf with
        | .error e => return .done (.error e)
        | .ok () =>
          match ← decideRequest id actor d (Strings.trimSpace reason) source started with
          | .error e => return .done (.error e)
          | .ok .expired => return .done (.error .expired)
          | .ok .decided => return .done (.ok ())

/-- `DecideByRemediation`. -/
def decideByRemediation (cfg : Config) (remediationID actor decision reason : String) :
    Program Answer := do
  match ← getByRemediation remediationID with
  | .error e => return .done (.error e)
  | .ok none => return .done (.error .notFound)
  | .ok (some request) => decide cfg request.id actor decision reason "api"

/-- `CancelByRemediation`. -/
def cancelByRemediation (remediationID actor reason : String) : Program Answer :=
  if Strings.trimSpace actor = "" then
    return .done (.error (.invalid "authenticated actor identity is required"))
  else do
    match ← cancelRequest remediationID actor (Strings.trimSpace reason) with
    | .error e => return .done (.error e)
    | .ok () => return .done (.ok ())

/-- The requests that `ExpireDue` found, expired one after the other. -/
def expireEach (now : Time) : List Request → Program Answer
  | [] => return .done (.ok ())
  | request :: rest => do
      match ← expireRequest now request with
      | .error e => return .done (.error e)
      | .ok _ => expireEach now rest

/-- `ExpireDue`, with the limit of the sweep. -/
def expireDue : Program Answer := do
  let now ← readClock
  match ← listDue now with
  | .error e => return .done (.error e)
  | .ok due => expireEach now due

end Argus.System

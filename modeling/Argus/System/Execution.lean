import Argus.System.Programs

/-!
# Programs of execution

`Execute` and `Cancel`, and the dispatcher. A publisher keeps a transaction open while it talks to
JetStream: it holds row locks meanwhile, and its updates appear when it commits.
-/

namespace Argus.System

open Incidents (Incident)
open Remediation (Time RemediationAction Failure Result Status)
open Outbox (Dispatch Job)
open Workers (Handler Merge)
open Helios (Workflow)

/-! ## The dispatcher -/

/-- The due dispatches that nobody holds, with the status of their remediation. -/
def Shared.due (s : Shared) (cfg : Config) (now : Time) (onlyID : String) :
    List (Dispatch × Status) :=
  let batch := Outbox.due now onlyID (s.dispatchLocks.map (·.2)) cfg.outbox.batchSize
    s.db.dispatches
  batch.filterMap fun d =>
    (Remediation.getRemediation s.db.remediations d.remediationID).map fun r => (d, r.status)

def Shared.holdDispatches (s : Shared) (pid : ℕ) (ids : List String) : Shared :=
  { s with dispatchLocks := s.dispatchLocks ++ ids.map fun id => (pid, id) }

def Shared.dropDispatches (s : Shared) (pid : ℕ) : Shared :=
  { s with dispatchLocks := s.dispatchLocks.filter fun l => l.1 ≠ pid }

def Shared.accept (s : Shared) (job : Job) : Shared := { s with stream := s.stream ++ [job] }

/-- The updates of dispatch rows. -/
def Shared.writeDispatches (s : Shared) (writes : List (String × Outbox.Write)) : Shared :=
  s.withDb { s.db with
    dispatches := writes.foldl (fun ds w => Outbox.update w.1 w.2 ds) s.db.dispatches }

/-- The start of a publisher's transaction: its time, and what it holds. -/
def lockDue (cfg : Config) (pid : ℕ) (onlyID : String) :
    Program (Except Failure (Time × List (Dispatch × Status))) :=
  transact .bookkeeping fun o s =>
    let batch := s.due cfg o.now onlyID
    .ok ((o.now, batch), s.holdDispatches pid (batch.map fun d => d.1.id))

/-- A publish to JetStream. A job may be accepted although the publisher sees an error. -/
def sendJob (job : Job) : Program (Except Failure Unit) :=
  .perform .bookkeeping fun o s => some <|
    if o.ok then (.ok (), s.accept job)
    else if o.effect then (.error .unavailable, s.accept job)
    else (.error .unavailable, s)

/-- The end of a publisher's transaction. -/
def commitPublish (pid : ℕ) (writes : List (String × Outbox.Write)) :
    Program (Except Failure Unit) :=
  .perform .bookkeeping fun o s => some <|
    if o.ok then (.ok (), (s.writeDispatches writes).dropDispatches pid)
    else (.error .unavailable, s.dropDispatches pid)

def publishEach (pid : ℕ) (now : Time) :
    List (Dispatch × Status) → List (String × Outbox.Write) → Program (Except Failure Unit)
  | [], writes => commitPublish pid writes
  | (d, status) :: rest, writes =>
    if !status.isDispatchable then publishEach pid now rest (writes ++ [(d.id, .skipped)])
    else do
      match ← sendJob d.event with
      | .ok () => publishEach pid now rest (writes ++ [(d.id, .published now)])
      | .error _ =>
        let attempts := d.attempts + 1
        commitPublish pid (writes ++
          [(d.id, .failed attempts (now + Outbox.dispatchBackoff attempts))])

/-- `publish`. -/
def publish (cfg : Config) (pid : ℕ) (onlyID : String) : Program (Except Failure Unit) := do
  match ← lockDue cfg pid onlyID with
  | .error e => return .error e
  | .ok (now, batch) => publishEach pid now batch []

/-- `Redispatch` of a dead letter: a new dispatch for a queued or running remediation, published at once
if possible. -/
def replay (cfg : Config) (pid : ℕ) (id actor : String) : Program Answer := do
  match ← transactOn .bookkeeping id fun o s =>
      (s.db.redispatch o.now o.fresh id .replay actor "user").map fun r => (r.1, s.withDb r.2) with
  | .error e => return .done (.error e)
  | .ok dispatchID =>
    let _ ← publish cfg pid dispatchID
    return .done (.ok ())

/-- `Reconcile`. Its own advisory lock is held for one transaction only. -/
def reconcile (cfg : Config) (pid : ℕ) : Program Answer := do
  match ← transact .reconcile fun o s =>
      (s.db.reconcile cfg.outbox o.now o.fresh s.rowLocks).map fun r => (r.1, s.withDb r.2) with
  | .error e => return .done (.error e)
  | .ok redispatched =>
    if redispatched then
      let _ ← publish cfg pid ""
    return .done (.ok ())

/-! ## Helios -/

/-- The workflow that Helios creates. -/
def Shared.addWorkflow (s : Shared) (workflowID remediationID : String) (dryRun : Bool) : Shared :=
  { s with workflows :=
      ⟨workflowID, some remediationID, dryRun, .active "pending", s.reservationsOf remediationID⟩ ::
        s.workflows }

/-- The submission of a workflow: its id, and how often it will be polled. The workflow may exist although
the answer is an error. -/
def submitWorkflow (id : String) (dryRun : Bool) : Program (Except Failure (String × ℕ)) :=
  .perform (.submit id) fun o s =>
    if s.workflows.any fun w => w.id == o.fresh then none
    else some <|
      if o.ok then (.ok (o.fresh, o.polls), s.addWorkflow o.fresh id dryRun)
      else if o.effect then (.error .executor, s.addWorkflow o.fresh id dryRun)
      else (.error .executor, s)

/-- `getWorkflow`. -/
def getWorkflow (workflowID : String) : Program (Except Failure Workflow) :=
  .perform .workflow fun o s => some <|
    match o.ok, Helios.get s.workflows workflowID with
    | true, some w => (.ok w, s)
    | _, _ => (.error .executor, s)

/-- `pollWorkflow`, until the workflow is finished or the polls are used up. -/
def pollWorkflow (workflowID : String) : ℕ → Program (Except Failure Workflow)
  | 0 => getWorkflow workflowID
  | polls + 1 => do
      match ← getWorkflow workflowID with
      | .error e => return .error e
      | .ok w => if w.state.isActive then pollWorkflow workflowID polls else return .ok w

/-- What a polled workflow means for `Execute`. -/
def outcomeOf (w : Workflow) : Except Failure Db.Outcome :=
  match w.state with
  | .succeeded => .ok (.succeeded (.helios w.id w.state.name))
  | .failed | .cancelled => .error .executor
  | .active _ => .ok (.running (.helios w.id w.state.name))

/-- `HeliosExecutor.Execute`. -/
def heliosExecute (id : String) (dryRun : Bool) : Program (Except Failure Db.Outcome) := do
  match ← submitWorkflow id dryRun with
  | .error e => return .error e
  | .ok (workflowID, polls) =>
    match ← pollWorkflow workflowID polls with
    | .error e => return .error e
    | .ok w => return outcomeOf w

/-! ## Execute and Cancel -/

def getIncident (id : String) : Program (Except Failure Incident) :=
  query .read fun _ db => db.incident id

/-- The end of a call that held a reservation. -/
def Shared.endHold (s : Shared) (pid : ℕ) : Shared :=
  { s with holders := s.holders.filter fun h => h.1 ≠ pid }

/-- The state after a reservation. -/
def Shared.reserved (s : Shared) (cfg : Config) (pid : ℕ) (id : String) (dryRun : Bool) (db : Db) :
    Shared :=
  { s with
    db := db
    reservations := s.reservations ++ [⟨pid, id, dryRun⟩]
    holders := match cfg.executor with
      | .localQueue => s.holders
      | .helios => s.holders ++ [(pid, id)] }

/-- The reservation; the id of the dispatch it wrote. -/
def reserve (cfg : Config) (pid : ℕ) (remediation : RemediationAction) (dryRun : Bool)
    (actor : String) : Program (Except Failure String) :=
  transactOn (.reserve remediation.id) remediation.id fun o s =>
    (s.db.reserve cfg.executor o.now o.fresh remediation dryRun actor).map fun r =>
      (r.1, s.reserved cfg pid remediation.id dryRun r.2)

/-- The release of a reservation. Whether or not it commits, the call is over. -/
def releaseReservation (pid : ℕ) (id actor : String) : Program (Except Failure Unit) :=
  .perform (.release id) fun o s =>
    if id ∈ s.rowLocks then none
    else some <|
      if o.ok then (.ok (), (s.withDb (s.db.release o.now id actor)).endHold pid)
      else (.error .unavailable, s.endHold pid)

/-- `applyQueuedOutcome` of the call that holds the reservation. -/
def recordOutcome (pid : ℕ) (id actor : String) (outcome : Db.Outcome) :
    Program (Except Failure Unit) :=
  .perform (.outcome id) fun o s =>
    if id ∈ s.rowLocks then none
    else some <|
      if o.ok then
        match s.db.applyOne o.now (outcome.update id actor) with
        | .ok db => (.ok (), (s.withDb db).endHold pid)
        | .error e => (.error e, s.endHold pid)
      else (.error .unavailable, s.endHold pid)

/-- The executor's part of `Execute`, after the reservation. -/
def dispatchReserved (cfg : Config) (pid : ℕ) (id : String) (dryRun : Bool)
    (actor dispatchID : String) : Program Answer :=
  match cfg.executor with
  | .localQueue => do
      let _ ← publish cfg pid dispatchID
      return .executed false
  | .helios => do
      match ← heliosExecute id dryRun with
      | .error e =>
        let _ ← releaseReservation pid id actor
        return .done (.error e)
      | .ok outcome =>
        match ← recordOutcome pid id actor outcome with
        | .error e => return .done (.error e)
        | .ok () => return .executed false

/-- The checks of `Execute` on the status it read. -/
def executable (status : Status) : Except Failure Unit :=
  if status = .awaitingApproval then .error (.invalid "remediation requires approval")
  else if status.isTerminalState then
    .error (.invalid ("remediation cannot be executed from state " ++ status.name))
  else if !status.canTransition .queued then
    .error (.invalid ("invalid remediation transition " ++ status.name ++ " -> queued"))
  else .ok ()

/-- The statuses for which `Execute` has nothing to do. -/
def reusable (status : Status) : Bool := status = .succeeded ∨ status.isDispatchable

/-- `Execute`. -/
def execute (cfg : Config) (pid : ℕ) (id : String) (dryRun : Bool) (actor : String) :
    Program Answer := do
  match ← getRemediation id with
  | .error e => return .done (.error e)
  | .ok remediation =>
    if reusable remediation.status then return .executed true
    else match executable remediation.status with
      | .error e => return .done (.error e)
      | .ok () =>
        match ← getIncident remediation.incidentID with
        | .error e => return .done (.error e)
        | .ok incident =>
          if incident.status.isClosed then return .done (.error .incidentClosed)
          else
            match ← reserve cfg pid remediation dryRun actor with
            | .ok dispatchID => dispatchReserved cfg pid id dryRun actor dispatchID
            | .error e =>
              match ← getRemediation id with
              | .ok latest =>
                return if reusable latest.status then .executed true
                  else .done (.error e)
              | .error _ => return .done (.error e)

/-- `Cancel`. -/
def cancel (id actor : String) : Program Answer := do
  match ← getRemediation id with
  | .error e => return .done (.error e)
  | .ok remediation =>
    if remediation.status = .awaitingApproval then
      cancelByRemediation id actor "remediation cancelled by operator"
    else if !remediation.status.canTransition .cancelled then
      return .done (.error (.invalid
        ("invalid remediation transition " ++ remediation.status.name ++ " -> cancelled")))
    else
      match ← transactOn (.cancel id remediation.status) id fun o s =>
          .ok ((s.db.cancel o.now id remediation.status actor).1,
            s.withDb (s.db.cancel o.now id remediation.status actor).2) with
      | .error e => return .done (.error e)
      | .ok true => return .done (.ok ())
      | .ok false =>
        match ← getRemediation id with
        | .error e => return .done (.error e)
        | .ok _ => return .done (.error .stateChanged)

end Argus.System

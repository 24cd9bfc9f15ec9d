import Argus.System.Worker

/-!
# Reconciliation with Helios, and the system

`ReconcileHelios` is one transaction from its advisory lock to its commit, with calls to Helios inside. It
holds the rows it selected; its updates are collected and appear when it commits.

The system runs these programs for calls that arrive in any order, together with crashes of single calls
and with what others do: operators and the correlator change incidents, workers send heartbeats, and
Helios moves its workflows.
-/

namespace Argus.System

open Incidents (Incident)
open Remediation (Time RemediationAction Failure Result Status)
open Outbox (Heartbeat)
open Helios (Workflow WorkflowState)

/-! ## Statements -/

/-- A running remediation with the workflow it follows. -/
structure RunningHelios where
  id : String
  workflowID : String
  overdue : Bool

/-- The workflow that a result names. -/
def workflowOf : Result → Option String
  | .helios workflowID _ => if workflowID = "" then none else some workflowID
  | _ => none

/-- The running remediations with a recorded workflow, oldest first. -/
def runningHelios (cfg : Config) (now : Time) (db : Db) : List RunningHelios :=
  let running := db.remediations.filter fun r =>
    r.status = .running && (workflowOf r.result).isSome
  ((running.insertionSort fun r r' => r.startedAt.getD 0 ≤ r'.startedAt.getD 0).take 50).filterMap
    fun r => (workflowOf r.result).map fun workflowID =>
      ⟨r.id, workflowID, r.startedAt.any fun t => t < now - cfg.heliosMaxRuntime⟩

/-- The advisory lock and the first selection: nothing if another replica reconciles. -/
def lockRunning (cfg : Config) (pid : ℕ) :
    Program (Except Failure (Option (Time × List RunningHelios))) :=
  transact .lockRunning fun o s =>
    if s.reconciler.isSome then .ok (none, s)
    else
      let running := runningHelios cfg o.now s.db
      .ok (some (o.now, running),
        { s with reconciler := some pid, rowLocks := running.map RunningHelios.id })

/-- The queued remediations whose submission seems lost. -/
def lostSubmissions (cfg : Config) (now : Time) (db : Db) : List String :=
  let lost := db.remediations.filter fun r =>
    r.status = .queued && r.queuedAt.any (fun t => t < now - cfg.submitLostAfter) &&
      db.dispatches.all fun d => d.remediationID != r.id
  ((lost.insertionSort fun r r' => r.queuedAt.getD 0 ≤ r'.queuedAt.getD 0).take 20).map
    RemediationAction.id

/-- The second selection. -/
def lockLost (cfg : Config) (now : Time) : Program (Except Failure (List String)) :=
  transact (.lockLost now) fun _ s =>
    let lost := lostSubmissions cfg now s.db
    .ok (lost, { s with rowLocks := s.rowLocks ++ lost })

/-- `findWorkflow`. -/
def findWorkflow (id : String) : Program (Except Failure (Option Workflow)) :=
  .perform (.findWorkflow id) fun o s =>
    some (if o.ok then .ok (Helios.find s.workflows id) else .error .executor, s)

/-- `cancelWorkflow`. Whatever the answer, the workflow may or may not be cancelled. -/
def cancelWorkflow (workflowID : String) : Program (Except String Unit) :=
  .perform .workflow fun o s =>
    let workflows :=
      if o.effect then Helios.move workflowID .cancelled s.workflows else s.workflows
    some (if o.ok then .ok () else .error o.message,
      { s with workflows := workflows, cancelAttempts := s.cancelAttempts ++ [workflowID] })

def Shared.endReconcile (s : Shared) : Shared := { s with reconciler := none, rowLocks := [] }

/-- The commit. -/
def commitReconcile (now : Time) (updates : List Db.Update) : Program (Except Failure Unit) :=
  .perform .commitHelios fun o s => some <|
    if o.ok then
      match s.db.applyAll now updates with
      | .ok db => (.ok (), (s.withDb db).endReconcile)
      | .error e => (.error e, s.endReconcile)
    else (.error .unavailable, s.endReconcile)

/-- The rollback. -/
def rollbackReconcile : Program Unit :=
  .perform .commitHelios fun _ s => some ((), s.endReconcile)

/-! ## ReconcileHelios -/

/-- The update that settles a remediation. -/
def settled (r : RunningHelios) (w : Workflow) (status : Status) (error : String) : Db.Update :=
  let action := match status with
    | .succeeded => "remediation.completed"
    | .failed => "remediation.failed"
    | _ => "remediation.timed_out"
  ⟨r.id, [.complete status (.helios r.workflowID w.state.name) error], "", "system", action,
    .running, status⟩

/-- `settleHelios`: the updates it makes. -/
def settleHelios (r : RunningHelios) (w : Workflow) : Program (List Db.Update) :=
  match w.state with
  | .succeeded => return [settled r w .succeeded ""]
  | .failed | .cancelled =>
    return [settled r w .failed
      ("helios workflow " ++ r.workflowID ++ " finished in state " ++ w.state.name)]
  | .active name =>
    if !r.overdue then return []
    else do
      let still := "helios workflow " ++ r.workflowID ++ " still " ++ name ++
        " after the maximum runtime"
      match ← cancelWorkflow r.workflowID with
      | .ok () => return [settled r w .timedOut still]
      | .error e => return [settled r w .timedOut (still ++ "; cancelling it failed: " ++ e)]

/-- `settleRunningHelios`, after the selection. -/
def settleRunningHelios (updates : List Db.Update) :
    List RunningHelios → Program (List Db.Update)
  | [] => return updates
  | r :: rest => do
      match ← getWorkflow r.workflowID with
      | .error _ => settleRunningHelios updates rest
      | .ok w =>
        let more ← settleHelios r w
        settleRunningHelios (updates ++ more) rest

/-- The update that adopts a workflow. -/
def adopted (id : String) (w : Workflow) : Db.Update :=
  ⟨id, [.markRunning (.helios w.id w.state.name)], "", "system", "remediation.running", .queued,
    .running⟩

/-- A lost submission whose workflow was found. -/
def adopt (id : String) (w : Workflow) : Program (List Db.Update) := do
  let more ← settleHelios ⟨id, w.id, false⟩ w
  return adopted id w :: more

/-- The update of a lost submission whose incident was closed. -/
def abandoned (id : String) : Db.Update :=
  ⟨id, [.complete .cancelled .null
    "incident closed before the lost Helios submission was recovered"], "", "system",
    "remediation.cancelled", .queued, .cancelled⟩

/-- A lost submission without a workflow: cancelled with its incident, or submitted again. -/
def resubmit (id : String) : Program (Except Failure (List Db.Update)) := do
  match ← getRemediation id with
  | .error e => return .error e
  | .ok remediation =>
    match ← getIncident remediation.incidentID with
    | .error e => return .error e
    | .ok incident =>
      if incident.status.isClosed then return .ok [abandoned id]
      else
        match ← heliosExecute id remediation.dryRun with
        | .error _ => return .ok []
        | .ok outcome => return .ok [outcome.update id "system"]

/-- `recoverLostHeliosSubmissions`, after the selection. -/
def recoverLost (updates : List Db.Update) :
    List String → Program (Except Failure (List Db.Update))
  | [] => return .ok updates
  | id :: rest => do
      match ← findWorkflow id with
      | .error _ => recoverLost updates rest
      | .ok (some w) =>
        let more ← adopt id w
        recoverLost (updates ++ more) rest
      | .ok none =>
        match ← resubmit id with
        | .error e => return .error e
        | .ok more => recoverLost (updates ++ more) rest

/-- The transaction of `ReconcileHelios`, once it has its lock. -/
def reconcileLocked (cfg : Config) (now : Time) (running : List RunningHelios) :
    Program Answer := do
  let updates ← settleRunningHelios [] running
  match ← lockLost cfg now with
  | .error e =>
    rollbackReconcile
    return .done (.error e)
  | .ok lost =>
    match ← recoverLost updates lost with
    | .error e =>
      rollbackReconcile
      return .done (.error e)
    | .ok all =>
      match ← commitReconcile now all with
      | .error e => return .done (.error e)
      | .ok () => return .done (.ok ())

/-- `ReconcileHelios`. -/
def reconcileHelios (cfg : Config) (pid : ℕ) : Program Answer :=
  match cfg.executor with
  | .localQueue => return .done (.ok ())
  | .helios => do
      match ← lockRunning cfg pid with
      | .error e => return .done (.error e)
      | .ok none => return .done (.ok ())
      | .ok (some (now, running)) => reconcileLocked cfg now running

/-! ## The system -/

/-- The program of a call. -/
def program (cfg : Config) (pid : ℕ) : Call → Program Answer
  | .propose incident candidates actor role => propose cfg incident candidates actor role
  | .decide id actor decision reason source => decide cfg id actor decision reason source
  | .decideByRemediation id actor decision reason => decideByRemediation cfg id actor decision reason
  | .cancelByRemediation id actor reason => cancelByRemediation id actor reason
  | .expireDue => expireDue
  | .execute id dryRun actor => execute cfg pid id dryRun actor
  | .cancel id actor => cancel id actor
  | .publish onlyID => do
      match ← publish cfg pid onlyID with
      | .error e => return .done (.error e)
      | .ok () => return .done (.ok ())
  | .replay id actor => replay cfg pid id actor
  | .reconcile => reconcile cfg pid
  | .handleMessage msg => handleMessage cfg msg
  | .handler h remediation channel => handler h remediation channel
  | .reconcileHelios => reconcileHelios cfg pid

/-- Only a worker starts a handler. -/
def external : Call → Bool
  | .handler _ _ _ => false
  | _ => true

/-- What others do. -/
inductive Environment where
  /-- an incident is opened, or changed by its own workflow -/
  | incident (incident : Incident)
  | heartbeat (heartbeat : Heartbeat)
  /-- a workflow moves; finished ones stay -/
  | workflow (id : String) (state : WorkflowState)
  /-- somebody else submits a workflow -/
  | submission (id : String) (state : WorkflowState)

/-- The upsert of a row. -/
def upsert {α : Type} (key : α → String) (a : α) (rows : List α) : List α :=
  rows.filter (fun r => key r ≠ key a) ++ [a]

def environment : Environment → Shared → Option Shared
  | .incident i, s => some (s.withDb { s.db with incidents := upsert (·.id) i s.db.incidents })
  | .heartbeat h, s =>
    some (s.withDb { s.db with heartbeats := upsert (·.workerID) h s.db.heartbeats })
  | .workflow id state, s => some { s with workflows := Helios.move id state s.workflows }
  | .submission id state, s =>
    if s.workflows.any fun w => w.id == id then none
    else some { s with workflows := ⟨id, none, false, state, 0⟩ :: s.workflows }

/-- The death of a call: its open transaction is rolled back, and it holds no reservation any more. -/
def crash (pid : ℕ) (s : Shared) : Shared :=
  let s := (s.endHold pid).dropDispatches pid
  if s.reconciler = some pid then s.endReconcile else s

/-- The system. -/
def argus (cfg : Config) : Interleave.System Call Label Oracle Environment Shared Answer where
  program := program cfg
  external := external
  environment := environment
  crash := crash

/-- The state of the whole system. -/
abbrev World := Interleave.World Call Label Oracle Shared Answer

/-- What happens next. -/
abbrev Event := Interleave.Event Call Oracle Environment

/-- Empty tables, and no calls. -/
def Shared.initial : Shared where
  db := ⟨[], [], [], [], [], ⟨[], []⟩, []⟩
  stream := []
  jobs := []
  channels := []
  workflows := []
  reconciler := none
  rowLocks := []
  dispatchLocks := []
  started := []
  reservations := []
  asked := []
  merges := []
  cancelAttempts := []
  holders := []

/-- The initial state. -/
def World.initial : World := Interleave.System.idle Shared.initial

end Argus.System

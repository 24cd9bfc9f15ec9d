import Argus.System.State

/-!
# Transactions

Every transaction of the remediation service, the approval store, the dispatcher and the worker, as a
function of the database it finds. A transaction that fails returns no database.
-/

namespace Argus.System

open Remediation (Time RemediationAction Failure Result Status)
open Approvals (Request Decision)
open Outbox (Dispatch)

namespace Db

/-! ## Proposals and approvals -/

/-- The transaction of `Propose`. -/
def insertRemediation (action : RemediationAction) (actor : String) (db : Db) :
    Except Failure Db :=
  if db.incidents.all fun i => i.id != action.incidentID then .error .constraint
  else match Remediation.createRemediation action db.remediations with
    | .error e => .error e
    | .ok rows => .ok (({ db with remediations := rows } : Db).record
        (remediationEntry actor "user" "remediation.proposed" action.id none action.status))

/-- The insert of `Create`: one request for each remediation, which has to exist. -/
def insertRequest (request : Request) (db : Db) : Except Failure Db :=
  if request.risk ∉ ["low", "medium", "high"] ∨
      ∀ r ∈ db.remediations, r.id ≠ request.remediationID then .error .constraint
  else if ∃ q ∈ db.approvals, q.id = request.id ∨ q.remediationID = request.remediationID then
    .error .duplicateKey
  else .ok (({ db with approvals := db.approvals ++ [request] } : Db).record
    (requestEntry request.requestedBy "user" "approval.requested" request.id none request.status))

/-- `expireRemediationAndAudit` and the update of the request. The remediation is updated only if it is
awaiting approval, and nobody looks whether it was. -/
def expireRequest (now : Time) (request : Request) (db : Db) : Db :=
  (((({ db with approvals := Approvals.update request.id .expire db.approvals } : Db).write now
    request.remediationID .expireAwaiting).record
      (requestEntry "approval-controller" "system" "approval.expired" request.id
        (some .pending) (some .expired))).record
      (remediationEntry "approval-controller" "system" "remediation.approval_timed_out"
        request.remediationID (some .awaitingApproval) (some .timedOut)))

/-- The update of a remediation by a decision. -/
def decisionWrite (decision : Decision) (actor : String) : Remediation.Write :=
  match decision with
  | .approve => .approve actor
  | .deny => .reject

/-- What a decision transaction commits. -/
inductive Decided where
  | decided
  | expired
  deriving DecidableEq, Repr

/-- `Decide`, at the time `now` of the caller's clock. A request past its expiry is expired instead, and
that commits. -/
def decide (id actor actorType : String) (decision : Decision) (reason source : String)
    (now : Time) (db : Db) : Except Failure (Decided × Db) :=
  match Approvals.get db.approvals id with
  | none => .error .notFound
  | some request =>
    if request.status ≠ .pending then .error .alreadyDecided
    else if request.expiresAt ≤ now then .ok (.expired, db.expireRequest now.column request)
    else if !db.affects request.remediationID (decisionWrite decision actor) then
      .error .stateChanged
    else
      let w := Approvals.Write.decide decision now.column actor reason source
      let target := (decisionWrite decision actor).status
      .ok (.decided, (((({ db with approvals := Approvals.update id w db.approvals } : Db).write
        now.column request.remediationID (decisionWrite decision actor)).record
          (requestEntry actor actorType ("approval." ++ w.status.name) id (some .pending)
            (some w.status))).record
          (remediationEntry actor actorType ("remediation." ++ target.name)
            request.remediationID (some .awaitingApproval) (some target))))

/-- `CancelByRemediation`. -/
def cancelRequest (remediationID actor reason : String) (now : Time) (db : Db) :
    Except Failure Db :=
  match Approvals.getByRemediation db.approvals remediationID with
  | none => .error .notFound
  | some request =>
    if request.status ≠ .pending then .error .alreadyDecided
    else if !db.affects remediationID .cancelAwaiting then .error .stateChanged
    else
      let w := Approvals.Write.cancel now.column actor reason
      .ok (((({ db with approvals := Approvals.update request.id w db.approvals } : Db).write
        now.column remediationID .cancelAwaiting).record
          (requestEntry actor "user" "approval.cancelled" request.id (some .pending)
            (some .cancelled))).record
          (remediationEntry actor "user" "remediation.cancelled" remediationID
            (some .awaitingApproval) (some .cancelled)))

/-- `expire`: whether the request was still pending. -/
def expire (now : Time) (request : Request) (db : Db) : Bool × Db :=
  if ∃ q ∈ db.approvals, q.id = request.id ∧ q.status = .pending then
    (true, db.expireRequest now.column request)
  else (false, db)

/-! ## Execution -/

/-- The transaction of `Cancel`. -/
def cancel (now : Time) (id : String) (expected : Status) (actor : String) (db : Db) : Bool × Db :=
  if db.affects id (.cancel expected) then
    (true, (db.write now id (.cancel expected)).record
      (remediationEntry actor "user" "remediation.cancelled" id (some expected) (some .cancelled)))
  else (false, db)

/-- The reservation of `Execute`, with the dispatch it writes for the local executor. -/
def reserve (executor : Executor) (now : Time) (fresh : String) (remediation : RemediationAction)
    (dryRun : Bool) (actor : String) (db : Db) : Except Failure (String × Db) :=
  if !db.affects remediation.id (.markQueued dryRun) then
    .error (.invalid "remediation queue reservation is no longer available")
  else
    let reserved := { remediation with queuedAt := some now, dryRun := dryRun }
    let queued := (db.write now remediation.id (.markQueued dryRun)).record
      (remediationEntry actor "user" "remediation.execute_requested" remediation.id
        (some remediation.status) (some .queued))
    match executor with
    | .helios => .ok ("", queued)
    | .localQueue =>
      let dispatchID := Outbox.reservationEventID fresh reserved
      match Outbox.enqueue now reserved dispatchID .execute db.dispatches with
      | none => .error .constraint
      | some dispatches => .ok (dispatchID, { queued with dispatches := dispatches })

/-- The release of a reservation after a failed dispatch. -/
def release (now : Time) (id actor : String) (db : Db) : Db :=
  (db.write now id .release).record
    (remediationEntry actor "user" "remediation.dispatch_failed" id (some .queued) (some .approved))

/-- What a synchronous executor reported. -/
inductive Outcome where
  | running (result : Result)
  | succeeded (result : Result)

/-- Conditional updates that all have to apply, and the statuses that the audit entry after them names. -/
structure Update where
  id : String
  writes : List Remediation.Write
  actorID : String
  actorType : String
  action : String
  source : Status
  target : Status

def Update.entry (u : Update) : AuditEntry :=
  remediationEntry u.actorID u.actorType u.action u.id (some u.source) (some u.target)

/-- A conditional update under `requireApplied`. -/
def applyWrite (now : Time) (id : String) (db : Db) (w : Remediation.Write) : Except Failure Db :=
  if db.affects id w then .ok (db.write now id w) else .error .stateChanged

/-- Updates of one row, with their entry. -/
def applyOne (now : Time) (db : Db) (u : Update) : Except Failure Db :=
  (u.writes.foldlM (applyWrite now u.id) db).map fun db => db.record u.entry

/-- Updates one after the other. -/
def applyAll (now : Time) (updates : List Update) (db : Db) : Except Failure Db :=
  updates.foldlM (applyOne now) db

/-- `applyQueuedOutcome`. -/
def Outcome.update (id actor : String) : Outcome → Update
  | .running result =>
    ⟨id, [.markRunning result], actor, "user", "remediation.running", .queued, .running⟩
  | .succeeded result =>
    ⟨id, [.claim, .complete .succeeded result ""], actor, "user", "remediation.completed", .queued,
      .succeeded⟩

/-- `finish` of the worker: whether the outcome was recorded. -/
def finish (now : Time) (id : String) (status : Status) (result : Result) (error : String)
    (entry : AuditEntry) (db : Db) : Bool × Db :=
  if db.affects id (.complete status result error) then
    (true, (db.write now id (.complete status result error)).record entry)
  else (false, db)

/-- `redispatchTx`: the id of the new dispatch. -/
def redispatch (now : Time) (fresh id : String) (reason : Outbox.Reason)
    (actorID actorType : String) (db : Db) : Except Failure (String × Db) :=
  match db.remediation id with
  | .error e => .error e
  | .ok r =>
    if !r.status.isDispatchable then .error .notDispatchable
    else
      let dispatchID := Outbox.redispatchID fresh r reason db.dispatches
      match Outbox.enqueue now r dispatchID reason db.dispatches with
      | none => .error .constraint
      | some dispatches => .ok (dispatchID, ({ db with dispatches := dispatches } : Db).record
          (remediationEntry actorID actorType "remediation.redispatched" id (some r.status)
            (some r.status)))

/-- What the reconciler reads of a stuck remediation. -/
structure Stuck where
  id : String
  status : Status
  redispatches : ℕ
  hasWorker : Bool
  deriving DecidableEq, Repr

/-- The stuck rows that nobody holds, oldest reservation first. -/
def stuck (cfg : Outbox.Config) (now : Time) (held : List String) (db : Db) : List Stuck :=
  let found := db.remediations.filter fun r =>
    Outbox.isStuck cfg now r db.dispatches && !held.contains r.id
  ((found.insertionSort fun r r' => r.queuedAt.getD 0 ≤ r'.queuedAt.getD 0).take 100).map fun r =>
    ⟨r.id, r.status, Outbox.redispatches r db.dispatches,
      Outbox.hasWorker cfg now r db.heartbeats⟩

/-- What the reconciler does with one stuck remediation; whether anything was sent again so far. -/
def reconcileOne (cfg : Outbox.Config) (now : Time) (fresh : String) (acc : Bool × Db)
    (x : Stuck) : Except Failure (Bool × Db) :=
  if !x.hasWorker then .ok acc
  else if cfg.maxRedispatches ≤ x.redispatches then
    let reason := "no worker completed the job after " ++ toString x.redispatches ++ " redispatches"
    match acc.2.finish now x.id .timedOut (.reason reason) reason
      (remediationEntry "" "system" "remediation.dispatch_exhausted" x.id (some x.status)
        (some .timedOut)) with
    | (true, db) => .ok (acc.1, db)
    | (false, _) => .error .stateChanged
  else (acc.2.redispatch now fresh x.id .redispatch "" "system").map fun r => (true, r.2)

/-- `Reconcile`. -/
def reconcile (cfg : Outbox.Config) (now : Time) (fresh : String) (held : List String) (db : Db) :
    Except Failure (Bool × Db) :=
  (db.stuck cfg now held).foldlM (reconcileOne cfg now fresh) (false, db)

end Db

end Argus.System

import Argus.Remediation.Store
import Mathlib.Data.List.Sort

/-!
# The dispatch outbox

The `remediation_dispatches` table: jobs that a reservation writes and a dispatcher publishes, and the
reconciler's search for remediations that no worker finishes.
-/

namespace Argus.Outbox

open Remediation (Time RemediationAction Status)

/-- Why a job is sent. -/
inductive Reason where
  | execute
  | redispatch
  | replay
  deriving DecidableEq, Repr

def Reason.name : Reason → String
  | execute => "execute"
  | redispatch => "redispatch"
  | replay => "replay"

inductive State where
  | pending
  | published
  | skipped
  deriving DecidableEq, Repr

/-- The event of a job. -/
structure Job where
  eventID : String
  idempotencyKey : String
  remediationID : String
  incidentID : String
  dryRun : Bool
  deriving DecidableEq, Repr

/-- A row. -/
structure Dispatch where
  id : String
  remediationID : String
  reason : Reason
  event : Job
  state : State
  attempts : ℕ
  nextAttemptAt : Time
  publishedAt : Option Time
  createdAt : Time

/-- A row of `worker_heartbeats`. -/
structure Heartbeat where
  workerID : String
  supportedActions : List String
  lastHeartbeatAt : Time

structure Config where
  batchSize : ℕ
  redispatchAfter : Time
  maxRedispatches : ℕ
  runningStaleAfter : Time
  workerLiveWindow : Time

/-- `reservationEventID`; `fresh` is what `NewID` gives where there is no reservation time. -/
def reservationEventID (fresh : String) (r : RemediationAction) : String :=
  match r.queuedAt with
  | none => fresh
  | some t => r.idempotencyKey ++ "@" ++ toString t

/-- `Job`. -/
def job (r : RemediationAction) (dispatchID : String) : Job where
  eventID := dispatchID
  idempotencyKey := r.idempotencyKey
  remediationID := r.id
  incidentID := r.incidentID
  dryRun := r.dryRun

/-- The row that `Enqueue` inserts. -/
def newDispatch (now : Time) (r : RemediationAction) (id : String) (reason : Reason) :
    Dispatch where
  id := id
  remediationID := r.id
  reason := reason
  event := job r id
  state := .pending
  attempts := 0
  nextAttemptAt := now
  publishedAt := none
  createdAt := now

/-- `Enqueue`: refused where the id exists. -/
def enqueue (now : Time) (r : RemediationAction) (id : String) (reason : Reason)
    (dispatches : List Dispatch) : Option (List Dispatch) :=
  if dispatches.any fun d => d.id == id then none
  else some (dispatches ++ [newDispatch now r id reason])

/-- The id of a repeated dispatch. -/
def redispatchID (fresh : String) (r : RemediationAction) (reason : Reason)
    (dispatches : List Dispatch) : String :=
  reservationEventID fresh r ++ "#" ++ reason.name ++ "-" ++
    toString ((dispatches.countP fun d => d.remediationID == r.id) + 1)

/-! ## Publishing -/

/-- What a publish attempt writes. -/
inductive Write where
  | skipped
  | failed (attempts : ℕ) (retryAt : Time)
  | published (now : Time)

def Write.set (w : Write) (d : Dispatch) : Dispatch :=
  match w with
  | skipped => { d with state := .skipped }
  | failed attempts retryAt => { d with attempts := attempts, nextAttemptAt := retryAt }
  | published now =>
    { d with state := .published, publishedAt := some now, attempts := d.attempts + 1 }

def update (id : String) (w : Write) (dispatches : List Dispatch) : List Dispatch :=
  Table.updateIf (fun d => d.id = id) w.set dispatches

theorem mem_update {id : String} {w : Write} {dispatches : List Dispatch} {d' : Dispatch}
    (h : d' ∈ update id w dispatches) :
    ∃ d ∈ dispatches, d' = d ∧ d.id ≠ id ∨ d' = w.set d ∧ d.id = id :=
  Table.mem_updateIf h

theorem exists_mem_update (id : String) (w : Write) {dispatches : List Dispatch} {d : Dispatch}
    (h : d ∈ dispatches) :
    ∃ d' ∈ update id w dispatches, d' = d ∧ d.id ≠ id ∨ d' = w.set d ∧ d.id = id :=
  Table.exists_mem_updateIf h

/-- The columns that no update sets. -/
structure SameDispatch (d d' : Dispatch) : Prop where
  id : d'.id = d.id
  remediationID : d'.remediationID = d.remediationID
  reason : d'.reason = d.reason
  event : d'.event = d.event
  createdAt : d'.createdAt = d.createdAt

theorem SameDispatch.refl (d : Dispatch) : SameDispatch d d := by
  constructor <;> rfl

theorem SameDispatch.trans {d d' d'' : Dispatch} (h : SameDispatch d d')
    (h' : SameDispatch d' d'') : SameDispatch d d'' where
  id := h'.id.trans h.id
  remediationID := h'.remediationID.trans h.remediationID
  reason := h'.reason.trans h.reason
  event := h'.event.trans h.event
  createdAt := h'.createdAt.trans h.createdAt

theorem Write.sameDispatch_set (w : Write) (d : Dispatch) : SameDispatch d (w.set d) := by
  cases w <;> constructor <;> rfl

theorem map_update {κ : Type*} {key : Dispatch → κ} (id : String) (w : Write)
    (hkey : ∀ d, key (w.set d) = key d) (dispatches : List Dispatch) :
    (update id w dispatches).map key = dispatches.map key :=
  Table.map_updateIf hkey dispatches

/-- `dispatchBackoff`: 1s, 2s, 4s and so on, at most 30s. -/
def dispatchBackoff (attempts : ℕ) : Time :=
  min (10 ^ 9 * 2 ^ min (max attempts 1 - 1) 5) (30 * 10 ^ 9)

/-- The rows that a publisher takes: pending, due, the one asked for, not held by another. -/
def due (now : Time) (onlyID : String) (held : List String) (batchSize : ℕ)
    (dispatches : List Dispatch) : List Dispatch :=
  ((dispatches.filter fun d => d.state = .pending ∧ d.nextAttemptAt ≤ now ∧
    (onlyID = "" ∨ d.id = onlyID) ∧ d.id ∉ held).insertionSort
      fun d e => d.createdAt ≤ e.createdAt).take batchSize

/-! ## The reconciler's search -/

/-- Redispatches since the last execute or replay. -/
def redispatches (r : RemediationAction) (dispatches : List Dispatch) : ℕ :=
  let own := dispatches.filter fun d => d.remediationID = r.id
  let others := (own.filter fun d => d.reason ≠ .redispatch).map (·.createdAt)
  own.countP fun d => d.reason = .redispatch ∧ ∀ t ∈ others, t < d.createdAt

/-- A live worker supports the action. -/
def hasWorker (cfg : Config) (now : Time) (r : RemediationAction) (heartbeats : List Heartbeat) :
    Bool :=
  heartbeats.any fun h =>
    now - cfg.workerLiveWindow < h.lastHeartbeatAt ∧ r.actionType ∈ h.supportedActions

/-- Queued or running for too long, with no pending and no recent dispatch. -/
def isStuck (cfg : Config) (now : Time) (r : RemediationAction) (dispatches : List Dispatch) :
    Bool :=
  let own := dispatches.filter fun d => d.remediationID = r.id
  let older (t : Option Time) (age : Time) : Bool := t.any fun t => t < now - age
  let since (t : Time) : Bool := now - cfg.redispatchAfter < t
  ((r.status = .queued ∧ older r.queuedAt cfg.redispatchAfter) ∨
    (r.status = .running ∧ older r.startedAt cfg.runningStaleAfter ∧ own ≠ [])) ∧
  ∀ d ∈ own, d.state ≠ .pending ∧ ¬ since d.createdAt ∧ ¬ d.publishedAt.any since

theorem isDispatchable_of_isStuck {cfg : Config} {now : Time} {r : RemediationAction}
    {dispatches : List Dispatch} (h : isStuck cfg now r dispatches = true) :
    r.status.isDispatchable = true := by
  have hstatus := (of_decide_eq_true h).1
  rcases hstatus with ⟨hs, -⟩ | ⟨hs, -⟩ <;> simp [hs, Status.isDispatchable]

end Argus.Outbox

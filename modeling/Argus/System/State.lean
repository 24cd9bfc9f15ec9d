import Argus.Approvals.Requests
import Argus.Base.Fallible
import Argus.Base.Interleave
import Argus.Dispatch.Outbox
import Argus.Helios.Workflows
import Argus.Remediation.Proposal
import Argus.Workers.ControlState

/-!
# The state that calls share

The database, JetStream, Helios, the locks of long transactions, and the channels between a worker and
its handler. Beside it, the history that statements about whole runs need: which handlers were started,
how remediations were reserved, which target states were merged. No program reads the history.
-/

namespace Argus.System

open Incidents (Incident)
open Remediation (Time RemediationAction Failure Candidate Identity Result)
open Approvals (Request)
open Outbox (Dispatch Heartbeat Job)
open Workers (Control Handler Merge)
open Helios (Workflow WorkflowState)
open Interleave (Prog)

/-- An audit entry, by the statuses it records. -/
structure AuditEntry where
  actorID : String
  actorType : String
  action : String
  resourceType : String
  resourceID : String
  before : Option String
  after : Option String
  deriving DecidableEq, Repr

/-- The tables. -/
structure Db where
  incidents : List Incident
  remediations : List RemediationAction
  approvals : List Request
  dispatches : List Dispatch
  heartbeats : List Heartbeat
  control : Control
  audit : List AuditEntry

/-- The ids of the remediations are distinct. -/
abbrev Db.Distinct (db : Db) : Prop :=
  (db.remediations.map (·.id)).Nodup

/-- Which executor is configured. -/
inductive Executor where
  | localQueue
  | helios
  deriving DecidableEq, Repr

def Executor.name : Executor → String
  | localQueue => "local"
  | helios => "helios"

/-- The configuration. -/
structure Config where
  executor : Executor
  engine : Policy.Engine
  allowSelf : Bool
  /-- simple case folding -/
  fold : Char → Char
  approvalTimeout : Time
  escalateAfter : Time
  outbox : Outbox.Config
  handlers : List Handler
  maxDeliver : ℕ
  /-- the job timeout, as it is printed -/
  jobTimeout : String
  heliosMaxRuntime : Time
  submitLostAfter : Time

/-- What a handler returned: a result, or the text of an error. -/
abbrev HandlerOutcome := Except String Result

/-- A committed reservation, and the call that made it. -/
structure Reservation where
  pid : ℕ
  remediationID : String
  dryRun : Bool
  deriving DecidableEq, Repr

structure Shared where
  db : Db
  /-- the jobs that JetStream accepted -/
  stream : List Job
  /-- the jobs that workers run; the place of a job is the channel of its handler -/
  jobs : List RemediationAction
  /-- what handlers sent, by channel -/
  channels : List (ℕ × HandlerOutcome)
  workflows : List Workflow
  /-- the process inside the Helios reconciliation transaction -/
  reconciler : Option ℕ
  /-- the remediation rows it holds -/
  rowLocks : List String
  /-- the dispatch rows that publishers hold -/
  dispatchLocks : List (ℕ × String)
  /-- history: remediations for which a handler was started, and whether as a dry run -/
  started : List (String × Bool)
  /-- history: the reservations -/
  reservations : List Reservation
  /-- history: what handlers asked of the control state, previews included -/
  asked : List Merge
  /-- history: the changes of target states -/
  merges : List Merge
  /-- history: the workflows that Argus tried to cancel -/
  cancelAttempts : List String
  /-- history: the `Execute` calls that talk to Helios, with the remediation they reserved -/
  holders : List (ℕ × String)

/-- The choices made for one step. -/
structure Oracle where
  /-- the statement or request succeeds -/
  ok : Bool := true
  /-- `now()` of the database -/
  now : Time := 0
  /-- the clock of the process -/
  clock : Time := 0
  /-- what `NewID` or the other side generates -/
  fresh : String := ""
  /-- the text of an error -/
  message : String := ""
  /-- the job's deadline passes first -/
  timedOut : Bool := false
  /-- the other side acts although the caller sees an error -/
  effect : Bool := false
  /-- how often Helios is polled before the poll deadline -/
  polls : ℕ := 0

/-- A delivery of a job message. -/
structure Message where
  /-- none where the payload cannot be decoded or names no remediation -/
  remediationID : Option String
  deliveries : ℕ
  deriving DecidableEq, Repr

/-- The calls. -/
inductive Call where
  | propose (incident : Incident) (candidates : List Candidate) (actor role : String)
  | decide (id actor decision reason source : String)
  | decideByRemediation (remediationID actor decision reason : String)
  | cancelByRemediation (remediationID actor reason : String)
  | expireDue
  | execute (remediationID : String) (dryRun : Bool) (actor : String)
  | cancel (remediationID actor : String)
  | publish (onlyID : String)
  | replay (remediationID actor : String)
  | reconcile
  | handleMessage (msg : Message)
  | handler (h : Handler) (remediation : RemediationAction) (channel : ℕ)
  | reconcileHelios

/-- What a call answers: a result, for `Execute` whether it reused an execution, or what happens to its
message. -/
inductive Answer where
  | done (result : Except Failure Unit)
  | executed (reused : Bool)
  | ack
  | nak
  | term

/-- What a program waits for. -/
inductive Label where
  | findActive (k : Identity)
  | countRecent (k : Identity)
  | countFailed (k : Identity)
  | insert (k : Identity) (parameters : Parameters)
  | requestApproval
  | decide
  | cancelRequest
  | expire
  | cancel (id : String) (expected : Remediation.Status)
  | reserve (id : String)
  | release (id : String)
  | outcome (id : String)
  | submit (id : String)
  | workflow
  | findWorkflow (id : String)
  | lockRunning
  | lockLost (now : Time)
  | commitHelios
  | reconcile
  | bookkeeping
  | claim
  | finish
  | handler
  | read

/-- Programs of the system. -/
abbrev Program := Prog Call Label Oracle Shared

/-! ## Statements -/

/-- A transaction commits, or fails and leaves everything as it was. -/
def attempt {β : Type} (f : Oracle → Shared → Except Failure (β × Shared)) (o : Oracle)
    (s : Shared) : Except Failure β × Shared :=
  if o.ok then
    match f o s with
    | .ok (b, s') => (.ok b, s')
    | .error e => (.error e, s)
  else (.error .unavailable, s)

theorem attempt_cases {β : Type} {f : Oracle → Shared → Except Failure (β × Shared)} {o : Oracle}
    {s s' : Shared} {r : Except Failure β} (h : attempt f o s = (r, s')) :
    (∃ b, r = .ok b ∧ f o s = .ok (b, s')) ∨ ∃ e, r = .error e ∧ s' = s := by
  unfold attempt at h
  split at h
  · split at h
    · rename_i b s₁ hf
      obtain ⟨rfl, rfl⟩ := Prod.mk.inj h
      exact .inl ⟨b, rfl, hf⟩
    · obtain ⟨rfl, rfl⟩ := Prod.mk.inj h
      exact .inr ⟨_, rfl, rfl⟩
  · obtain ⟨rfl, rfl⟩ := Prod.mk.inj h
    exact .inr ⟨_, rfl, rfl⟩

/-- A transaction as one step. -/
def transact {β : Type} (l : Label) (f : Oracle → Shared → Except Failure (β × Shared)) :
    Program (Except Failure β) :=
  .perform l fun o s => some (attempt f o s)

/-- A transaction that waits for the lock of a remediation row. -/
def transactOn {β : Type} (l : Label) (id : String)
    (f : Oracle → Shared → Except Failure (β × Shared)) : Program (Except Failure β) :=
  .perform l fun o s => if id ∈ s.rowLocks then none else some (attempt f o s)

/-- A query. -/
def query {β : Type} (l : Label) (f : Oracle → Db → Except Failure β) :
    Program (Except Failure β) :=
  transact l fun o s => (f o s.db).map fun b => (b, s)

/-- The clock of the process. -/
def readClock : Program Time := .perform .read fun o s => some (o.clock, s)

namespace Db

/-- The update of a remediation row. -/
def write (db : Db) (now : Time) (id : String) (w : Remediation.Write) : Db :=
  { db with remediations := Remediation.updateWhere now id w db.remediations }

def record (db : Db) (entry : AuditEntry) : Db := { db with audit := db.audit ++ [entry] }

def affects (db : Db) (id : String) (w : Remediation.Write) : Bool :=
  Remediation.affects id w db.remediations

/-- `GetRemediation`. -/
def remediation (db : Db) (id : String) : Except Failure RemediationAction :=
  match Remediation.getRemediation db.remediations id with
  | some r => .ok r.decoded
  | none => .error .notFound

def incident (db : Db) (id : String) : Except Failure Incident :=
  match db.incidents.find? fun i => i.id == id with
  | some i => .ok i
  | none => .error .notFound

end Db

/-- An entry about a remediation. -/
def remediationEntry (actorID actorType action id : String)
    (before after : Option Remediation.Status) : AuditEntry :=
  ⟨actorID, actorType, action, "remediation", id, before.map Remediation.Status.name,
    after.map Remediation.Status.name⟩

/-- An entry about an approval request. -/
def requestEntry (actorID actorType action id : String) (before after : Option Approvals.Status) :
    AuditEntry :=
  ⟨actorID, actorType, action, "approval_request", id, before.map Approvals.Status.name,
    after.map Approvals.Status.name⟩

/-- A change of the database alone. -/
def Shared.withDb (s : Shared) (db : Db) : Shared := { s with db := db }

/-- How often a remediation was reserved. -/
def Shared.reservationsOf (s : Shared) (id : String) : ℕ :=
  s.reservations.countP fun x => x.remediationID == id

end Argus.System

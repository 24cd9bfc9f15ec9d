import Argus.System.Following
import Argus.System.Updates

/-!
# Steps

`Step` says of every statement what it commits, exactly, and what the call that performs it knew: which
reservation or lock it holds, what Helios told it, which rows it counted. Where an assumption of the
`Discipline` is made, a step carries what follows from it. The invariants of whole transactions, of locks
and of the audit trail are shown of steps; what they do to single rows follows from the changes they make.
-/

namespace Argus.System

open Remediation (Time RemediationAction Failure Candidate Identity Result Status Write)
open Approvals (Request)
open Outbox (Dispatch)
open Helios (Workflow)

/-! ## What calls know -/

/-- No row of an identity is active. -/
def NoActive (k : Identity) (s : Shared) : Prop :=
  ∀ r ∈ s.db.remediations, r.identity = k → r.isActive = false

/-- What remains true of a number of rows that was read when none of them was active. -/
structure Counted (k : Identity) (recent : ℕ) (s : Shared) : Prop where
  le : recent ≤ Remediation.countIdentity s.db.remediations k
  all : recent = Remediation.countIdentity s.db.remediations k → NoActive k s

/-- The incident exists and is not closed. -/
def IncidentOpen (s : Shared) (id : String) : Prop :=
  ∃ x, s.db.incident id = .ok x ∧ x.status.isClosed = false

/-- A workflow of a remediation that has not ended. -/
structure Live (s : Shared) (id : String) (w : Workflow) : Prop where
  mem : w ∈ s.workflows
  remediationID : w.remediationID = some id
  active : w.state.isActive = true

def NoLive (s : Shared) (id : String) : Prop := ∀ w, ¬ Live s id w

def OnlyLive (s : Shared) (id workflowID : String) : Prop := ∀ w, Live s id w → w.id = workflowID

/-- Nobody holds the reservation of a remediation. -/
def Unheld (s : Shared) (id : String) : Prop := ∀ i, (i, id) ∉ s.holders

/-- The process holds the reservation of a remediation, or its row. -/
def Owned (i : ℕ) (id : String) (s : Shared) : Prop :=
  (i, id) ∈ s.holders ∨ s.reconciler = some i ∧ id ∈ s.rowLocks

/-- The updates that follow from what Helios answered. -/
inductive HeliosUpdate (d : Discipline) (s : Shared) : Db.Update → Prop
  | running {id actorID actorType action workflowID name : String}
      (h : Reports d s id .running (.helios workflowID name))
      (hlive : d.exclusive → OnlyLive s id workflowID) :
      HeliosUpdate d s ⟨id, [.markRunning (.helios workflowID name)], actorID, actorType, action,
        .queued, .running⟩
  | succeeded {id actorID actorType action workflowID name : String}
      (h : Reports d s id .succeeded (.helios workflowID name))
      (hlive : d.exclusive → NoLive s id) :
      HeliosUpdate d s ⟨id, [.claim, .complete .succeeded (.helios workflowID name) ""], actorID,
        actorType, action, .queued, .succeeded⟩
  | ended {id actorID actorType action workflowID name error : String} {status : Status}
      (hstatus : status = .succeeded ∨ status = .failed)
      (h : Reports d s id status (.helios workflowID name))
      (hlive : d.exclusive → NoLive s id) :
      HeliosUpdate d s ⟨id, [.complete status (.helios workflowID name) error], actorID, actorType,
        action, .running, status⟩
  | overdue {id actorID actorType action workflowID name error : String}
      (h : Reports d s id .timedOut (.helios workflowID name))
      (hlive : d.exclusive → OnlyLive s id workflowID ∧ workflowID ∈ s.cancelAttempts) :
      HeliosUpdate d s ⟨id, [.complete .timedOut (.helios workflowID name) error], actorID,
        actorType, action, .running, .timedOut⟩
  | abandoned {id actorID actorType action error : String} (hlive : d.exclusive → NoLive s id) :
      HeliosUpdate d s ⟨id, [.complete .cancelled .null error], actorID, actorType, action, .queued,
        .cancelled⟩

/-! ## Kinds of steps -/

/-- Steps that leave remediations and their audit trail, reservations, workflows and locks alone, create
no dispatch and close no incident. -/
structure Quiet (s s' : Shared) : Prop where
  remediations : s'.db.remediations = s.db.remediations
  incidents : ∀ id, IncidentOpen s id → IncidentOpen s' id
  dispatches : List.Forall₂ Outbox.SameDispatch s.db.dispatches s'.db.dispatches
  audit : ∃ entries, s'.db.audit = s.db.audit ++ entries ∧
    ∀ e ∈ entries, e.resourceType ≠ "remediation"
  reservations : s'.reservations = s.reservations
  workflows : s'.workflows = s.workflows
  reconciler : s'.reconciler = s.reconciler
  rowLocks : s'.rowLocks = s.rowLocks
  cancelAttempts : s'.cancelAttempts = s.cancelAttempts
  holders : s'.holders = s.holders

/-- The end of a pending request and of its remediation's wait, with the two entries. -/
inductive Settlement (cfg : Config) (db : Db) : Db → Prop
  | mk (now : Time) (q : Request) (aw : Approvals.Write) (w : Write) {entry : AuditEntry}
      {actorID actorType action : String} (hq : q ∈ db.approvals) (hpending : q.status = .pending)
      (h : Settles cfg q aw w) (hentry : entry.resourceType ≠ "remediation") :
      Settlement cfg db (((db.settle now q aw w).record entry).record
        (remediationEntry actorID actorType action q.remediationID (some .awaitingApproval)
          (some w.status)))

/-- The statements that end a request. -/
def endsRequest : Label → Bool
  | .decide | .cancelRequest | .expire => true
  | _ => false

/-- What a reconciler is about to commit. -/
structure Planned (d : Discipline) (i : ℕ) (updates : List Db.Update) (s : Shared) : Prop where
  reconciler : s.reconciler = some i
  consistent : Consistent s.db.statusOf updates
  locked : ∀ u ∈ updates, u.id ∈ s.rowLocks
  told : ∀ u ∈ updates, HeliosUpdate d s u

/-- The steps of process `i`, by label and oracle. -/
inductive Step (cfg : Config) (d : Discipline) (i : ℕ) : Label → Oracle → Shared → Shared → Prop
  | quiet {l : Label} {o : Oracle} {s s' : Shared} (h : Quiet s s')
      (hchanges : Changes cfg d .read s s') : Step cfg d i l o s s'
  | insert {o : Oracle} {s : Shared} {incident : Incidents.Incident} {c : Candidate}
      {actor role : String} {recent failed : ℕ} {db : Db}
      (h : s.db.insertRemediation (Remediation.newRemediation cfg.engine incident c actor role
        o.fresh o.clock recent failed) actor = .ok db)
      (hcounted : d.proposals → Counted (c.identity incident) recent s ∧ c.parameters.Plain) :
      Step cfg d i (.insert (c.identity incident) c.parameters) o s (s.withDb db)
  | settle {l : Label} {o : Oracle} {s : Shared} {db : Db} (h : Settlement cfg s.db db)
      (hl : endsRequest l = true) : Step cfg d i l o s (s.withDb db)
  | cancel {o : Oracle} {s : Shared} {id actor : String} {expected : Status}
      (hne : expected ≠ .awaitingApproval) (hcan : expected.canTransition .cancelled = true)
      (hfree : id ∉ s.rowLocks) (haffects : s.db.affects id (.cancel expected) = true)
      (hclear : d.exclusive → expected = .queued → NoLive s id ∧ Unheld s id) :
      Step cfg d i (.cancel id expected) o s (s.withDb
        ((s.db.write o.now id (.cancel expected)).record (remediationEntry actor "user"
          "remediation.cancelled" id (some expected) (some .cancelled))))
  | reserve {o : Oracle} {s : Shared} {remediation : RemediationAction} {dryRun : Bool}
      {actor dispatchID : String} {db : Db}
      (h : s.db.reserve cfg.executor o.now o.fresh remediation dryRun actor = .ok (dispatchID, db))
      (happroved : remediation.status = .approved) (hfree : remediation.id ∉ s.rowLocks)
      (hopen : d.incidents → ∀ r ∈ s.db.remediations, r.id = remediation.id →
        IncidentOpen s r.incidentID) :
      Step cfg d i (.reserve remediation.id) o s (s.reserved cfg i remediation.id dryRun db)
  | replay {l : Label} {o : Oracle} {s : Shared} {id actor dispatchID : String} {db : Db}
      (h : s.db.redispatch o.now o.fresh id .replay actor "user" = .ok (dispatchID, db)) :
      Step cfg d i l o s (s.withDb db)
  | reconcile {o : Oracle} {s : Shared} {redispatched : Bool} {db : Db}
      (hshared : ¬ d.exclusive)
      (h : s.db.reconcile cfg.outbox o.now o.fresh s.rowLocks = .ok (redispatched, db)) :
      Step cfg d i .reconcile o s (s.withDb db)
  | release {o : Oracle} {s : Shared} {id actor : String} (hcfg : cfg.executor = .helios)
      (hheld : (i, id) ∈ s.holders) (hfree : id ∉ s.rowLocks)
      (hlive : d.exclusive → NoLive s id) :
      Step cfg d i (.release id) o s ((s.withDb (s.db.release o.now id actor)).endHold i)
  | outcome {o : Oracle} {s : Shared} {id actor : String} {outcome : Db.Outcome} {db : Db}
      (hcfg : cfg.executor = .helios) (hheld : (i, id) ∈ s.holders) (hfree : id ∉ s.rowLocks)
      (htold : HeliosUpdate d s (outcome.update id actor))
      (h : s.db.applyOne o.now (outcome.update id actor) = .ok db) :
      Step cfg d i (.outcome id) o s ((s.withDb db).endHold i)
  | endHold {l : Label} {o : Oracle} {s : Shared} : Step cfg d i l o s (s.endHold i)
  | claim {o : Oracle} {s : Shared} {id : String} (hshared : ¬ d.exclusive)
      (hfree : id ∉ s.rowLocks) :
      Step cfg d i .claim o s (s.withDb (s.db.write o.now id .claim))
  | finish {o : Oracle} {s : Shared} {id error action : String} {status : Status}
      {result : Result} (hshared : ¬ d.exclusive)
      (hstatus : status = .failed ∨ status = .timedOut ∨ status = .succeeded)
      (hlicensed : Licensed cfg d s id (.complete status result error)) (hfree : id ∉ s.rowLocks)
      (haffects : s.db.affects id (.complete status result error) = true) :
      Step cfg d i .finish o s (s.withDb
        ((s.db.write o.now id (.complete status result error)).record
          (remediationEntry "" "system" action id none (some status))))
  | submit {o : Oracle} {s : Shared} {workflowID id : String} {dryRun : Bool}
      (hnew : ∀ w ∈ s.workflows, w.id ≠ workflowID)
      (hrow : ∃ r ∈ s.db.remediations, r.id = id ∧ r.dryRun = dryRun)
      (howned : Owned i id s)
      (hlive : d.exclusive → NoLive s id ∧ s.db.statusOf id = some .queued) :
      Step cfg d i (.submit id) o s (s.addWorkflow workflowID id dryRun)
  | cancelWorkflow {l : Label} {o : Oracle} {s : Shared} {workflowID : String}
      {workflows : List Workflow}
      (h : workflows = s.workflows ∨ workflows = Helios.move workflowID .cancelled s.workflows) :
      Step cfg d i l o s { s with
        workflows := workflows, cancelAttempts := s.cancelAttempts ++ [workflowID] }
  | lockRunning {l : Label} {o : Oracle} {s : Shared} {ids : List String}
      (hnone : s.reconciler = none)
      (hids : ∀ id ∈ ids, s.db.statusOf id = some .running) :
      Step cfg d i l o s { s with reconciler := some i, rowLocks := ids }
  | lockLost {l : Label} {o : Oracle} {s : Shared} {ids : List String}
      (hreconciler : s.reconciler = some i)
      (hids : ∀ id ∈ ids, s.db.statusOf id = some .queued)
      (hunheld : d.exclusive → ∀ id ∈ ids, Unheld s id) :
      Step cfg d i l o s { s with rowLocks := s.rowLocks ++ ids }
  | commit {o : Oracle} {s : Shared} {now : Time} {updates : List Db.Update} {db : Db}
      (hcfg : cfg.executor = .helios) (hplanned : Planned d i updates s)
      (h : s.db.applyAll now updates = .ok db) :
      Step cfg d i .commitHelios o s (s.withDb db).endReconcile
  | endReconcile {l : Label} {o : Oracle} {s : Shared} (hreconciler : s.reconciler = some i) :
      Step cfg d i l o s s.endReconcile

/-! ## What is assumed of steps -/

/-- Nobody interferes with a reservation that Helios works on: a step is taken only where it does not.
The worker and the dispatcher's reconciler belong to the other executor. -/
def Undivided (cfg : Config) (s : Shared) : Label → Prop
  | .release id => NoLive s id
  | .cancel id expected => expected = .queued → NoLive s id ∧ Unheld s id
  | .lockLost now => ∀ id ∈ lostSubmissions cfg now s.db, Unheld s id
  | .findWorkflow id => ∀ w, Live s id w → w ∈ s.workflows.take 500
  | .claim | .finish | .reconcile => False
  | _ => True

/-- What the discipline assumes when a step is taken. -/
structure Permitted (cfg : Config) (d : Discipline) (l : Label) (s : Shared) : Prop where
  plain : d.proposals → ∀ k parameters, l = .insert k parameters → parameters.Plain
  adoption : d.adoption → ∀ id, l = .findWorkflow id → ∀ w,
    Helios.find s.workflows id = some w → w.reservation = s.reservationsOf id
  exclusive : d.exclusive → Undivided cfg s l

/-- What the others do. -/
inductive Moves (cfg : Config) (d : Discipline) (i : ℕ) (s : Shared) : Shared → Prop
  | step {j : ℕ} {l : Label} {o : Oracle} {s' : Shared} (hj : j ≠ i)
      (h : Step cfg d j l o s s') : Moves cfg d i s s'
  | environment {e : Environment} {s' : Shared} (h : environment e s = some s') :
      Moves cfg d i s s'
  | crash {j : ℕ} (hj : j ≠ i) : Moves cfg d i s (crash j s)

/-- What the others do while a process waits at a label. -/
structure Others (cfg : Config) (d : Discipline) (i : ℕ) (l : Option Label) (s s' : Shared) :
    Prop where
  moves : Moves cfg d i s s'
  proposals : d.proposals → ∀ k, l = some (.countRecent k) → NoActive k s → NoActive k s'
  incidents : d.incidents → ∀ id, l = some (.reserve id) → ∀ incidentID,
    IncidentOpen s incidentID → IncidentOpen s' incidentID ∨
      ∀ r ∈ s.db.remediations, r.id = id → r.incidentID ≠ incidentID

end Argus.System

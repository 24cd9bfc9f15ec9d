import Argus.System.HeliosReconcile

/-!
# What a step can do

`Change` lists once what any step of any call does to the tables and the history that the invariants speak
of, with what the call knew when it did it. A transaction is a sequence of changes. Invariants and the
assertions of programs are shown to survive a change; that the programs only make such changes is shown
apart, statement by statement.
-/

namespace Argus.System

open Incidents (Incident)
open Remediation (Time RemediationAction Failure Candidate Result Status SameProposal SameAction
  Write)
open Approvals (Request SameRequest RequestFor)
open Outbox (Dispatch)
open Workers (TypedHandler Merge findHandler)
open Helios (Workflow WorkflowState)

/-! ## Statuses -/

/-- The remediation was reserved for execution, unless it left by cancellation or expiry. -/
def isReserved : Status → Bool
  | .queued | .running | .succeeded | .failed | .timedOut | .cancelled => true
  | _ => false

/-- The remediation was claimed. -/
def isClaimed : Status → Bool
  | .running | .succeeded | .failed | .timedOut => true
  | _ => false

/-! ## Assumptions -/

/-- What some results assume about how calls interleave, beyond what the programs ensure by themselves.
Where an assumption is made, the steps of a run have to meet it, and then more can be shown of each. -/
structure Discipline where
  /-- no proposal overlaps another one's count -/
  proposals : Prop
  /-- no incident is closed under a remediation that is dispatched -/
  incidents : Prop
  /-- a workflow that is adopted belongs to the current reservation -/
  adoption : Prop
  /-- nobody interferes with a reservation that Helios works on -/
  exclusive : Prop

/-- No assumption. -/
def Discipline.none : Discipline := ⟨False, False, False, False⟩

/-! ## Changes of one row -/

/-- Where a job asked for an effect on control state, there is a receipt. -/
def Recorded (cfg : Config) (s : Shared) (job : RemediationAction) : Prop :=
  ∀ t, findHandler cfg.handlers job.actionType = some (.typed t) → job.dryRun = false →
    ∃ receipt ∈ s.db.control.receipts, receipt.idempotencyKey = job.idempotencyKey

/-- The results of handlers name no workflow. -/
def OfHandler (result : Result) : Prop := ∀ workflowID name, result ≠ .helios workflowID name

/-- A job whose handler returned a result. -/
structure Done (cfg : Config) (s : Shared) (id : String) : Prop where
  job : ∃ job ∈ s.jobs, job.id = id ∧ Recorded cfg s job ∧
    ∃ h, findHandler cfg.handlers job.actionType = some h

/-- A workflow that was submitted for a remediation. -/
structure Submitted (d : Discipline) (s : Shared) (id : String) (w : Workflow) : Prop where
  mem : w ∈ s.workflows
  remediationID : w.remediationID = some id
  current : d.adoption → w.reservation = s.reservationsOf id

/-- What a final status says about the workflow it follows. -/
def finalState : Status → WorkflowState → Prop
  | .succeeded, state => state = .succeeded
  | .failed, state => state = .failed ∨ state = .cancelled
  | _, _ => True

/-- A result that names a workflow names one of the remediation, in a state that fits the status. -/
def Reports (d : Discipline) (s : Shared) (id : String) (status : Status) (result : Result) : Prop :=
  ∀ workflowID name, result = .helios workflowID name →
    ∃ w, w.id = workflowID ∧ Submitted d s id w ∧ finalState status w.state

/-- The updates outside of approvals, with what their callers checked. -/
def Licensed (cfg : Config) (d : Discipline) (s : Shared) (id : String) : Write → Prop
  | .cancel expected => expected ≠ .awaitingApproval ∧ expected.canTransition .cancelled = true
  | .release => cfg.executor = .helios
  | .claim => True
  | .markRunning result => Reports d s id .running result
  | .complete status result _ => Reports d s id status result ∧
      match status with
      | .failed | .timedOut => True
      | .succeeded => cfg.executor = .localQueue → Done cfg s id
      | .cancelled => cfg.executor = .helios ∧ OfHandler result ∧
          ∃ r ∈ s.db.remediations, r.id = id ∧ r.status = .queued
      | _ => False
  | .markQueued _ | .approve _ | .reject | .cancelAwaiting | .expireAwaiting => False

/-- What a decision says when it is recorded. -/
structure ValidDecision (cfg : Config) (q : Request) (actor reason : String) (now : Time) :
    Prop where
  named : Strings.trimSpace actor ≠ "" ∧ actor ≠ "system"
  reasoned : Strings.trimSpace reason ≠ ""
  separate : cfg.allowSelf = false →
    Strings.equalFold cfg.fold (Strings.trimSpace q.requestedBy) (Strings.trimSpace actor) = false
  inTime : now < q.expiresAt

/-- The ways in which a pending request ends, together with its remediation. -/
inductive Settles (cfg : Config) (q : Request) : Approvals.Write → Write → Prop
  | approve {now : Time} {actor reason source : String}
      (h : ValidDecision cfg q actor reason now) :
      Settles cfg q (.decide .approve now actor reason source) (.approve actor)
  | deny {now : Time} {actor reason source : String} :
      Settles cfg q (.decide .deny now actor reason source) .reject
  | cancel {now : Time} {actor reason : String} :
      Settles cfg q (.cancel now actor reason) .cancelAwaiting
  | expire : Settles cfg q .expire .expireAwaiting

/-! ## Changes -/

/-- The end of a request, with the update of its remediation. -/
def Db.settle (db : Db) (now : Time) (q : Request) (aw : Approvals.Write) (w : Write) : Db :=
  { db with
    remediations := Remediation.updateWhere now q.remediationID w db.remediations
    approvals := Approvals.update q.id aw db.approvals }

/-- A workflow that may have moved: a finished one stays as it is. -/
structure Moved (w w' : Workflow) : Prop where
  id : w'.id = w.id
  remediationID : w'.remediationID = w.remediationID
  dryRun : w'.dryRun = w.dryRun
  reservation : w'.reservation = w.reservation
  state : w.state.isActive = false → w'.state = w.state

/-- Workflows move, and others submit their own. -/
structure WorkflowsMove (workflows workflows' : List Workflow) : Prop where
  kept : ∀ w ∈ workflows, ∃ w' ∈ workflows', Moved w w'
  known : ∀ w' ∈ workflows', w'.remediationID = none ∨ ∃ w ∈ workflows, Moved w w'
  ids : (workflows.map (·.id)).Nodup → (workflows'.map (·.id)).Nodup

/-- The parts that invariants speak of, apart from remediation rows. -/
structure SameRest (s s' : Shared) : Prop where
  approvals : s'.db.approvals = s.db.approvals
  dispatches : s'.db.dispatches = s.db.dispatches
  control : s'.db.control = s.db.control
  stream : s'.stream = s.stream
  jobs : s'.jobs = s.jobs
  channels : s'.channels = s.channels
  started : s'.started = s.started
  reservations : s'.reservations = s.reservations
  asked : s'.asked = s.asked
  merges : s'.merges = s.merges
  workflows : WorkflowsMove s.workflows s'.workflows

/-- A worker may run a job: its row was claimed, with the mode that the worker read. -/
structure Runnable (cfg : Config) (s : Shared) (job : RemediationAction) : Prop where
  row : ∃ r ∈ s.db.remediations, SameAction job r ∧
    (cfg.executor = .localQueue → isClaimed r.status = true ∧ r.dryRun = job.dryRun)
  reservation : cfg.executor = .localQueue →
    ∃ x ∈ s.reservations, x.remediationID = job.id ∧ x.dryRun = job.dryRun
  plain : job.parameters.Plain

/-- A merge that a job asks for. -/
structure AskedBy (cfg : Config) (job : RemediationAction) (m : Merge) : Prop where
  handler : ∃ t : TypedHandler, findHandler cfg.handlers job.actionType = some (.typed t) ∧
    Workers.Handler.validate (.typed t) job = .ok () ∧ m = t.merge job

/-- A dispatch row that is new, for a remediation in some mode. -/
structure NewDispatch (s : Shared) (id : String) (dryRun : Bool) (x : Dispatch) : Prop where
  remediationID : x.remediationID = id
  eventID : x.event.eventID = x.id
  event : x.event.remediationID = id
  dryRun : x.event.dryRun = dryRun
  state : x.state = .pending
  fresh : ∀ x' ∈ s.db.dispatches, x'.id ≠ x.id

/-- The dispatches after a reservation. -/
def Enqueues (cfg : Config) (s : Shared) (id : String) (dryRun : Bool)
    (dispatches : List Dispatch) : Prop :=
  match cfg.executor with
  | .helios => dispatches = s.db.dispatches
  | .localQueue => ∃ x, dispatches = s.db.dispatches ++ [x] ∧ NewDispatch s id dryRun x ∧
      x.reason = .execute

/-- Why a publisher may write what it writes. -/
def Justified (cfg : Config) (s : Shared) (x : String × Outbox.Write) : Prop :=
  match x.2 with
  | .skipped => cfg.executor = .localQueue → ∃ y ∈ s.db.dispatches, y.id = x.1 ∧
      ∃ r ∈ s.db.remediations, r.id = y.remediationID ∧ r.status.isTerminalState = true
  | .published _ => ∃ y ∈ s.db.dispatches, y.id = x.1 ∧ y.event ∈ s.stream
  | .failed _ _ => True

/-- One change. Only an insert depends on the label of the step that makes it. -/
inductive Change (cfg : Config) (d : Discipline) : Label → Shared → Shared → Prop
  /-- nothing the invariants speak of -/
  | frame {l : Label} {s s' : Shared} (hrows : s'.db.remediations = s.db.remediations)
      (hrest : SameRest s s') : Change cfg d l s s'
  | insert {s s' : Shared} {incident : Incident} {c : Candidate} {actor role id : String}
      {clock : Time} {recent failed : ℕ}
      (hins : Remediation.Inserted
        (Remediation.newRemediation cfg.engine incident c actor role id clock recent failed)
        s.db.remediations s'.db.remediations)
      (hrest : SameRest s s') : Change cfg d (.insert (c.identity incident) c.parameters) s s'
  | write {l : Label} {s : Shared} (now : Time) (id : String) (w : Write)
      (h : Licensed cfg d s id w) : Change cfg d l s (s.withDb (s.db.write now id w))
  | reserve {l : Label} {s : Shared} (now : Time) (pid : ℕ) (id : String) (dryRun : Bool)
      (dispatches : List Dispatch) (h : s.db.affects id (.markQueued dryRun) = true)
      (henqueues : Enqueues cfg s id dryRun dispatches) :
      Change cfg d l s { s with
        db := { s.db.write now id (.markQueued dryRun) with dispatches := dispatches }
        reservations := s.reservations ++ [⟨pid, id, dryRun⟩] }
  | request {l : Label} {s : Shared} {q : Request} {r : RemediationAction}
      (hq : q.status = .pending) (hr : r ∈ s.db.remediations) (hfor : RequestFor q r)
      (hstatus : r.status = .awaitingApproval)
      (hnew : ∀ q' ∈ s.db.approvals, q'.id ≠ q.id ∧ q'.remediationID ≠ q.remediationID) :
      Change cfg d l s (s.withDb { s.db with approvals := s.db.approvals ++ [q] })
  | settle {l : Label} {s : Shared} (now : Time) (q : Request) (aw : Approvals.Write) (w : Write)
      (hq : q ∈ s.db.approvals) (hpending : q.status = .pending) (h : Settles cfg q aw w) :
      Change cfg d l s (s.withDb (s.db.settle now q aw w))
  | enqueue {l : Label} {s : Shared} (x : Dispatch) {r : RemediationAction}
      (hr : r ∈ s.db.remediations) (hstatus : r.status.isDispatchable = true)
      (hnew : NewDispatch s r.id r.dryRun x) (hreason : x.reason ≠ .execute) :
      Change cfg d l s (s.withDb { s.db with dispatches := s.db.dispatches ++ [x] })
  | accept {l : Label} {s : Shared} (job : Outbox.Job) : Change cfg d l s (s.accept job)
  | publish {l : Label} {s : Shared} (x : String × Outbox.Write) (h : Justified cfg s x) :
      Change cfg d l s (s.withDb { s.db with
        dispatches := Outbox.update x.1 x.2 s.db.dispatches })
  | submit {l : Label} {s : Shared} (workflowID id : String) (dryRun : Bool)
      (hnew : ∀ w ∈ s.workflows, w.id ≠ workflowID)
      (hrow : ∃ r ∈ s.db.remediations, r.id = id ∧ r.dryRun = dryRun) :
      Change cfg d l s (s.addWorkflow workflowID id dryRun)
  | run {l : Label} {s : Shared} {job : RemediationAction} (h : Runnable cfg s job) :
      Change cfg d l s { s with jobs := s.jobs ++ [job] }
  | start {l : Label} {s : Shared} {job : RemediationAction} (h : job ∈ s.jobs) :
      Change cfg d l s { s with started := s.started ++ [(job.id, job.dryRun)] }
  | send {l : Label} {s : Shared} {channel : ℕ} {outcome : HandlerOutcome}
      {job : RemediationAction} (hjob : s.jobs[channel]? = some job)
      (h : ∀ result, outcome = .ok result → Recorded cfg s job ∧ OfHandler result) :
      Change cfg d l s { s with channels := s.channels ++ [(channel, outcome)] }
  | ask {l : Label} {s : Shared} {job : RemediationAction} (m : Merge) (hjob : job ∈ s.jobs)
      (h : AskedBy cfg job m) : Change cfg d l s (s.ask m)
  | apply {l : Label} {s : Shared} {job : RemediationAction} (m : Merge)
      (hjob : job ∈ s.jobs) (hdry : job.dryRun = false) (h : AskedBy cfg job m) :
      Change cfg d l s (s.applyMerge m)

/-- A sequence of changes by one step. -/
abbrev Changes (cfg : Config) (d : Discipline) (l : Label) : Shared → Shared → Prop :=
  Relation.ReflTransGen (Change cfg d l)

theorem Moved.refl (w : Workflow) : Moved w w := ⟨rfl, rfl, rfl, rfl, fun _ => rfl⟩

theorem WorkflowsMove.refl (workflows : List Workflow) : WorkflowsMove workflows workflows :=
  ⟨fun w hw => ⟨w, hw, .refl w⟩, fun w hw => .inr ⟨w, hw, .refl w⟩, fun h => h⟩

/-- Somebody else's workflow. -/
theorem WorkflowsMove.cons {w : Workflow} (h : w.remediationID = none) {workflows : List Workflow}
    (hnew : ∀ w' ∈ workflows, w'.id ≠ w.id) : WorkflowsMove workflows (w :: workflows) where
  kept w' hw' := ⟨w', List.mem_cons_of_mem _ hw', .refl w'⟩
  known w' hw' := by
    rcases List.mem_cons.mp hw' with rfl | hw'
    · exact .inl h
    · exact .inr ⟨w', hw', .refl w'⟩
  ids hnodup := by
    refine List.nodup_cons.mpr ⟨fun hmem => ?_, hnodup⟩
    obtain ⟨w', hw', hid⟩ := List.mem_map.mp hmem
    exact hnew w' hw' hid

theorem WorkflowsMove.move (id : String) (state : WorkflowState) (workflows : List Workflow) :
    WorkflowsMove workflows (Helios.move id state workflows) := by
  have hmoved (w : Workflow) :
      Moved w (if w.id = id ∧ w.state.isActive = true then { w with state := state } else w) := by
    split
    · rename_i h
      exact ⟨rfl, rfl, rfl, rfl, fun hfinished => by simp [h.2] at hfinished⟩
    · exact .refl w
  refine ⟨fun w hw => ⟨_, List.mem_map_of_mem hw, hmoved w⟩, fun w' hw' => ?_, fun hnodup => ?_⟩
  · obtain ⟨w, hw, rfl⟩ := List.mem_map.mp hw'
    exact .inr ⟨w, hw, hmoved w⟩
  · rw [Helios.move, List.map_map]
    exact (List.map_congr_left fun w _ => (hmoved w).id).symm ▸ hnodup

/-! ## What happens to rows -/

/-- What a change does to one row. -/
inductive RowChange (cfg : Config) (d : Discipline) (s : Shared) (r : RemediationAction) :
    RemediationAction → Prop
  | same : RowChange cfg d s r r
  | write (now : Time) {w : Write} (hguard : w.guard r.status = true)
      (h : Licensed cfg d s r.id w) : RowChange cfg d s r (w.set now r)
  | reserve (now : Time) (dryRun : Bool) (h : r.status = .approved) :
      RowChange cfg d s r ((Write.markQueued dryRun).set now r)
  | settle (now : Time) {q : Request} {aw : Approvals.Write} {w : Write}
      (hq : q ∈ s.db.approvals) (hid : q.remediationID = r.id) (hpending : q.status = .pending)
      (h : Settles cfg q aw w) (hstatus : r.status = .awaitingApproval) :
      RowChange cfg d s r (w.set now r)

section

variable {cfg : Config} {d : Discipline} {s s' : Shared} {l : Label} {r r' : RemediationAction}

theorem RowChange.sameProposal (h : RowChange cfg d s r r') : SameProposal r r' := by
  cases h with
  | same => exact .refl r
  | write now _ _ | reserve now dryRun _ | settle now _ _ _ _ _ =>
    exact Write.sameProposal_set now _ r

theorem RowChange.sameAction (h : RowChange cfg d s r r') : SameAction r r' := by
  cases h with
  | same => exact .refl r
  | write now _ _ | reserve now dryRun _ | settle now _ _ _ _ _ =>
    exact Write.sameAction_set now _ r

/-- A settled row was awaiting approval. -/
theorem Settles.guard_iff {q : Request} {aw : Approvals.Write} {w : Write}
    (h : Settles cfg q aw w) (status : Status) :
    w.guard status = true ↔ status = .awaitingApproval := by
  cases h <;> simp [Write.guard]

/-- A licensed update leaves the mode alone. -/
theorem Licensed.dryRun_set {id : String} {w : Write} (h : Licensed cfg d s id w) (now : Time)
    (r : RemediationAction) : (w.set now r).dryRun = r.dryRun := by
  cases w with
  | cancel _ | complete _ _ _ | release | claim | markRunning _ => rfl
  | _ => exact False.elim h

/-- The statuses that `CompleteRemediation` is called with. -/
theorem Licensed.complete_cases {id error : String} {status : Status} {result : Result}
    (h : Licensed cfg d s id (.complete status result error)) :
    status = .failed ∨ status = .timedOut ∨ status = .succeeded ∨
      status = .cancelled ∧ cfg.executor = .helios := by
  have hstatus := h.2
  cases status <;> simp_all

/-- With the local executor, a reserved row stays reserved in its mode. -/
theorem RowChange.reserved (h : RowChange cfg d s r r') (hlocal : cfg.executor = .localQueue)
    (hr : isReserved r.status = true) : isReserved r'.status = true ∧ r'.dryRun = r.dryRun := by
  cases h with
  | same => exact ⟨hr, rfl⟩
  | @write now w _ hlicensed =>
    refine ⟨?_, hlicensed.dryRun_set now r⟩
    rw [Write.status_set]
    cases w with
    | complete status _ _ =>
      rcases hlicensed.complete_cases with rfl | rfl | rfl | ⟨rfl, -⟩ <;> rfl
    | release => simp_all [Licensed]
    | cancel _ | claim | markRunning _ => rfl
    | _ => exact False.elim hlicensed
  | reserve _ _ hstatus | settle _ _ _ _ _ hstatus => simp [hstatus, isReserved] at hr

/-- With the local executor, a claimed row is never cancelled or released. -/
theorem RowChange.claimed (h : RowChange cfg d s r r') (hlocal : cfg.executor = .localQueue)
    (hr : isClaimed r.status = true) : isClaimed r'.status = true ∧ r'.dryRun = r.dryRun := by
  cases h with
  | same => exact ⟨hr, rfl⟩
  | @write now w hguard hlicensed =>
    refine ⟨?_, hlicensed.dryRun_set now r⟩
    rw [Write.status_set]
    cases w with
    | complete status _ _ =>
      rcases hlicensed.complete_cases with rfl | rfl | rfl | ⟨rfl, hhelios⟩
      · rfl
      · rfl
      · rfl
      · rw [hlocal] at hhelios
        cases hhelios
    | release => simp_all [Licensed]
    | cancel expected =>
      obtain rfl : r.status = expected := by simpa [Write.guard] using hguard
      have hcan := Status.canTransition_cancelled_iff.mp hlicensed.2
      rcases hcan with h | h | h | h | h <;> simp [h, isClaimed] at hr
    | claim | markRunning _ => rfl
    | _ => exact False.elim hlicensed
  | reserve _ _ hstatus | settle _ _ _ _ _ hstatus => simp [hstatus, isClaimed] at hr

/-- A terminal row keeps its status, its result and its error. -/
theorem RowChange.terminal (h : RowChange cfg d s r r') (hr : r.status.isTerminalState = true) :
    r'.status = r.status ∧ r'.result = r.result ∧ r'.error = r.error := by
  cases h with
  | same => exact ⟨rfl, rfl, rfl⟩
  | @write now w hguard hlicensed =>
    cases w with
    | cancel expected =>
      obtain rfl : r.status = expected := by simpa [Write.guard] using hguard
      -- only a cancelled row can be cancelled again
      have hcan := Status.canTransition_cancelled_iff.mp hlicensed.2
      rcases hcan with h | h | h | h | h
      case inr.inr.inr.inr => exact ⟨h.symm, rfl, rfl⟩
      all_goals simp [h, Status.isTerminalState] at hr
    | release =>
      have hqueued : r.status = .queued := by simpa [Write.guard] using hguard
      simp [hqueued, Status.isTerminalState] at hr
    | claim | markRunning _ | complete _ _ _ =>
      rw [Status.isTerminalState_of_isDispatchable hguard] at hr
      cases hr
    | _ => exact False.elim hlicensed
  | reserve _ _ hstatus | settle _ _ _ _ _ hstatus => simp [hstatus, Status.isTerminalState] at hr

/-- Every row has a row after the change. -/
theorem Change.row (h : Change cfg d l s s') (hr : r ∈ s.db.remediations) :
    ∃ r' ∈ s'.db.remediations, RowChange cfg d s r r' := by
  cases h with
  | frame hrows _ => exact ⟨r, hrows ▸ hr, .same⟩
  | insert hins _ => exact ⟨r, by simp [hins.eq, hr], .same⟩
  | write now id w hlicensed =>
    obtain ⟨r', hr', ⟨rfl, -⟩ | ⟨rfl, rfl, hguard⟩⟩ :=
      Remediation.exists_mem_updateWhere now id w hr
    · exact ⟨r', hr', .same⟩
    · exact ⟨_, hr', .write now hguard hlicensed⟩
  | reserve now pid id dryRun _ _ _ =>
    obtain ⟨r', hr', ⟨rfl, -⟩ | ⟨rfl, rfl, hguard⟩⟩ :=
      Remediation.exists_mem_updateWhere now id (.markQueued dryRun) hr
    · exact ⟨r', hr', .same⟩
    · exact ⟨_, hr', .reserve now dryRun (by simpa [Write.guard] using hguard)⟩
  | settle now q aw w hq hpending hsettles =>
    obtain ⟨r', hr', ⟨rfl, -⟩ | ⟨rfl, hid, hguard⟩⟩ :=
      Remediation.exists_mem_updateWhere now q.remediationID w hr
    · exact ⟨r', hr', .same⟩
    · exact ⟨_, hr',
        .settle now hq hid.symm hpending hsettles ((hsettles.guard_iff _).mp hguard)⟩
  | _ => exact ⟨r, hr, .same⟩

/-- Every row after a change is the change of a row, or inserted. -/
theorem Change.row_of_mem (h : Change cfg d l s s') (hr' : r' ∈ s'.db.remediations) :
    (∃ r ∈ s.db.remediations, RowChange cfg d s r r') ∨
      ∃ incident c actor role id clock recent failed,
        l = .insert (c.identity incident) c.parameters ∧
        r' = Remediation.newRemediation cfg.engine incident c actor role id clock recent failed := by
  cases h with
  | frame hrows _ => exact .inl ⟨r', hrows ▸ hr', .same⟩
  | insert hins _ =>
    rw [hins.eq, List.mem_append, List.mem_singleton] at hr'
    rcases hr' with hr' | rfl
    · exact .inl ⟨r', hr', .same⟩
    · exact .inr ⟨_, _, _, _, _, _, _, _, rfl, rfl⟩
  | write now id w hlicensed =>
    obtain ⟨r, hr, rfl | ⟨rfl, rfl, hguard⟩⟩ := Remediation.mem_updateWhere hr'
    · exact .inl ⟨r', hr, .same⟩
    · exact .inl ⟨r, hr, .write now hguard hlicensed⟩
  | reserve now pid id dryRun _ _ _ =>
    obtain ⟨r, hr, rfl | ⟨rfl, rfl, hguard⟩⟩ := Remediation.mem_updateWhere hr'
    · exact .inl ⟨r', hr, .same⟩
    · exact .inl ⟨r, hr, .reserve now dryRun (by simpa [Write.guard] using hguard)⟩
  | settle now q aw w hq hpending hsettles =>
    obtain ⟨r, hr, rfl | ⟨rfl, hid, hguard⟩⟩ := Remediation.mem_updateWhere hr'
    · exact .inl ⟨r', hr, .same⟩
    · exact .inl ⟨r, hr,
        .settle now hq hid.symm hpending hsettles ((hsettles.guard_iff _).mp hguard)⟩
  | _ => exact .inl ⟨r', hr', .same⟩

/-! ## What happens to requests -/

/-- Every request has a request after the change, the same one unless it was pending. -/
theorem Change.request_of_mem (h : Change cfg d l s s') (hids : (s.db.approvals.map (·.id)).Nodup)
    {q : Request} (hq : q ∈ s.db.approvals) :
    ∃ q' ∈ s'.db.approvals, SameRequest q q' ∧ (q.status ≠ .pending → q' = q) := by
  cases h with
  | frame _ hrest | insert _ hrest => exact ⟨q, hrest.approvals ▸ hq, .refl q, fun _ => rfl⟩
  | request => exact ⟨q, List.mem_append_left _ hq, .refl q, fun _ => rfl⟩
  | settle now q₀ aw w hq₀ hpending _ =>
    obtain ⟨q', hq', ⟨rfl, -⟩ | ⟨rfl, hid⟩⟩ :=
      Approvals.exists_mem_update q₀.id aw hq
    · exact ⟨q', hq', .refl q', fun _ => rfl⟩
    · refine ⟨_, hq', aw.sameRequest_set q, fun hne => absurd ?_ hne⟩
      rw [Table.eq_of_key_eq hids hq hq₀ hid]
      exact hpending
  | _ => exact ⟨q, hq, .refl q, fun _ => rfl⟩

end

/-! ## What only grows -/

/-- The tables and lists that changes only append to. -/
structure Grows (s s' : Shared) : Prop where
  reservations : s.reservations ⊆ s'.reservations
  stream : s.stream ⊆ s'.stream
  jobs : s.jobs <+: s'.jobs
  receipts : s.db.control.receipts ⊆ s'.db.control.receipts

variable {cfg : Config} {s s' : Shared}

theorem Change.grows {d : Discipline} {l : Label} (h : Change cfg d l s s') : Grows s s' := by
  have hsame (s : Shared) : Grows s s :=
    ⟨List.Subset.refl _, List.Subset.refl _, List.prefix_refl _, List.Subset.refl _⟩
  cases h with
  | frame _ hrest | insert _ hrest =>
    exact ⟨by simp [hrest.reservations], by simp [hrest.stream], by simp [hrest.jobs],
      by simp [hrest.control]⟩
  | reserve _ _ id dryRun _ _ _ =>
    exact { hsame s with reservations := List.subset_append_left _ _ }
  | accept job => exact { hsame s with stream := List.subset_append_left _ _ }
  | run _ => exact { hsame s with jobs := List.prefix_append _ _ }
  | apply =>
    exact { hsame s with receipts := Workers.receipts_subset_applyOnce _ _ }
  | _ => exact { hsame s with }

variable {job : RemediationAction}

theorem Recorded.mono (h : Grows s s') (hjob : Recorded cfg s job) : Recorded cfg s' job := by
  intro t ht hdry
  obtain ⟨receipt, hmem, hkey⟩ := hjob t ht hdry
  exact ⟨receipt, h.receipts hmem, hkey⟩

theorem Grows.mem_jobs (h : Grows s s') (hjob : job ∈ s.jobs) : job ∈ s'.jobs := h.jobs.subset hjob

theorem Grows.getElem_jobs (h : Grows s s') {channel : ℕ} (hjob : s.jobs[channel]? = some job) :
    s'.jobs[channel]? = some job := by
  obtain ⟨rest, hrest⟩ := h.jobs
  rw [← hrest, List.getElem?_append_left (List.getElem?_eq_some_iff.mp hjob).1]
  exact hjob

/-- Every workflow is kept. -/
theorem Change.workflow {d : Discipline} {l : Label} (h : Change cfg d l s s') {w : Workflow}
    (hw : w ∈ s.workflows) : ∃ w' ∈ s'.workflows, Moved w w' := by
  cases h with
  | frame _ hrest | insert _ hrest => exact hrest.workflows.kept w hw
  | submit => exact ⟨w, List.mem_cons_of_mem _ hw, .refl w⟩
  | _ => exact ⟨w, hw, .refl w⟩

end Argus.System

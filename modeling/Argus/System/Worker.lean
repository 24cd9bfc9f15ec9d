import Argus.System.Execution

/-!
# Programs of the worker

A worker reads the remediation of its message, claims it and starts the handler in a goroutine of its own.
It waits for the handler until the job's deadline; after that the handler is left to finish alone.
-/

namespace Argus.System

open Remediation (Time RemediationAction Failure Result Status)
open Workers (Handler Merge TypedHandler)

/-! ## Statements -/

/-- `ClaimRemediation`. -/
def claimRemediation (id : String) : Program (Except Failure Bool) :=
  transactOn .claim id fun o s => .ok (s.db.affects id .claim, s.withDb (s.db.write o.now id .claim))

/-- `finish`: whether the outcome was recorded. -/
def finish (id : String) (status : Status) (result : Result) (error action : String) :
    Program (Except Failure Bool) :=
  transactOn .finish id fun o s =>
    let r := s.db.finish o.now id status result error
      (remediationEntry "" "system" action id none (some status))
    .ok (r.1, s.withDb r.2)

/-- The channel for the handler of a job. -/
def openChannel (remediation : RemediationAction) : Program ℕ :=
  .perform .handler fun _ s => some (s.jobs.length, { s with jobs := s.jobs ++ [remediation] })

def sendOutcome (channel : ℕ) (outcome : HandlerOutcome) : Program Unit :=
  .perform .handler fun _ s => some ((), { s with channels := s.channels ++ [(channel, outcome)] })

/-- The `select` of `runHandler`: nothing if the deadline passes first. -/
def awaitOutcome (channel : ℕ) : Program (Option HandlerOutcome) :=
  .perform .handler fun o s =>
    if o.timedOut then some (none, s)
    else (s.channels.find? fun c => c.1 == channel).map fun c => (some c.2, s)

/-- The start of a handler. -/
def startHandler (remediation : RemediationAction) : Program Unit :=
  .perform .handler fun _ s =>
    some ((), { s with started := s.started ++ [(remediation.id, remediation.dryRun)] })

def Shared.ask (s : Shared) (m : Merge) : Shared := { s with asked := s.asked ++ [m] }

/-- `Preview`. -/
def previewState (m : Merge) : Program HandlerOutcome :=
  .perform .handler fun o s =>
    some (if o.ok then .ok (Workers.preview s.db.control m) else .error o.message, s.ask m)

/-- The state after `ApplyOnce` commits. -/
def Shared.applyMerge (s : Shared) (m : Merge) : Shared :=
  let r := Workers.applyOnce s.db.control m
  { s with
    db := { s.db with control := r.2.1 }
    merges := if r.2.2 then s.merges ++ [m] else s.merges }

/-- `ApplyOnce`. The transaction may commit although the handler sees an error. -/
def applyOnce (m : Merge) : Program HandlerOutcome :=
  .perform .handler fun o s => some <|
    if o.ok then (.ok (Workers.applyOnce s.db.control m).1, (s.applyMerge m).ask m)
    else if o.effect then (.error o.message, (s.applyMerge m).ask m)
    else (.error o.message, s.ask m)

/-! ## The handler -/

/-- `DryRun` or `Execute` of a handler. -/
def handle (h : Handler) (remediation : RemediationAction) : Program HandlerOutcome :=
  match h with
  | .static _ message =>
    let mode := if remediation.dryRun then "dry-run" else "execute"
    return .ok (.message mode message remediation.target)
  | .typed t =>
    match Handler.validate (.typed t) remediation with
    | .error message => return .error message
    | .ok () =>
      if remediation.dryRun then previewState (t.merge remediation)
      else applyOnce (t.merge remediation)

/-- The goroutine of `runHandler`. -/
def handler (h : Handler) (remediation : RemediationAction) (channel : ℕ) : Program Answer := do
  startHandler remediation
  let outcome ← handle h remediation
  sendOutcome channel outcome
  return .done (.ok ())

/-! ## The worker -/

/-- `retryLater`. -/
def retryLater (cfg : Config) (msg : Message) : Answer :=
  if cfg.maxDeliver ≤ msg.deliveries then .term else .nak

/-- A recorded outcome acknowledges the message, whether or not it applied. -/
def finishAndAck (cfg : Config) (msg : Message) (id : String) (status : Status) (result : Result)
    (error action : String) : Program Answer := do
  match ← finish id status result error action with
  | .error _ => return retryLater cfg msg
  | .ok _ => return .ack

/-- What the worker does with the outcome of its handler. -/
def conclude (cfg : Config) (msg : Message) (remediation : RemediationAction) :
    Option HandlerOutcome → Program Answer
  | none =>
    finishAndAck cfg msg remediation.id .timedOut .null
      ("handler exceeded the " ++ cfg.jobTimeout ++ " job timeout; outcome unknown, not retried")
      "remediation.timed_out"
  | some (.error message) =>
    if msg.deliveries < remediation.maxAttempts ∧ msg.deliveries < cfg.maxDeliver then return .nak
    else finishAndAck cfg msg remediation.id .failed .null message "remediation.failed"
  | some (.ok result) =>
    finishAndAck cfg msg remediation.id .succeeded result "" "remediation.completed"

/-- The claim and what follows it. -/
def claimAndRun (cfg : Config) (msg : Message) (h : Handler) (remediation : RemediationAction) :
    Program Answer := do
  match ← claimRemediation remediation.id with
  | .error _ => return retryLater cfg msg
  | .ok false =>
    let _ ← getRemediation remediation.id
    return .ack
  | .ok true =>
    let channel ← openChannel remediation
    Interleave.Prog.spawn (.handler h remediation channel)
    let outcome ← awaitOutcome channel
    conclude cfg msg remediation outcome

/-- A message whose remediation was found. -/
def handleRemediation (cfg : Config) (msg : Message) (remediation : RemediationAction) :
    Program Answer :=
  -- cancelled, finished, or never queued: the message is stale
  if !remediation.status.isDispatchable then return .ack
  else match Workers.findHandler cfg.handlers remediation.actionType with
    | none =>
      finishAndAck cfg msg remediation.id .failed .null
        ("no handler registered for " ++ remediation.actionType) "remediation.failed"
    | some h =>
      match h.validate remediation with
      | .error message =>
        finishAndAck cfg msg remediation.id .failed .null message
          "remediation.validation_failed"
      | .ok () => claimAndRun cfg msg h remediation

/-- `handleMessage`. -/
def handleMessage (cfg : Config) (msg : Message) : Program Answer :=
  match msg.remediationID with
  | none => return .term
  | some id => do
      match ← getRemediation id with
      | .error .notFound => return .term
      | .error _ => return retryLater cfg msg
      | .ok remediation => handleRemediation cfg msg remediation

end Argus.System

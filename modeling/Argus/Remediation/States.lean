import Mathlib.Data.List.Basic

/-!
# Remediation states

The states of a remediation, which of them are terminal, and the table of allowed transitions.
-/

namespace Argus.Remediation

/-- The values of the `status` column. -/
inductive Status where
  | proposed
  | policyBlocked
  | awaitingApproval
  | approved
  | rejected
  | queued
  | running
  | succeeded
  | failed
  | timedOut
  | cancelled
  deriving DecidableEq, Repr

namespace Status

def name : Status → String
  | proposed => "proposed"
  | policyBlocked => "policy_blocked"
  | awaitingApproval => "awaiting_approval"
  | approved => "approved"
  | rejected => "rejected"
  | queued => "queued"
  | running => "running"
  | succeeded => "succeeded"
  | failed => "failed"
  | timedOut => "timed_out"
  | cancelled => "cancelled"

def isTerminalState : Status → Bool
  | policyBlocked | rejected | succeeded | failed | timedOut | cancelled => true
  | proposed | awaitingApproval | approved | queued | running => false

/-- The states a state may move to, apart from itself. -/
def allowed : Status → List Status
  | proposed => [policyBlocked, awaitingApproval, approved, cancelled]
  | awaitingApproval => [approved, rejected, timedOut, cancelled]
  | approved => [queued, cancelled]
  | queued => [running, succeeded, failed, timedOut, cancelled]
  | running => [succeeded, failed, timedOut]
  | failed => [approved]
  | policyBlocked | rejected | succeeded | timedOut | cancelled => []

/-- `CanTransition(from, to)`. -/
def canTransition (source target : Status) : Bool :=
  source == target || (allowed source).contains target

/-- The executor has the remediation, or a worker may claim it. -/
def isDispatchable : Status → Bool
  | queued | running => true
  | _ => false

/-- What the table lets a cancellation start from. -/
theorem canTransition_cancelled_iff {s : Status} :
    s.canTransition cancelled = true ↔
      s = proposed ∨ s = awaitingApproval ∨ s = approved ∨ s = queued ∨ s = cancelled := by
  cases s <;> simp [canTransition, allowed]

theorem isTerminalState_of_isDispatchable {s : Status} (h : s.isDispatchable = true) :
    s.isTerminalState = false := by
  cases s <;> simp_all [isDispatchable, isTerminalState]

end Status

end Argus.Remediation

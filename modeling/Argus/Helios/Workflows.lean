import Mathlib.Data.List.Basic
import Mathlib.Data.Nat.Notation

/-!
# Helios workflows

Helios as Argus sees it: the workflows it holds, newest first, each with its state and the remediation
it was submitted for.
-/

namespace Argus.Helios

inductive WorkflowState where
  /-- any state from which the workflow still moves, by the name Helios gives it -/
  | active (name : String)
  | succeeded
  | failed
  | cancelled
  deriving DecidableEq, Repr

def WorkflowState.isActive : WorkflowState → Bool
  | active _ => true
  | succeeded | failed | cancelled => false

def WorkflowState.name : WorkflowState → String
  | active name => name
  | succeeded => "succeeded"
  | failed => "failed"
  | cancelled => "cancelled"

/-- A workflow. `remediationID` is the label of one that Argus submitted. -/
structure Workflow where
  id : String
  remediationID : Option String
  dryRun : Bool
  state : WorkflowState
  /-- history: how often the remediation had been reserved when it was submitted -/
  reservation : ℕ
  deriving DecidableEq, Repr

/-- `getWorkflow`. -/
def get (workflows : List Workflow) (id : String) : Option Workflow :=
  workflows.find? fun w => w.id == id

/-- `findWorkflow`: the most recent workflow of a remediation among the latest 500. -/
def find (workflows : List Workflow) (remediationID : String) : Option Workflow :=
  (workflows.take 500).find? fun w => w.remediationID == some remediationID

/-- An active workflow moves; a finished one stays. -/
def move (id : String) (state : WorkflowState) (workflows : List Workflow) : List Workflow :=
  workflows.map fun w =>
    if w.id = id ∧ w.state.isActive = true then { w with state := state } else w

end Argus.Helios

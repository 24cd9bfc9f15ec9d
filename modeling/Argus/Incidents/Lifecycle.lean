import Mathlib.Data.List.Basic

/-!
# Incidents

The states of an incident and the transitions between them, and the columns that the remediation
service reads.
-/

namespace Argus.Incidents

/-- The values of the `status` column. -/
inductive Status where
  | detected
  | triaged
  | investigating
  | rcaGenerated
  | remediationProposed
  | awaitingApproval
  | remediating
  | mitigated
  | resolved
  | failed
  | cancelled
  deriving DecidableEq, Repr

namespace Status

/-- The states a state may move to. -/
def transitions : Status → List Status
  | detected => [triaged, investigating, rcaGenerated, resolved, cancelled]
  | triaged => [investigating, rcaGenerated, resolved, cancelled]
  | investigating => [rcaGenerated, resolved, failed]
  | rcaGenerated => [remediationProposed, awaitingApproval, resolved]
  | remediationProposed => [awaitingApproval, remediating, resolved]
  | awaitingApproval => [remediating, resolved, cancelled]
  | remediating => [mitigated, resolved, failed]
  | mitigated => [resolved]
  | failed => [investigating, resolved]
  | resolved | cancelled => []

def canTransition (source target : Status) : Bool := (transitions source).contains target

def isClosed (s : Status) : Bool := s == resolved || s == cancelled

/-- A closed incident stays closed. -/
theorem canTransition_of_isClosed {s t : Status} (h : s.isClosed = true) :
    s.canTransition t = false := by
  cases s <;> simp_all [isClosed, canTransition, transitions]

end Status

/-- An incident, as the remediation service reads it. -/
structure Incident where
  id : String
  severity : String
  service : String
  environment : String
  status : Status

/-- `TransitionIncident`: the status moves if the table allows it, and stays otherwise. -/
def transitionIncident (id : String) (status : Status) (incidents : List Incident) :
    List Incident :=
  incidents.map fun i =>
    if i.id = id ∧ i.status.canTransition status then { i with status := status } else i

end Argus.Incidents

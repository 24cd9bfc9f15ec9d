import Argus.Base.Json
import Argus.Base.SortedAssoc
import Argus.Incidents.Lifecycle
import Argus.Topology.Groups
import Mathlib.Data.Rat.Defs

/-!
# Records of the incident store

The rows that alert ingestion reads and writes, the webhook payload, and a normalized alert. A service
stands for its row in `services`: its name is unique there and never changes, so rows refer to it by
name.
-/

namespace Argus.Incidents

/-- Nanoseconds since the epoch. -/
abbrev Time := ℤ

/-- Go's zero time, the first of January of the year 1. -/
def zeroTime : Time := -62135596800000000000

/-- A map from strings to strings. -/
abbrev Labels := List (String × String)

/-- What indexing a map returns: the empty string for a missing key. -/
def Labels.get (labels : Labels) (key : String) : String := (SortedAssoc.lookup key labels).getD ""

/-! ## The webhook -/

/-- An alert of an Alertmanager delivery. -/
structure Alert where
  status : String
  labels : Labels
  annotations : Labels
  startsAt : Time
  endsAt : Time
  fingerprint : String
  generatorURL : String
  deriving DecidableEq, Repr

/-- An Alertmanager delivery. -/
structure Webhook where
  truncatedAlerts : ℤ
  status : String
  commonLabels : Labels
  commonAnnotations : Labels
  alerts : List Alert
  deriving DecidableEq, Repr

/-- An alert with its identity, its labels and its defaults resolved. -/
structure NormalizedAlert where
  alert : Alert
  status : String
  service : String
  alertName : String
  environment : String
  severity : String
  fingerprint : String
  summary : String
  dedupeKey : String
  deriving DecidableEq, Repr

/-! ## Rows -/

structure Service where
  id : String
  name : String
  tier : String
  environment : String
  createdAt : Time
  deriving DecidableEq, Repr

deriving instance DecidableEq, Repr for Incident

/-- The text of the `status` column. -/
def Status.name : Status → String
  | detected => "detected"
  | triaged => "triaged"
  | investigating => "investigating"
  | rcaGenerated => "rca_generated"
  | remediationProposed => "remediation_proposed"
  | awaitingApproval => "awaiting_approval"
  | remediating => "remediating"
  | mitigated => "mitigated"
  | resolved => "resolved"
  | failed => "failed"
  | cancelled => "cancelled"

/-- A row of `incidents`. -/
structure IncidentRow extends Incident where
  title : String
  dedupeKey : String
  fingerprint : String
  startedAt : Time
  detectedAt : Time
  resolvedAt : Option Time
  summary : String
  createdAt : Time
  updatedAt : Time
  lastSeenAt : Time
  alertsClearedAt : Option Time
  deriving DecidableEq, Repr

inductive AlertStatus where
  | firing
  | resolved
  deriving DecidableEq, Repr

/-- A row of `incident_alerts`: the state of one alert on an incident. -/
structure AlertRow where
  incidentID : String
  dedupeKey : String
  alertName : String
  service : String
  status : AlertStatus
  firstSeenAt : Time
  lastSeenAt : Time
  resolvedAt : Option Time
  deriving DecidableEq, Repr

/-- The `topology` member of a signal's body. -/
structure Observation where
  rootService : String
  observedService : String
  rootInferred : Bool
  suppressed : Bool
  dependencyPath : List String
  deriving DecidableEq, Repr

/-- The body of a signal. -/
structure Body where
  labels : Labels
  annotations : Labels
  generator : String
  status : String
  topology : Option Observation
  endsAt : Option Time
  deriving DecidableEq, Repr

/-- A row of `signals`. -/
structure Signal where
  id : String
  incidentID : String
  service : String
  source : String
  signalType : String
  severity : String
  name : String
  body : Body
  observedAt : Time
  createdAt : Time
  /-- history: the alert that the signal records -/
  origin : NormalizedAlert
  deriving DecidableEq, Repr

inductive EventType where
  | alertReceived
  | downstreamAlertSuppressed
  | alertResolved
  | alertsCleared
  | alertsRefired
  deriving DecidableEq, Repr

def EventType.name : EventType → String
  | alertReceived => "alert_received"
  | downstreamAlertSuppressed => "downstream_alert_suppressed"
  | alertResolved => "alert_resolved"
  | alertsCleared => "alerts_cleared"
  | alertsRefired => "alerts_refired"

/-- The evidence of a timeline event. -/
inductive Evidence where
  | attached (alertName service severity environment : String) (observation : Observation)
  | resolved (alertName service dedupeKey : String) (stillFiring : ℕ)
  | cleared (lastAlert : String)
  | refired (alertName service : String)
  deriving DecidableEq, Repr

/-- A row of `incident_timeline_events`. -/
structure TimelineEvent where
  id : String
  incidentID : String
  eventType : EventType
  source : String
  summary : String
  evidence : Evidence
  confidence : ℚ
  occurredAt : Time
  createdAt : Time
  deriving DecidableEq

/-- An audit entry of the ingestion. -/
structure AuditEntry where
  actorID : String
  actorType : String
  action : String
  resourceType : String
  resourceID : String
  afterState : List (String × Json ℤ)
  metadata : List (String × Json ℤ)

/-- The tables. -/
structure Db where
  services : List Service
  dependencies : List Topology.Dependency
  incidents : List IncidentRow
  alerts : List AlertRow
  signals : List Signal
  timeline : List TimelineEvent
  audit : List AuditEntry

/-- How long incidents accept alerts. -/
structure Grouping where
  window : Time
  alertStaleAfter : Time
  deriving DecidableEq, Repr

/-- The topology of an incident, as its alert signals show it. -/
structure IncidentTopology where
  incidentID : String
  rootService : String
  rootInferred : Bool
  affectedServices : List String
  alertCount : ℕ
  suppressedAlertCount : ℕ
  paths : List Topology.Path
  deriving DecidableEq, Repr

structure IngestionStats where
  alertCount : ℕ
  incidentGroups : ℕ
  affectedServiceCount : ℕ
  observedRoots : ℕ
  inferredRoots : ℕ
  suppressedAlertCount : ℕ
  truncatedAlerts : ℤ
  resolvedAlerts : ℕ
  unmatchedResolvedAlerts : ℕ
  deriving DecidableEq, Repr

structure IngestionResult where
  incidents : List IncidentRow
  stats : IngestionStats
  deriving DecidableEq, Repr

end Argus.Incidents

import Argus.Base.Strings
import Argus.Incidents.Store

/-!
# Alert ingestion

A delivery is one transaction. It takes the ingestion lock, normalizes its alerts, applies the resolved
ones to the incidents on which they fire, groups the firing ones by environment and by dependency, and
attaches each group to an incident: the one that already carries the alert of its root, one whose root is
related to it, or a new one.
-/

namespace Argus.Incidents

open Sorting Topology

/-! ## Normalization -/

/-- `firstNonEmpty`: the first value that is not blank. -/
def firstNonEmpty (values : List String) : String :=
  (values.find? fun value => Strings.trimSpace value ≠ "").getD ""

def buildDedupeKey (service alertName environment fingerprint : String) : String :=
  service ++ ":" ++ alertName ++ ":" ++ environment ++ ":" ++ fingerprint

/-- One alert of a delivery; `startsAt` is its own start time or the time of arrival. -/
def normalize (payload : Webhook) (alert : Alert) (startsAt : Time) : NormalizedAlert :=
  let service := firstNonEmpty
    [alert.labels.get "service", payload.commonLabels.get "service", "unknown-service"]
  let alertName := firstNonEmpty
    [alert.labels.get "alertname", payload.commonLabels.get "alertname", "unknown-alert"]
  let environment := firstNonEmpty
    [alert.labels.get "environment", payload.commonLabels.get "environment", "local"]
  let fingerprint := firstNonEmpty [alert.fingerprint, alertName]
  { alert := { alert with startsAt := startsAt }
    status := Strings.toLower (firstNonEmpty [alert.status, payload.status, "firing"])
    service := service
    alertName := alertName
    environment := environment
    severity := firstNonEmpty
      [alert.labels.get "severity", payload.commonLabels.get "severity", "sev3"]
    fingerprint := fingerprint
    summary := firstNonEmpty
      [alert.annotations.get "summary", payload.commonAnnotations.get "summary", alertName]
    dedupeKey := buildDedupeKey service alertName environment fingerprint }

/-- The order in which the alerts of a delivery are treated. -/
def alertBefore (a b : NormalizedAlert) : Bool :=
  if a.alert.startsAt ≠ b.alert.startsAt then a.alert.startsAt < b.alert.startsAt
  else if a.service ≠ b.service then before a.service b.service
  else if a.alertName ≠ b.alertName then before a.alertName b.alertName
  else before a.fingerprint b.fingerprint

/-- A time of an alert, or the time of arrival where it is not set. -/
def timeOrNow (t : Time) : Statement Time := if t = zeroTime then timeNow else pure t

/-- One round of the loop of `normalizeAlerts`; the services of firing alerts are registered. -/
def normalizeAlert (payload : Webhook) (acc : List NormalizedAlert × List NormalizedAlert)
    (alert : Alert) : Statement (List NormalizedAlert × List NormalizedAlert) := do
  let startsAt ← timeOrNow alert.startsAt
  let normalized := normalize payload alert startsAt
  if normalized.status = "resolved" then
    return (acc.1, acc.2 ++ [normalized])
  else
    let _ ← ensureService normalized.service
    return (acc.1 ++ [normalized], acc.2)

/-- `normalizeAlerts`: the firing alerts and the resolved ones. -/
def normalizeAlerts (payload : Webhook) :
    Statement (List NormalizedAlert × List NormalizedAlert) := do
  let split ← payload.alerts.foldlM (normalizeAlert payload) ([], [])
  return (stableSort alertBefore split.1, stableSort alertBefore split.2)

/-! ## Resolved alerts -/

/-- The signal of a resolved notification. -/
def resolvedSignal (incidentID : String) (alert : NormalizedAlert) (resolvedAt : Time) :
    Signal where
  id := ""
  incidentID := incidentID
  service := alert.service
  source := "alertmanager"
  signalType := "alert"
  severity := alert.severity
  name := alert.alertName
  body :=
    { labels := alert.alert.labels
      annotations := alert.alert.annotations
      generator := alert.alert.generatorURL
      status := "resolved"
      topology := none
      endsAt := some resolvedAt }
  observedAt := resolvedAt
  createdAt := 0
  origin := alert

/-- The last alert of an incident resolved. -/
def clearAlerts (actor : String) (incident : IncidentRow) (alert : NormalizedAlert)
    (resolvedAt : Time) : Statement Unit := do
  markAlertsCleared incident.id
  addTimelineEvent
    { id := ""
      incidentID := incident.id
      eventType := .alertsCleared
      source := "alertmanager"
      summary := "Every alert on this incident has resolved. " ++
        "The incident stays open until an operator resolves it."
      evidence := .cleared alert.alertName
      confidence := 1
      occurredAt := resolvedAt
      createdAt := 0 }
  writeAudit
    { actorID := actor
      actorType := "system"
      action := "incident.alerts_cleared"
      resourceType := "incident"
      resourceID := incident.id
      afterState := [("status", .str incident.status.name), ("alerts_cleared", .bool true)]
      metadata := [("last_alert", .str alert.alertName), ("service", .str alert.service)] }

/-- A resolved notification for an incident on which its alert fires. -/
def resolveOn (grouping : Grouping) (actor : String) (alert : NormalizedAlert)
    (incident : IncidentRow) : Statement Unit := do
  let _ ← ensureService alert.service
  let resolvedAt ← timeOrNow alert.alert.endsAt
  addSignal (resolvedSignal incident.id alert resolvedAt)
  let remaining ← markAlertResolved incident.id alert.dedupeKey resolvedAt grouping.alertStaleAfter
  addTimelineEvent
    { id := ""
      incidentID := incident.id
      eventType := .alertResolved
      source := "alertmanager"
      summary := "Alert " ++ alert.alertName ++ " on " ++ alert.service ++ " resolved; " ++
        toString remaining ++ " alert(s) still firing"
      evidence := .resolved alert.alertName alert.service alert.dedupeKey remaining
      confidence := 1
      occurredAt := resolvedAt
      createdAt := 0 }
  if 0 < remaining then return ()
  else clearAlerts actor incident alert resolvedAt

/-- `resolveAlert`. -/
def resolveAlert (grouping : Grouping) (actor : String) (stats : IngestionStats)
    (alert : NormalizedAlert) : Statement IngestionStats := do
  match ← findIncidentForResolvedAlert alert.dedupeKey with
  | none => return { stats with unmatchedResolvedAlerts := stats.unmatchedResolvedAlerts + 1 }
  | some incident =>
    resolveOn grouping actor alert incident
    return { stats with resolvedAlerts := stats.resolvedAlerts + 1 }

/-! ## Groups -/

/-- `topologyGroupsByEnvironment`. -/
def topologyGroupsByEnvironment (graph : Graph) (alerts : List NormalizedAlert) : List Group :=
  (sortStrings (alerts.map (·.environment)).dedup).flatMap fun environment =>
    (graph.groups ((alerts.filter (·.environment == environment)).map (·.service))).map
      fun group => { group with environment := environment }

/-- `alertsForGroup`. -/
def alertsForGroup (alerts : List NormalizedAlert) (group : Group) : List NormalizedAlert :=
  alerts.filter fun a => a.environment == group.environment && group.members.contains a.service

def severityRank (severity : String) : ℕ :=
  if severity = "sev1" then 1 else if severity = "sev2" then 2 else if severity = "sev3" then 3 else 4

def highestSeverity (alerts : List NormalizedAlert) : String :=
  alerts.foldl (fun best a => if severityRank a.severity < severityRank best then a.severity else best)
    "sev4"

/-- The name of the alert that stands for an inferred root. -/
def correlatedAlert : String := "TopologyCorrelatedDependencyFailure"

/-- The alert that stands for an inferred root, made from the first alert of the group. -/
def inferredRoot (first : NormalizedAlert) (alerts : List NormalizedAlert) (root : String) :
    NormalizedAlert :=
  { first with
    service := root
    alertName := correlatedAlert
    fingerprint := "topology-" ++ root
    dedupeKey := buildDedupeKey root correlatedAlert first.environment ("topology-" ++ root)
    summary := "Correlated downstream failures point to " ++ root
    severity := highestSeverity alerts }

/-- `rootAlertForGroup`, for a group whose alerts start with `first`. -/
def rootAlertForGroup (first : NormalizedAlert) (alerts : List NormalizedAlert) (root : String) :
    NormalizedAlert :=
  (alerts.find? (·.service == root)).getD (inferredRoot first alerts root)

/-- The nearest incidents so far: one that the root depends on, and one that depends on the root. -/
structure Nearest where
  upstream : Option (IncidentRow × ℕ)
  downstream : Option (IncidentRow × ℕ)

/-- Keep the incident at the end of a path that is shorter than the one so far. -/
def nearer (incident : IncidentRow) (path : Option Path) (best : Option (IncidentRow × ℕ)) :
    Option (IncidentRow × ℕ) :=
  match path, best with
  | none, _ => best
  | some p, none => some (incident, p.services.length)
  | some p, some (_, distance) =>
    if p.services.length < distance then some (incident, p.services.length) else best

/-- The loop of `relatedOpenIncident`. -/
def relatedFrom (graph : Graph) (root environment : String) (nearest : Nearest) :
    List IncidentRow → Option (IncidentRow × Bool)
  | [] =>
    match nearest.upstream, nearest.downstream with
    | some (incident, _), _ => some (incident, false)
    | none, some (incident, _) => some (incident, true)
    | none, none => none
  | incident :: rest =>
    if incident.environment ≠ environment then relatedFrom graph root environment nearest rest
    else if incident.service = root then some (incident, false)
    else relatedFrom graph root environment
      ⟨nearer incident (graph.path root incident.service) nearest.upstream,
        nearer incident (graph.path incident.service root) nearest.downstream⟩ rest

/-- `relatedOpenIncident`: an incident whose root is related, and whether it is to be promoted. -/
def relatedOpenIncident (graph : Graph) (root environment : String) (incidents : List IncidentRow) :
    Option (IncidentRow × Bool) :=
  relatedFrom graph root environment ⟨none, none⟩ incidents

def rootTitle (group : Group) (root : NormalizedAlert) : String :=
  if group.inferred then
    "Correlated downstream failures indicate " ++ group.root ++ " dependency impact"
  else root.summary

def rootSummary (group : Group) (root : NormalizedAlert) : String :=
  if group.inferred then
    "Topology correlation grouped " ++ toString group.members.length ++
      " affected services behind inferred dependency " ++ group.root
  else root.summary

def rootDedupeKey (group : Group) (root : NormalizedAlert) : String :=
  if group.inferred then
    buildDedupeKey group.root correlatedAlert root.environment ("topology-" ++ group.root)
  else root.dedupeKey

def rootFingerprint (group : Group) (root : NormalizedAlert) : String :=
  if group.inferred then "topology-" ++ group.root else root.fingerprint

/-- The columns of an incident behind the root of a group. -/
def rootOf (group : Group) (root : NormalizedAlert) : Root where
  service := group.root
  title := rootTitle group root
  severity := root.severity
  dedupeKey := rootDedupeKey group root
  fingerprint := rootFingerprint group root
  summary := rootSummary group root
  startedAt := root.alert.startsAt

/-- How a group came by its incident. -/
inductive Origin where
  | existing
  | promoted
  | created
  deriving DecidableEq, Repr

/-- The second part of `findOrCreateTopologyIncident`: a related incident, or a new one. -/
def relateOrCreate (graph : Graph) (group : Group) (root : NormalizedAlert)
    (openIncidents : List IncidentRow) : Statement (IncidentRow × Origin) :=
  match relatedOpenIncident graph group.root group.environment openIncidents with
  | some (incident, promote) =>
    if !promote || incident.service = group.root then return (incident, .existing)
    else do
      let promoted ← promoteIncidentRoot incident.id (rootOf group root)
      return (promoted, .promoted)
  | none => do
      let created ← createAlertIncident group.environment (rootOf group root)
      return (created, .created)

/-- The first part of `findOrCreateTopologyIncident`: the incident that carries the alert of the root. -/
def exactIncident (grouping : Grouping) (group : Group) (root : NormalizedAlert) :
    Statement (Option IncidentRow) :=
  if root.service = group.root then findOpenByDedupeKey root.dedupeKey grouping else pure none

/-- `findOrCreateTopologyIncident`. -/
def findOrCreateTopologyIncident (grouping : Grouping) (graph : Graph) (group : Group)
    (root : NormalizedAlert) (openIncidents : List IncidentRow) :
    Statement (IncidentRow × Origin) := do
  match ← exactIncident grouping group root with
  | some incident => return (incident, .existing)
  | none => relateOrCreate graph group root openIncidents

/-! ## Attaching alerts -/

def topologyConfidence (inferred suppressed : Bool) : ℚ :=
  if inferred then 3 / 4 else if suppressed then 23 / 25 else 1

/-- The path that an attached alert records; without one it stands alone. -/
def observedPath (graph : Graph) (incident : IncidentRow) (alert : NormalizedAlert) : Path :=
  (graph.path alert.service incident.service).getD
    ⟨alert.service, incident.service, [alert.service]⟩

/-- What is recorded about the topology of an attached alert. -/
def observe (graph : Graph) (incident : IncidentRow) (rootInferred : Bool)
    (alert : NormalizedAlert) : Observation where
  rootService := incident.service
  observedService := alert.service
  rootInferred := rootInferred
  suppressed := alert.service ≠ incident.service
  dependencyPath := (observedPath graph incident alert).services

/-- The signal of an attached alert. -/
def attachedSignal (incidentID : String) (alert : NormalizedAlert) (observation : Observation) :
    Signal where
  id := ""
  incidentID := incidentID
  service := alert.service
  source := "alertmanager"
  signalType := "alert"
  severity := alert.severity
  name := alert.alertName
  body :=
    { labels := alert.alert.labels
      annotations := alert.alert.annotations
      generator := alert.alert.generatorURL
      status := alert.alert.status
      topology := some observation
      endsAt := none }
  observedAt := alert.alert.startsAt
  createdAt := 0
  origin := alert

/-- The timeline event of an attached alert. -/
def attachedEvent (incidentID : String) (alert : NormalizedAlert) (observation : Observation) :
    TimelineEvent where
  id := ""
  incidentID := incidentID
  eventType := if observation.suppressed then .downstreamAlertSuppressed else .alertReceived
  source := "alertmanager"
  summary :=
    if observation.suppressed then
      "Suppressed downstream alert " ++ alert.alertName ++ " on " ++ alert.service ++
        "; correlated root is " ++ observation.rootService
    else alert.summary
  evidence := .attached alert.alertName alert.service alert.severity alert.environment observation
  confidence := topologyConfidence observation.rootInferred observation.suppressed
  occurredAt := alert.alert.startsAt
  createdAt := 0

/-- The event of an alert that fires after all alerts of its incident had cleared. -/
def recordRefired (incidentID : String) (alert : NormalizedAlert) (refired : Bool) :
    Statement Unit :=
  if refired then
    addTimelineEvent
      { id := ""
        incidentID := incidentID
        eventType := .alertsRefired
        source := "alertmanager"
        summary := "Alert " ++ alert.alertName ++ " on " ++ alert.service ++
          " fired again after all alerts had cleared"
        evidence := .refired alert.alertName alert.service
        confidence := 1
        occurredAt := alert.alert.startsAt
        createdAt := 0 }
  else pure ()

/-- `attachTopologyAlert`. -/
def attachTopologyAlert (incidentID : String) (alert : NormalizedAlert)
    (observation : Observation) : Statement Unit := do
  addSignal (attachedSignal incidentID alert observation)
  let refired ← markAlertFiring incidentID alert
  recordRefired incidentID alert refired
  addTimelineEvent (attachedEvent incidentID alert observation)

/-- One alert of a group: attach it, and count and audit it when it is suppressed. -/
def ingestAlert (graph : Graph) (incident : IncidentRow) (rootInferred : Bool) (actor : String)
    (stats : IngestionStats) (alert : NormalizedAlert) : Statement IngestionStats := do
  let observation := observe graph incident rootInferred alert
  attachTopologyAlert incident.id alert observation
  if observation.suppressed then
    writeAudit
      { actorID := actor
        actorType := "system"
        action := "incident.downstream_alert_suppressed"
        resourceType := "incident"
        resourceID := incident.id
        afterState := []
        metadata :=
          [("alert_name", .str alert.alertName), ("observed_service", .str alert.service),
            ("root_service", .str incident.service),
            ("dependency_path", .arr (observation.dependencyPath.map .str))] }
    return { stats with suppressedAlertCount := stats.suppressedAlertCount + 1 }
  else return stats

/-- The audit entry of a group that created or promoted its incident. -/
def auditGroup (actor : String) (group : Group) (incident : IncidentRow) (rootInferred : Bool) :
    Origin → Statement Unit
  | .existing => pure ()
  | .promoted => writeAudit
      { actorID := actor
        actorType := "system"
        action := "incident.root_promoted"
        resourceType := "incident"
        resourceID := incident.id
        afterState := [("root_service", .str incident.service), ("root_inferred", .bool rootInferred)]
        metadata := [] }
  | .created => writeAudit
      { actorID := actor
        actorType := "system"
        action := "incident.detected"
        resourceType := "incident"
        resourceID := incident.id
        afterState :=
          [("status", .str incident.status.name), ("severity", .str incident.severity),
            ("service", .str incident.service), ("topology_root", .str incident.service),
            ("root_inferred", .bool rootInferred),
            ("affected_services", .arr (group.members.map .str))]
        metadata := [] }

/-- `appendOrReplaceIncident`. -/
def appendOrReplaceIncident (items : List IncidentRow) (incident : IncidentRow) :
    List IncidentRow :=
  match items with
  | [] => [incident]
  | item :: rest =>
    if item.id = incident.id then incident :: rest
    else item :: appendOrReplaceIncident rest incident

/-- What the loop over the groups keeps. -/
structure Progress where
  incidents : List IncidentRow
  openIncidents : List IncidentRow
  stats : IngestionStats

/-- The counts of one group. -/
def IngestionStats.countGroup (stats : IngestionStats) (group : Group) (rootInferred : Bool) :
    IngestionStats :=
  { stats with
    incidentGroups := stats.incidentGroups + 1
    affectedServiceCount := stats.affectedServiceCount + group.members.length
    inferredRoots := stats.inferredRoots + if rootInferred then 1 else 0
    observedRoots := stats.observedRoots + if rootInferred then 0 else 1 }

/-- Whether the root of a group's incident is inferred: for an incident that existed, its alert signals
tell. -/
def rootInferredOf (group : Group) (incident : IncidentRow) : Origin → Statement Bool
  | .existing => do
      let topology ← getIncidentTopology incident.id
      return topology.rootInferred
  | _ => return group.inferred

/-- One group with its alerts. -/
def ingestGroup (grouping : Grouping) (graph : Graph) (alerts : List NormalizedAlert)
    (actor : String) (progress : Progress) (group : Group) : Statement Progress :=
  match alertsForGroup alerts group with
  | [] => return progress
  | first :: rest => do
      let root := rootAlertForGroup first (first :: rest) group.root
      let (incident, origin) ←
        findOrCreateTopologyIncident grouping graph group root progress.openIncidents
      let rootInferred ← rootInferredOf group incident origin
      auditGroup actor group incident rootInferred origin
      let stats ← (first :: rest).foldlM (ingestAlert graph incident rootInferred actor)
        (progress.stats.countGroup group rootInferred)
      return ⟨progress.incidents ++ [incident],
        appendOrReplaceIncident progress.openIncidents incident, stats⟩

/-! ## A delivery -/

/-- The counts before anything is ingested. -/
def IngestionStats.start (payload : Webhook) (alerts : List NormalizedAlert) : IngestionStats :=
  ⟨alerts.length, 0, 0, 0, 0, 0, payload.truncatedAlerts, 0, 0⟩

/-- The firing alerts of a delivery. -/
def ingestFiring (grouping : Grouping) (alerts : List NormalizedAlert) (actor : String)
    (stats : IngestionStats) : Statement IngestionResult := do
  let dependencies ← listServiceDependencies
  let graph := Graph.new dependencies
  let openIncidents ← listOpenIncidents grouping
  let progress ← (topologyGroupsByEnvironment graph alerts).foldlM
    (ingestGroup grouping graph alerts actor) ⟨[], openIncidents, stats⟩
  return ⟨progress.incidents, progress.stats⟩

/-- `ingest`. -/
def ingest (grouping : Grouping) (payload : Webhook) (actor : String) :
    Statement IngestionResult := do
  let (alerts, resolved) ← normalizeAlerts payload
  let stats ← resolved.foldlM (resolveAlert grouping actor) (IngestionStats.start payload alerts)
  if alerts = [] then return ⟨[], stats⟩
  else ingestFiring grouping alerts actor stats

/-- A statement that only may fail. -/
def control (what : String) : Statement Unit := query what fun _ v => some ((), v)

/-- The transaction of `IngestAlertmanagerWithResult`. -/
def ingestTransaction (grouping : Grouping) (payload : Webhook) (actor : String) :
    Statement IngestionResult := do
  control "begin transaction"
  control "acquire topology ingestion lock"
  let result ← ingest grouping payload actor
  control "commit transaction"
  return result

/-- `IngestAlertmanagerWithResult` on a store that nobody else changes. -/
def ingestAlertmanager (grouping : Grouping) (payload : Webhook) (actor : String) (now : Time)
    (oracle : ℕ → Oracle) (db : Db) : Except String (IngestionResult × Db) :=
  match (ingestTransaction grouping payload actor).exec oracle (.start now db) with
  | .error e => .error e
  | .ok (result, v) => .ok (result, v.db)

end Argus.Incidents

import Argus.Base.Table
import Argus.Base.Transaction
import Argus.Incidents.Records

/-!
# The incident store

The statements of the store as alert ingestion uses them. Each runs inside a transaction on what the
transaction sees: the committed rows and its own writes. Beside that view it keeps the incident rows on
which it holds a lock, and as history the incidents that its statements returned. `now()` is the start of
the transaction.
-/

namespace Argus.Incidents

open Sorting Topology

/-- What a transaction sees. -/
structure View where
  now : Time
  db : Db
  /-- the incident rows that it inserted, updated or refers to -/
  locked : List String
  /-- history: the incidents that its statements returned -/
  read : List String

/-- The choices made for one statement. -/
structure Oracle where
  /-- the statement succeeds -/
  ok : Bool := true
  /-- the text of the error otherwise -/
  message : String := ""
  /-- the clock of the process -/
  clock : Time := 0
  /-- what `NewID` generates -/
  fresh : String := ""

/-- Programs of store statements; an error is its text. -/
abbrev Statement (α : Type) := Tx Oracle View String α

def View.start (now : Time) (db : Db) : View := ⟨now, db, [], []⟩

def View.withDb (v : View) (db : Db) : View := { v with db := db }

def View.lock (v : View) (incidentID : String) : View :=
  { v with locked := incidentID :: v.locked }

def View.returned (v : View) (incidents : List IncidentRow) : View :=
  { v with read := incidents.map (·.id) ++ v.read }

/-- A statement that fails with the text of the error after `what`. -/
def query {α : Type} (what : String) (f : Oracle → View → Option (α × View)) : Statement α :=
  Tx.perform fun o v =>
    match (if o.ok then f o v else none) with
    | some r => .ok r
    | none => .error (what ++ ": " ++ o.message)

/-- `time.Now()`. -/
def timeNow : Statement Time := Tx.perform fun o v => .ok (o.clock, v)

theorem runs_query {α : Type} {R : View → View → Prop} {what : String}
    {f : Oracle → View → Option (α × View)} {v v' : View} {a : α} :
    (query what f).Runs R v a v' ↔
      ∃ v₁ o, R v v₁ ∧ o.ok = true ∧ f o v₁ = some (a, v') := by
  rw [query, Tx.runs_perform]
  refine exists_congr fun v₁ => exists_congr fun o => and_congr_right fun _ => ?_
  cases o.ok with
  | false => simp
  | true =>
    simp only [if_true, true_and]
    cases f o v₁ with
    | none => simp
    | some r => simp

/-! ## Services and dependencies -/

/-- `EnsureService`. -/
def ensureService (name : String) : Statement Service := do
  match ← query "query service" fun _ v => some (v.db.services.find? (·.name == name), v) with
  | some svc => return svc
  | none =>
    query "insert service" fun o v =>
      if v.db.services.any fun s => s.id == o.fresh || s.name == name then none
      else
        let svc : Service := ⟨o.fresh, name, "tier1", "local", o.clock⟩
        some (svc, v.withDb { v.db with services := v.db.services ++ [svc] })

/-- `ListServiceDependencies`. The graph does not depend on their order. -/
def listServiceDependencies : Statement (List Dependency) :=
  query "list service dependencies" fun _ v => some (v.db.dependencies, v)

/-! ## Queries -/

/-- `activeForGrouping`: open, and with a firing alert that is not stale or with recent activity. -/
def Db.active (db : Db) (grouping : Grouping) (now : Time) (i : IncidentRow) : Bool :=
  !i.status.isClosed &&
    (db.alerts.any (fun a => a.incidentID == i.id && a.status == .firing &&
        (now - grouping.alertStaleAfter ≤ a.lastSeenAt : Bool)) ||
      (now - grouping.window ≤ i.lastSeenAt : Bool))

/-- The incident carries the alert, as its root key or as an attached alert. -/
def Db.carries (db : Db) (key : String) (i : IncidentRow) : Bool :=
  i.dedupeKey == key || db.alerts.any fun a => a.incidentID == i.id && a.dedupeKey == key

/-- `ORDER BY last_seen_at DESC, id`. -/
def recentFirst (i j : IncidentRow) : Bool :=
  j.lastSeenAt < i.lastSeenAt || (i.lastSeenAt = j.lastSeenAt && before i.id j.id)

/-- `ORDER BY started_at ASC, id ASC`. -/
def oldestFirst (i j : IncidentRow) : Bool :=
  i.startedAt < j.startedAt || (i.startedAt = j.startedAt && before i.id j.id)

/-- `FindOpenByDedupeKey`. -/
def findOpenByDedupeKey (key : String) (grouping : Grouping) : Statement (Option IncidentRow) :=
  query "find incident by dedupe key" fun _ v =>
    let found := (stableSort recentFirst (v.db.incidents.filter fun i =>
      v.db.active grouping v.now i && v.db.carries key i)).head?
    some (found, v.returned found.toList)

/-- `ListOpenIncidents`. -/
def listOpenIncidents (grouping : Grouping) : Statement (List IncidentRow) :=
  query "list open incidents" fun _ v =>
    let found := stableSort oldestFirst (v.db.incidents.filter (v.db.active grouping v.now))
    some (found, v.returned found)

/-- `FindIncidentForResolvedAlert`. -/
def findIncidentForResolvedAlert (key : String) : Statement (Option IncidentRow) :=
  query "find incident for resolved alert" fun _ v =>
    let found := (stableSort recentFirst (v.db.incidents.filter fun i =>
      !i.status.isClosed && v.db.alerts.any fun a =>
        a.incidentID == i.id && a.dedupeKey == key && a.status == .firing)).head?
    some (found, v.returned found.toList)

/-- `GetIncident`. -/
def getIncident (id : String) : Statement IncidentRow :=
  query "get incident" fun _ v => (v.db.incidents.find? (·.id == id)).map fun i => (i, v)

/-- What `GetIncidentTopology` computes from the services of the alert signals. -/
def topologyOf (graph : Graph) (incident : IncidentRow) (observed : List String) :
    IncidentTopology :=
  let affected := sortStrings ((incident.service :: observed).dedup.filter (· ≠ ""))
  { incidentID := incident.id
    rootService := incident.service
    rootInferred := !observed.isEmpty && !observed.contains incident.service
    affectedServices := affected
    alertCount := observed.length
    suppressedAlertCount := (observed.filter (· ≠ incident.service)).length
    paths := (affected.filter (· ≠ incident.service)).filterMap
      fun s => graph.path s incident.service }

/-- The services of an incident's alert signals. -/
def Db.observed (db : Db) (incidentID : String) : List String :=
  (db.signals.filter fun s => s.incidentID == incidentID && s.signalType == "alert").map (·.service)

/-- `GetIncidentTopology`. -/
def getIncidentTopology (id : String) : Statement IncidentTopology := do
  let incident ← getIncident id
  let observed ← query "read topology signals" fun _ v => some (v.db.observed id, v)
  let dependencies ← listServiceDependencies
  return topologyOf (Graph.new dependencies) incident observed

/-! ## Writes -/

/-- The update of the incident with an id. -/
def Db.updateIncident (db : Db) (id : String) (f : IncidentRow → IncidentRow) : Db :=
  { db with incidents := Table.updateIf (fun i => i.id = id) f db.incidents }

def Db.hasIncident (db : Db) (id : String) : Bool := db.incidents.any (·.id == id)

/-- The row of an alert that fires for the first time on an incident. -/
def newAlertRow (now : Time) (incidentID : String) (alert : NormalizedAlert) : AlertRow :=
  ⟨incidentID, alert.dedupeKey, alert.alertName, alert.service, .firing, alert.alert.startsAt, now,
    none⟩

/-- The upsert of `MarkAlertFiring`. -/
def fireRows (now : Time) (incidentID : String) (alert : NormalizedAlert) (rows : List AlertRow) :
    List AlertRow :=
  if rows.any fun a => a.incidentID == incidentID && a.dedupeKey == alert.dedupeKey then
    Table.updateIf (fun a => a.incidentID = incidentID ∧ a.dedupeKey = alert.dedupeKey)
      (fun a => { a with status := .firing, lastSeenAt := now, resolvedAt := none }) rows
  else rows ++ [newAlertRow now incidentID alert]

/-- `MarkAlertFiring`: whether the alerts of the incident had all cleared before. -/
def markAlertFiring (incidentID : String) (alert : NormalizedAlert) : Statement Bool := do
  query "record firing alert" fun _ v =>
    if v.db.hasIncident incidentID then
      some ((), (v.withDb { v.db with
        alerts := fireRows v.now incidentID alert v.db.alerts }).lock incidentID)
    else none
  query "touch incident" fun _ v =>
    (v.db.incidents.find? (·.id == incidentID)).map fun i =>
      (i.alertsClearedAt.isSome, (v.withDb (v.db.updateIncident incidentID fun i =>
        { i with lastSeenAt := v.now, alertsClearedAt := none })).lock incidentID)

/-- The first update of `MarkAlertResolved`. -/
def resolveRows (now : Time) (incidentID key : String) (resolvedAt : Time) (rows : List AlertRow) :
    List AlertRow :=
  Table.updateIf (fun a => a.incidentID = incidentID ∧ a.dedupeKey = key)
    (fun a => { a with status := .resolved, resolvedAt := some resolvedAt, lastSeenAt := now }) rows

/-- The alerts that still fire on an incident. -/
def Db.stillFiring (db : Db) (now : Time) (incidentID : String) (staleAfter : Time) : ℕ :=
  (db.alerts.filter fun a => a.incidentID == incidentID && a.status == .firing &&
    (now - staleAfter ≤ a.lastSeenAt : Bool)).length

/-- `MarkAlertResolved`: how many alerts still fire on the incident. -/
def markAlertResolved (incidentID key : String) (resolvedAt staleAfter : Time) : Statement ℕ := do
  query "record resolved alert" fun _ v =>
    some ((), v.withDb { v.db with
      alerts := resolveRows v.now incidentID key resolvedAt v.db.alerts })
  query "touch incident" fun _ v =>
    some ((), (v.withDb (v.db.updateIncident incidentID fun i =>
      { i with lastSeenAt := v.now })).lock incidentID)
  query "count firing alerts" fun _ v =>
    some (v.db.stillFiring v.now incidentID staleAfter, v)

/-- `MarkAlertsCleared`. -/
def markAlertsCleared (incidentID : String) : Statement Unit :=
  query "mark alerts cleared" fun _ v =>
    some ((), (v.withDb (v.db.updateIncident incidentID fun i =>
      if i.alertsClearedAt.isNone then { i with alertsClearedAt := some v.now } else i)).lock
        incidentID)

def defaultSeverity (value : String) : String :=
  if value ∈ ["sev1", "sev2", "sev3", "sev4"] then value else "sev3"

/-- The columns that promotion to a new root sets. -/
structure Root where
  service : String
  title : String
  severity : String
  dedupeKey : String
  fingerprint : String
  summary : String
  startedAt : Time
  deriving DecidableEq, Repr

/-- The update of `PromoteIncidentRoot`. -/
def IncidentRow.promote (now : Time) (root : Root) (i : IncidentRow) : IncidentRow :=
  { i with
    service := root.service
    title := root.title
    severity := defaultSeverity root.severity
    dedupeKey := root.dedupeKey
    fingerprint := root.fingerprint
    summary := root.summary
    startedAt := min i.startedAt root.startedAt
    updatedAt := now }

/-- `PromoteIncidentRoot`. -/
def promoteIncidentRoot (incidentID : String) (root : Root) : Statement IncidentRow := do
  let service ← ensureService root.service
  query "promote incident root" fun _ v =>
    some ((), (v.withDb (v.db.updateIncident incidentID
      (IncidentRow.promote v.now { root with service := service.name }))).lock incidentID)
  getIncident incidentID

/-- A new incident. -/
def newIncident (id : String) (now : Time) (environment : String) (root : Root) : IncidentRow where
  id := id
  severity := defaultSeverity root.severity
  service := root.service
  environment := environment
  status := .detected
  title := root.title
  dedupeKey := root.dedupeKey
  fingerprint := root.fingerprint
  startedAt := root.startedAt
  detectedAt := now
  resolvedAt := none
  summary := root.summary
  createdAt := now
  updatedAt := now
  lastSeenAt := now
  alertsClearedAt := none

/-- `CreateAlertIncident`. -/
def createAlertIncident (environment : String) (root : Root) : Statement IncidentRow := do
  let service ← ensureService root.service
  let now ← timeNow
  query "insert alert incident" fun o v =>
    if v.db.hasIncident o.fresh then none
    else
      let incident := newIncident o.fresh now environment { root with service := service.name }
      some (incident, ((v.withDb { v.db with incidents := v.db.incidents ++ [incident] }).lock
        o.fresh).returned [incident])

/-- `AddSignal`; its identifier and its creation time are set here. -/
def addSignal (signal : Signal) : Statement Unit :=
  query "insert signal" fun o v =>
    if v.db.hasIncident signal.incidentID && !v.db.signals.any (·.id == o.fresh) then
      let row := { signal with id := o.fresh, createdAt := o.clock }
      some ((), (v.withDb { v.db with signals := v.db.signals ++ [row] }).lock signal.incidentID)
    else none

/-- `AddTimelineEvent`; its identifier and its creation time are set here. -/
def addTimelineEvent (event : TimelineEvent) : Statement Unit :=
  query "insert timeline event" fun o v =>
    if v.db.hasIncident event.incidentID && !v.db.timeline.any (·.id == o.fresh) then
      let row := { event with id := o.fresh, createdAt := o.clock }
      some ((), (v.withDb { v.db with timeline := v.db.timeline ++ [row] }).lock event.incidentID)
    else none

/-- `writeAudit`. -/
def writeAudit (entry : AuditEntry) : Statement Unit :=
  query ("audit " ++ entry.action) fun _ v =>
    some ((), v.withDb { v.db with audit := v.db.audit ++ [entry] })

/-! ## Operators -/

/-- What a transition sets. -/
def IncidentRow.moveTo (now : Time) (status : Status) (i : IncidentRow) : IncidentRow :=
  { i with
    status := status
    updatedAt := now
    resolvedAt := if status = .resolved then some now else i.resolvedAt }

/-- `TransitionIncident`. -/
def Db.transitionIncident (db : Db) (now : Time) (id : String) (status : Status) : Db :=
  { db with
    incidents := Table.updateIf (fun i => i.id = id ∧ i.status.canTransition status = true)
      (IncidentRow.moveTo now status) db.incidents }

/-- The other services see the same transition. -/
theorem toIncident_transitionIncident (db : Db) (now : Time) (id : String) (status : Status) :
    (db.transitionIncident now id status).incidents.map (·.toIncident) =
      transitionIncident id status (db.incidents.map (·.toIncident)) := by
  simp only [Db.transitionIncident, Table.updateIf, transitionIncident, List.map_map]
  refine List.map_congr_left fun i _ => ?_
  simp only [Function.comp_apply]
  split <;> rfl

end Argus.Incidents

import Argus.Incidents.Ingest

/-!
# What the functions of the ingestion do

One lemma for each function, about a transaction that nobody interferes with: from the state it finds to
the state it leaves. `SameRows` is a step that writes no incident, alert, signal or timeline row;
`Attached` and `Resolved` say what is written for one alert, and `Found` how a group comes by its
incident.
-/

namespace Argus.Incidents

open Sorting Topology

variable {v v' : View}

variable {α : Type}
variable {entry : AuditEntry} {promote refired : Bool} {i : IncidentRow} {r : IncidentRow × Origin}
  {incidents : List IncidentRow} {nearest : Nearest} {observation : Observation}
  {best : Option (IncidentRow × ℕ)} {found : Option IncidentRow} {path : Option Path}
  {progress progress' : Progress} {id what : String} {resolvedAt staleAfter t : Time} {v'' : View}

theorem runs_query_alone {f : Oracle → View → Option (α × View)} {a : α} :
    (query what f).Runs Eq v a v' ↔ ∃ o, o.ok = true ∧ f o v = some (a, v') := by
  rw [runs_query]
  constructor
  · rintro ⟨_, o, rfl, hok, hf⟩
    exact ⟨o, hok, hf⟩
  · rintro ⟨o, hok, hf⟩
    exact ⟨v, o, rfl, hok, hf⟩

/-- A statement that does not look at its parameters. -/
theorem runs_query_some {f : Oracle → View → α × View} {a : α}
    (h : (query what fun o v => some (f o v)).Runs Eq v a v') :
    ∃ o, a = (f o v).1 ∧ v' = (f o v).2 := by
  obtain ⟨o, -, hact⟩ := runs_query_alone.mp h
  have hpair : (a, v') = f o v := (Option.some.inj hact).symm
  exact ⟨o, congrArg Prod.fst hpair, congrArg Prod.snd hpair⟩

theorem runs_timeNow_alone (h : timeNow.Runs Eq v t v') : v' = v := by
  obtain ⟨_, o, rfl, hact⟩ := Tx.runs_perform.mp h
  cases hact
  rfl

/-- `alerts_cleared_at` of an incident. -/
def Db.clearedAt (db : Db) (id : String) : Option Time :=
  (db.incidents.find? (·.id == id)).bind (·.alertsClearedAt)

theorem Db.ne_of_hasIncident {db : Db} (h : db.hasIncident id = false) (hi : i ∈ db.incidents) :
    i.id ≠ id := by
  rintro rfl
  have hknown : db.hasIncident i.id = true := List.any_eq_true.mpr ⟨i, hi, beq_self_eq_true i.id⟩
  rw [h] at hknown
  cases hknown

theorem id_eq_of_find? {rows : List IncidentRow} (h : rows.find? (·.id == id) = some i) :
    i.id = id := by
  simpa using List.find?_some h

/-! ## Steps that write no rows of incidents -/

/-- What is written to the audit log is not about cleared alerts. -/
def Quiet (v w : View) : Prop :=
  ∃ entries, w.db.audit = v.db.audit ++ entries ∧
    ∀ e ∈ entries, e.action ≠ "incident.alerts_cleared"

namespace Quiet

theorem of_eq (h : v'.db.audit = v.db.audit) : Quiet v v' :=
  ⟨[], by rw [h, List.append_nil], by simp⟩

theorem trans (h : Quiet v v') (h' : Quiet v' v'') : Quiet v v'' := by
  obtain ⟨entries, haudit, hentries⟩ := h
  obtain ⟨entries', haudit', hentries'⟩ := h'
  refine ⟨entries ++ entries', by rw [haudit', haudit, List.append_assoc], fun e he => ?_⟩
  rcases List.mem_append.mp he with he | he
  · exact hentries e he
  · exact hentries' e he

end Quiet

/-- The rows of alerts, signals, timeline and dependencies are as they were. -/
structure SameOthers (v v' : View) : Prop where
  now : v'.now = v.now
  dependencies : v'.db.dependencies = v.db.dependencies
  alerts : v'.db.alerts = v.db.alerts
  signals : v'.db.signals = v.db.signals
  timeline : v'.db.timeline = v.db.timeline
  quiet : Quiet v v'

theorem SameOthers.trans (h : SameOthers v v') (h' : SameOthers v' v'') : SameOthers v v'' :=
  ⟨h'.now.trans h.now, h'.dependencies.trans h.dependencies, h'.alerts.trans h.alerts,
    h'.signals.trans h.signals, h'.timeline.trans h.timeline, h.quiet.trans h'.quiet⟩

/-- The rows of incidents, too, are as they were. -/
structure SameRows (v v' : View) : Prop extends SameOthers v v' where
  incidents : v'.db.incidents = v.db.incidents

namespace SameRows

theorem of_db (hdb : v'.db = v.db) (hnow : v'.now = v.now) : SameRows v v' := by
  refine ⟨⟨hnow, ?_, ?_, ?_, ?_, .of_eq ?_⟩, ?_⟩ <;> rw [hdb]

theorem refl (v : View) : SameRows v v := of_db rfl rfl

theorem trans (h : SameRows v v') (h' : SameRows v' v'') : SameRows v v'' :=
  ⟨h.toSameOthers.trans h'.toSameOthers, h'.incidents.trans h.incidents⟩

end SameRows

theorem ensureService_runs {name : String} {svc : Service}
    (h : (ensureService name).Runs Eq v svc v') :
    svc.name = name ∧ v'.db.audit = v.db.audit ∧ SameRows v v' := by
  obtain ⟨found, v₁, hfound, hrest⟩ := Tx.runs_bind.mp h
  obtain ⟨o, rfl, rfl⟩ := runs_query_some hfound
  split at hrest
  · rename_i row hrow
    obtain ⟨rfl, rfl⟩ := Tx.runs_pure.mp hrest
    exact ⟨by simpa using List.find?_some hrow, rfl, .refl _⟩
  · obtain ⟨o', -, hact'⟩ := runs_query_alone.mp hrest
    split at hact'
    · cases hact'
    · cases hact'
      exact ⟨rfl, rfl, ⟨rfl, rfl, rfl, rfl, rfl, .of_eq rfl⟩, rfl⟩

theorem writeAudit_runs (h : (writeAudit entry).Runs Eq v () v') :
    v'.now = v.now ∧ v'.db = { v.db with audit := v.db.audit ++ [entry] } := by
  obtain ⟨o, -, rfl⟩ := runs_query_some h
  exact ⟨rfl, rfl⟩

theorem sameRows_writeAudit (hentry : entry.action ≠ "incident.alerts_cleared")
    (h : (writeAudit entry).Runs Eq v () v') : SameRows v v' := by
  obtain ⟨hnow, hdb⟩ := writeAudit_runs h
  refine ⟨⟨hnow, ?_, ?_, ?_, ?_, [entry], ?_, List.forall_mem_singleton.mpr hentry⟩, ?_⟩ <;>
    rw [hdb]

theorem control_runs (h : (control what).Runs Eq v () v') : v' = v := by
  obtain ⟨o, -, hview⟩ := runs_query_some h
  exact hview

theorem listServiceDependencies_runs {dependencies : List Dependency}
    (h : listServiceDependencies.Runs Eq v dependencies v') :
    dependencies = v.db.dependencies ∧ v' = v := by
  obtain ⟨o, hdeps, hview⟩ := runs_query_some h
  exact ⟨hdeps, hview⟩

variable {i : IncidentRow}

theorem getIncident_runs (h : (getIncident id).Runs Eq v i v') :
    v.db.incidents.find? (·.id == id) = some i ∧ v' = v := by
  obtain ⟨o, -, hact⟩ := runs_query_alone.mp h
  obtain ⟨j, hj, hpair⟩ := Option.map_eq_some_iff.mp hact
  obtain ⟨rfl, rfl⟩ := Prod.mk.inj hpair
  exact ⟨hj, rfl⟩

/-- `GetIncidentTopology` reads the incident, its alert signals and the dependencies. -/
theorem getIncidentTopology_runs {topology : IncidentTopology}
    (h : (getIncidentTopology id).Runs Eq v topology v') :
    v' = v ∧ ∃ i, v.db.incidents.find? (·.id == id) = some i ∧
      topology = topologyOf (Graph.new v.db.dependencies) i (v.db.observed id) := by
  obtain ⟨i, v₁, hi, h₁⟩ := Tx.runs_bind.mp h
  obtain ⟨observed, v₂, hobserved, h₂⟩ := Tx.runs_bind.mp h₁
  obtain ⟨dependencies, v₃, hdeps, h₃⟩ := Tx.runs_bind.mp h₂
  obtain ⟨hfind, rfl⟩ := getIncident_runs hi
  obtain ⟨o, rfl, rfl⟩ := runs_query_some hobserved
  obtain ⟨rfl, rfl⟩ := listServiceDependencies_runs hdeps
  obtain ⟨rfl, rfl⟩ := Tx.runs_pure.mp h₃
  exact ⟨rfl, i, hfind, rfl⟩

/-! ## The queries for an incident -/

theorem mem_of_head?_stableSort {less : α → α → Bool} {l : List α} {a : α}
    (h : (stableSort less l).head? = some a) : a ∈ l :=
  mem_stableSort.mp (List.mem_of_head? h)

theorem eq_nil_of_head?_stableSort {less : α → α → Bool} {l : List α}
    (h : (stableSort less l).head? = none) : l = [] := by
  have hnil : stableSort less l = [] := List.head?_eq_none_iff.mp h
  rw [← List.length_eq_zero_iff, ← length_stableSort less, hnil]
  rfl

variable {grouping : Grouping} {key : String}

theorem findOpenByDedupeKey_runs (h : (findOpenByDedupeKey key grouping).Runs Eq v found v') :
    SameRows v v' ∧
      (∀ i, found = some i →
        i ∈ v.db.incidents ∧ v.db.active grouping v.now i = true ∧ v.db.carries key i = true) ∧
      (found = none → ∀ i ∈ v.db.incidents,
        v.db.active grouping v.now i = true → v.db.carries key i = false) := by
  obtain ⟨o, hfound, rfl⟩ := runs_query_some h
  refine ⟨.of_db rfl rfl, fun i hi => ?_, fun hnone i hi hactive => ?_⟩
  · have hmem := mem_of_head?_stableSort (hfound.symm.trans hi)
    simpa [List.mem_filter] using hmem
  · have hnil := eq_nil_of_head?_stableSort (hfound.symm.trans hnone)
    have hnot := List.filter_eq_nil_iff.mp hnil i hi
    simpa [hactive] using hnot

theorem listOpenIncidents_runs {found : List IncidentRow}
    (h : (listOpenIncidents grouping).Runs Eq v found v') :
    SameRows v v' ∧ found.Perm (v.db.incidents.filter (v.db.active grouping v.now)) := by
  obtain ⟨o, rfl, rfl⟩ := runs_query_some h
  exact ⟨.of_db rfl rfl, stableSort_perm _ _⟩

/-- The alert fires on the incident. -/
def Db.FiresOn (db : Db) (key incidentID : String) : Prop :=
  ∃ a ∈ db.alerts, a.incidentID = incidentID ∧ a.dedupeKey = key ∧ a.status = .firing

instance (db : Db) (key incidentID : String) : Decidable (db.FiresOn key incidentID) :=
  inferInstanceAs (Decidable (∃ a ∈ db.alerts, _))

theorem findIncidentForResolvedAlert_runs
    (h : (findIncidentForResolvedAlert key).Runs Eq v found v') :
    v'.db = v.db ∧ v'.now = v.now ∧
      (∀ i, found = some i →
        i ∈ v.db.incidents ∧ i.status.isClosed = false ∧ v.db.FiresOn key i.id) ∧
      (found = none → ∀ i ∈ v.db.incidents, i.status.isClosed = false →
        ¬ v.db.FiresOn key i.id) := by
  obtain ⟨o, hfound, rfl⟩ := runs_query_some h
  refine ⟨rfl, rfl, fun i hi => ?_, fun hnone i hi hopen => ?_⟩
  · have hmem := mem_of_head?_stableSort (hfound.symm.trans hi)
    simpa [List.mem_filter, Db.FiresOn, and_assoc] using hmem
  · have hnil := eq_nil_of_head?_stableSort (hfound.symm.trans hnone)
    have hnot := List.filter_eq_nil_iff.mp hnil i hi
    simpa [hopen, Db.FiresOn, and_assoc] using hnot

/-! ## Normalization -/

/-- The normalized alert of an alert that starts at its own time, or at some time if it has none. -/
def NormalizedFrom (payload : Webhook) (alert : Alert) (normalized : NormalizedAlert) : Prop :=
  ∃ startsAt, normalized = normalize payload alert startsAt ∧
    (alert.startsAt ≠ zeroTime → startsAt = alert.startsAt)

/-- The status that decides whether an alert fires. -/
def isResolved (payload : Webhook) (alert : Alert) : Bool :=
  Strings.toLower (firstNonEmpty [alert.status, payload.status, "firing"]) == "resolved"

variable {payload : Webhook}

theorem NormalizedFrom.status_iff {alert : Alert} {a : NormalizedAlert}
    (h : NormalizedFrom payload alert a) :
    a.status = "resolved" ↔ isResolved payload alert = true := by
  obtain ⟨t, rfl, -⟩ := h
  simp [normalize, isResolved]

theorem timeOrNow_runs {t' : Time} (h : (timeOrNow t).Runs Eq v t' v') :
    v' = v ∧ (t ≠ zeroTime → t' = t) := by
  unfold timeOrNow at h
  split at h
  · rename_i hzero
    exact ⟨runs_timeNow_alone h, fun hne => absurd hzero hne⟩
  · obtain ⟨rfl, rfl⟩ := Tx.runs_pure.mp h
    exact ⟨rfl, fun _ => rfl⟩

theorem normalizeAlert_runs {acc acc' : List NormalizedAlert × List NormalizedAlert} {alert : Alert}
    (h : (normalizeAlert payload acc alert).Runs Eq v acc' v') :
    SameRows v v' ∧ ∃ a, NormalizedFrom payload alert a ∧
      acc' = if isResolved payload alert then (acc.1, acc.2 ++ [a]) else (acc.1 ++ [a], acc.2) := by
  obtain ⟨t, v₁, ht, h₁⟩ := Tx.runs_bind.mp h
  obtain ⟨rfl, hstart⟩ := timeOrNow_runs ht
  have hfrom : NormalizedFrom payload alert (normalize payload alert t) := ⟨t, rfl, hstart⟩
  dsimp only at h₁
  split at h₁
  · rename_i hstatus
    obtain ⟨rfl, rfl⟩ := Tx.runs_pure.mp h₁
    refine ⟨.refl _, _, hfrom, ?_⟩
    rw [if_pos (hfrom.status_iff.mp hstatus)]
  · rename_i hstatus
    obtain ⟨svc, v₂, hsvc, h₂⟩ := Tx.runs_bind.mp h₁
    obtain ⟨rfl, rfl⟩ := Tx.runs_pure.mp h₂
    refine ⟨(ensureService_runs hsvc).2.2, _, hfrom, ?_⟩
    rw [if_neg fun hres => hstatus (hfrom.status_iff.mpr hres)]

/-- The firing and the resolved alerts of a delivery, each once. -/
structure Splits (payload : Webhook) (alerts resolved : List NormalizedAlert) : Prop where
  firing : ∃ l, List.Forall₂ (NormalizedFrom payload)
    (payload.alerts.filter fun a => !isResolved payload a) l ∧ alerts.Perm l
  resolving : ∃ l, List.Forall₂ (NormalizedFrom payload)
    (payload.alerts.filter fun a => isResolved payload a) l ∧ resolved.Perm l

theorem normalizeAlerts_runs {split : List NormalizedAlert × List NormalizedAlert}
    (h : (normalizeAlerts payload).Runs Eq v split v') :
    SameRows v v' ∧ Splits payload split.1 split.2 := by
  obtain ⟨acc, v₁, hloop, h₁⟩ := Tx.runs_bind.mp h
  obtain ⟨rfl, rfl⟩ := Tx.runs_pure.mp h₁
  -- each alert treated so far stands at the end of its list
  have hinv := Tx.Runs.foldlM (I := fun done acc v₂ => SameRows v v₂ ∧
      List.Forall₂ (NormalizedFrom payload) (done.filter fun a => !isResolved payload a) acc.1 ∧
      List.Forall₂ (NormalizedFrom payload) (done.filter (isResolved payload)) acc.2)
    (fun done alert rest acc acc' s s' _ hI hrun => by
      obtain ⟨hsame, hfiring, hresolved⟩ := hI
      obtain ⟨hstep, a, hfrom, hacc⟩ := normalizeAlert_runs hrun
      refine ⟨hsame.trans hstep, ?_⟩
      rw [List.filter_append, List.filter_append, hacc]
      cases hres : isResolved payload alert with
      | true =>
        simp only [List.filter_cons, hres, Bool.not_true, List.filter_nil, if_true,
          Bool.false_eq_true, if_false, List.append_nil]
        exact ⟨hfiring, List.rel_append hresolved (.cons hfrom .nil)⟩
      | false =>
        simp only [List.filter_cons, hres, Bool.not_false, List.filter_nil, if_true,
          Bool.false_eq_true, if_false, List.append_nil]
        exact ⟨List.rel_append hfiring (.cons hfrom .nil), hresolved⟩)
    (List.nil_append _) hloop ⟨.refl _, .nil, .nil⟩
  exact ⟨hinv.1, ⟨acc.1, hinv.2.1, stableSort_perm _ _⟩, ⟨acc.2, hinv.2.2, stableSort_perm _ _⟩⟩

/-! ## Single writes -/

/-- The incident with an id was active at `now`; nothing else about it changes. -/
def touchRows (now : Time) (id : String) (cleared : IncidentRow → Option Time)
    (rows : List IncidentRow) : List IncidentRow :=
  Table.updateIf (fun i => i.id = id)
    (fun i => { i with lastSeenAt := now, alertsClearedAt := cleared i }) rows

theorem addSignal_runs {signal : Signal} (h : (addSignal signal).Runs Eq v () v') :
    v'.now = v.now ∧ v.db.hasIncident signal.incidentID = true ∧ ∃ id at_, v'.db =
      { v.db with signals := v.db.signals ++ [{ signal with id := id, createdAt := at_ }] } := by
  obtain ⟨o, -, hact⟩ := runs_query_alone.mp h
  split at hact
  · rename_i hok
    cases hact
    exact ⟨rfl, (Bool.and_eq_true_iff.mp hok).1, o.fresh, o.clock, rfl⟩
  · cases hact

theorem addTimelineEvent_runs {event : TimelineEvent}
    (h : (addTimelineEvent event).Runs Eq v () v') :
    v'.now = v.now ∧ ∃ id at_, v'.db =
      { v.db with timeline := v.db.timeline ++ [{ event with id := id, createdAt := at_ }] } := by
  obtain ⟨o, -, hact⟩ := runs_query_alone.mp h
  split at hact
  · cases hact
    exact ⟨rfl, o.fresh, o.clock, rfl⟩
  · cases hact

variable {alert : NormalizedAlert} {incidentID : String}

/-- Whether the alerts had cleared is read before the flag is reset. -/
theorem markAlertFiring_runs (h : (markAlertFiring incidentID alert).Runs Eq v refired v') :
    v'.now = v.now ∧ refired = (v.db.clearedAt incidentID).isSome ∧ v'.db =
      { v.db with
        alerts := fireRows v.now incidentID alert v.db.alerts
        incidents := touchRows v.now incidentID (fun _ => none) v.db.incidents } := by
  obtain ⟨_, v₁, hfire, htouch⟩ := Tx.runs_bind.mp h
  obtain ⟨o, -, hact⟩ := runs_query_alone.mp hfire
  split at hact
  · cases hact
    obtain ⟨o', -, hact'⟩ := runs_query_alone.mp htouch
    obtain ⟨i, hi, hpair⟩ := Option.map_eq_some_iff.mp hact'
    obtain ⟨hrefired, rfl⟩ := Prod.mk.inj hpair
    have hfind : v.db.incidents.find? (·.id == incidentID) = some i := hi
    exact ⟨rfl, by rw [Db.clearedAt, hfind, Option.bind_some, hrefired], rfl⟩
  · cases hact

theorem markAlertResolved_runs {remaining : ℕ}
    (h : (markAlertResolved incidentID key resolvedAt staleAfter).Runs Eq v remaining v') :
    v'.now = v.now ∧ remaining = v'.db.stillFiring v.now incidentID staleAfter ∧ v'.db =
      { v.db with
        alerts := resolveRows v.now incidentID key resolvedAt v.db.alerts
        incidents := touchRows v.now incidentID (·.alertsClearedAt) v.db.incidents } := by
  obtain ⟨_, v₁, hresolve, h₁⟩ := Tx.runs_bind.mp h
  obtain ⟨_, v₂, htouch, hcount⟩ := Tx.runs_bind.mp h₁
  obtain ⟨o, -, rfl⟩ := runs_query_some hresolve
  obtain ⟨o', -, rfl⟩ := runs_query_some htouch
  obtain ⟨o'', rfl, rfl⟩ := runs_query_some hcount
  exact ⟨rfl, rfl, rfl⟩

theorem markAlertsCleared_runs (h : (markAlertsCleared incidentID).Runs Eq v () v') :
    v'.now = v.now ∧ v'.db = v.db.updateIncident incidentID fun i =>
      if i.alertsClearedAt.isNone then { i with alertsClearedAt := some v.now } else i := by
  obtain ⟨o, -, rfl⟩ := runs_query_some h
  exact ⟨rfl, rfl⟩

/-! ## One alert -/

/-- The event of an alert that fires after the alerts of its incident had cleared. -/
def RefiredEvents (cleared : Bool) (id : String) (refired : List TimelineEvent) : Prop :=
  if cleared then
    ∃ e : TimelineEvent, refired = [e] ∧ e.eventType = .alertsRefired ∧ e.incidentID = id
  else refired = []

theorem RefiredEvents.forall_mem {cleared : Bool} {refired : List TimelineEvent}
    (h : RefiredEvents cleared id refired) :
    ∀ e ∈ refired, e.eventType = .alertsRefired ∧ e.incidentID = id := by
  unfold RefiredEvents at h
  split at h
  · obtain ⟨e, rfl, hevent⟩ := h
    exact List.forall_mem_singleton.mpr hevent
  · simp [h]

/-- What is written when a firing alert is attached to an incident. -/
structure Attached (v v' : View) (incidentID : String) (alert : NormalizedAlert)
    (observation : Observation) : Prop where
  now : v'.now = v.now
  dependencies : v'.db.dependencies = v.db.dependencies
  known : v.db.hasIncident incidentID = true
  incidents : v'.db.incidents = touchRows v.now incidentID (fun _ => none) v.db.incidents
  alerts : v'.db.alerts = fireRows v.now incidentID alert v.db.alerts
  signals : ∃ id at_, v'.db.signals = v.db.signals ++
    [{ attachedSignal incidentID alert observation with id := id, createdAt := at_ }]
  timeline : ∃ refired id at_, v'.db.timeline = v.db.timeline ++ (refired ++
      [{ attachedEvent incidentID alert observation with id := id, createdAt := at_ }]) ∧
    RefiredEvents (v.db.clearedAt incidentID).isSome incidentID refired
  quiet : Quiet v v'

theorem recordRefired_runs (h : (recordRefired incidentID alert refired).Runs Eq v () v') :
    v'.now = v.now ∧ ∃ events, v'.db = { v.db with timeline := v.db.timeline ++ events } ∧
      RefiredEvents refired incidentID events := by
  cases refired with
  | true =>
    obtain ⟨hnow, id, at_, hdb⟩ := addTimelineEvent_runs h
    exact ⟨hnow, _, hdb, _, rfl, rfl, rfl⟩
  | false =>
    obtain ⟨-, rfl⟩ := Tx.runs_pure.mp h
    exact ⟨rfl, [], by rw [List.append_nil], rfl⟩

theorem attachTopologyAlert_runs
    (h : (attachTopologyAlert incidentID alert observation).Runs Eq v () v') :
    Attached v v' incidentID alert observation := by
  obtain ⟨_, v₁, hsignal, h₁⟩ := Tx.runs_bind.mp h
  obtain ⟨refired, v₂, hfire, h₂⟩ := Tx.runs_bind.mp h₁
  obtain ⟨_, v₃, hrefired, hevent⟩ := Tx.runs_bind.mp h₂
  obtain ⟨hnow₁, hknown, id₁, at₁, hdb₁⟩ := addSignal_runs hsignal
  obtain ⟨hnow₂, hcleared, hdb₂⟩ := markAlertFiring_runs hfire
  obtain ⟨hnow₃, events, hdb₃, hevents⟩ := recordRefired_runs hrefired
  obtain ⟨hnow₄, id₄, at₄, hdb₄⟩ := addTimelineEvent_runs hevent
  have hdb : v'.db =
      { v.db with
        incidents := touchRows v.now incidentID (fun _ => none) v.db.incidents
        alerts := fireRows v.now incidentID alert v.db.alerts
        signals := v.db.signals ++
          [{ attachedSignal incidentID alert observation with id := id₁, createdAt := at₁ }]
        timeline := v.db.timeline ++ events ++
          [{ attachedEvent incidentID alert observation with id := id₄, createdAt := at₄ }] } := by
    rw [hdb₄, hdb₃, hdb₂, hnow₁, hdb₁]
  have hflag : v₁.db.clearedAt incidentID = v.db.clearedAt incidentID := by rw [hdb₁]; rfl
  rw [hcleared, hflag] at hevents
  refine ⟨by rw [hnow₄, hnow₃, hnow₂, hnow₁], by rw [hdb], hknown, by rw [hdb], by rw [hdb],
    ⟨id₁, at₁, by rw [hdb]⟩, ⟨events, id₄, at₄, ?_, hevents⟩, .of_eq (by rw [hdb])⟩
  rw [hdb, List.append_assoc]

/-- What is written next to incidents, alerts, signals and the timeline does not matter. -/
theorem Attached.of_sameRows {w : View} (h : Attached v v' incidentID alert observation)
    (hsame : SameRows v' w) : Attached v w incidentID alert observation := by
  refine ⟨hsame.now.trans h.now, hsame.dependencies.trans h.dependencies, h.known,
    hsame.incidents.trans h.incidents, hsame.alerts.trans h.alerts, ?_, ?_,
    h.quiet.trans hsame.quiet⟩
  · rw [hsame.signals]
    exact h.signals
  · rw [hsame.timeline]
    exact h.timeline

variable {rootInferred : Bool} {graph : Graph} {incident : IncidentRow}
  {stats stats' : IngestionStats} {actor : String}

/-- One alert of a group. -/
theorem ingestAlert_runs
    (h : (ingestAlert graph incident rootInferred actor stats alert).Runs Eq v stats' v') :
    Attached v v' incident.id alert (observe graph incident rootInferred alert) ∧
      stats' = { stats with
        suppressedAlertCount := stats.suppressedAlertCount +
          if alert.service ≠ incident.service then 1 else 0 } := by
  obtain ⟨_, v₁, hattach, h₁⟩ := Tx.runs_bind.mp h
  have hattached := attachTopologyAlert_runs hattach
  have hsuppressed : (observe graph incident rootInferred alert).suppressed =
      decide (alert.service ≠ incident.service) := rfl
  rw [hsuppressed] at h₁
  by_cases hne : alert.service ≠ incident.service
  · rw [if_pos (decide_eq_true hne)] at h₁
    obtain ⟨_, v₂, haudit, h₂⟩ := Tx.runs_bind.mp h₁
    obtain ⟨rfl, rfl⟩ := Tx.runs_pure.mp h₂
    have hsame := sameRows_writeAudit (by dsimp only; decide) haudit
    exact ⟨hattached.of_sameRows hsame, by rw [if_pos hne]⟩
  · rw [if_neg (by simpa using hne)] at h₁
    obtain ⟨rfl, rfl⟩ := Tx.runs_pure.mp h₁
    exact ⟨hattached, by rw [if_neg hne]; rfl⟩

/-- What is written when a resolved notification is applied to an incident: the event and the audit
entry about cleared alerts where no fresh alert is left that fires, and there the flag unless it is
set. -/
structure Resolved (staleAfter : Time) (v w : View) (id : String) (alert : NormalizedAlert) :
    Prop where
  now : w.now = v.now
  dependencies : w.db.dependencies = v.db.dependencies
  alerts : ∃ resolvedAt, w.db.alerts = resolveRows v.now id alert.dedupeKey resolvedAt v.db.alerts
  incidents : w.db.incidents = touchRows v.now id (fun i =>
    if w.db.stillFiring v.now id staleAfter = 0 ∧ i.alertsClearedAt = none then some v.now
    else i.alertsClearedAt) v.db.incidents
  signals : ∃ resolvedAt sid at_, w.db.signals = v.db.signals ++
    [{ resolvedSignal id alert resolvedAt with id := sid, createdAt := at_ }]
  timeline : ∃ event cleared, w.db.timeline = v.db.timeline ++ (event :: cleared) ∧
    event.incidentID = id ∧ event.eventType = .alertResolved ∧
    if w.db.stillFiring v.now id staleAfter = 0 then
      ∃ e : TimelineEvent, cleared = [e] ∧ e.eventType = .alertsCleared ∧ e.incidentID = id
    else cleared = []
  audit : ∃ entries, w.db.audit = v.db.audit ++ entries ∧
    if w.db.stillFiring v.now id staleAfter = 0 then
      ∃ e : AuditEntry, entries = [e] ∧ e.action = "incident.alerts_cleared" ∧ e.resourceID = id
    else entries = []

theorem Resolved.events (h : Resolved staleAfter v v' id alert) :
    ∃ events, v'.db.timeline = v.db.timeline ++ events ∧ ∀ e ∈ events,
      e.incidentID = id ∧ (e.eventType = .alertResolved ∨ e.eventType = .alertsCleared) := by
  obtain ⟨event, cleared, htimeline, hid, htype, hcleared⟩ := h.timeline
  refine ⟨_, htimeline, List.forall_mem_cons.mpr ⟨⟨hid, .inl htype⟩, ?_⟩⟩
  split at hcleared
  · obtain ⟨e, rfl, htype', hid'⟩ := hcleared
    exact List.forall_mem_singleton.mpr ⟨hid', .inr htype'⟩
  · simp [hcleared]

/-- Clearing after a touch is a touch. -/
theorem clear_touchRows (now : Time) (id : String) (cleared : IncidentRow → Option Time)
    (rows : List IncidentRow) :
    Table.updateIf (fun i => i.id = id)
        (fun i => if i.alertsClearedAt.isNone then { i with alertsClearedAt := some now } else i)
        (touchRows now id cleared rows) =
      touchRows now id (fun i => if (cleared i).isNone then some now else cleared i) rows := by
  simp only [touchRows, Table.updateIf, List.map_map]
  refine List.map_congr_left fun i _ => ?_
  by_cases hid : i.id = id
  · simp only [Function.comp_apply, hid, if_true]
    split <;> simp_all
  · simp [hid]

theorem clearAlerts_runs (h : (clearAlerts actor incident alert resolvedAt).Runs Eq v () v') :
    v'.now = v.now ∧ ∃ event entry, v'.db =
        { v.db with
          incidents := Table.updateIf (fun i => i.id = incident.id) (fun i =>
            if i.alertsClearedAt.isNone then { i with alertsClearedAt := some v.now } else i)
            v.db.incidents
          timeline := v.db.timeline ++ [event]
          audit := v.db.audit ++ [entry] } ∧
      event.eventType = .alertsCleared ∧ event.incidentID = incident.id ∧
      entry.action = "incident.alerts_cleared" ∧ entry.resourceID = incident.id := by
  obtain ⟨_, v₁, hclear, h₁⟩ := Tx.runs_bind.mp h
  obtain ⟨_, v₂, hevent, haudit⟩ := Tx.runs_bind.mp h₁
  obtain ⟨hnow₁, hdb₁⟩ := markAlertsCleared_runs hclear
  obtain ⟨hnow₂, id₂, at₂, hdb₂⟩ := addTimelineEvent_runs hevent
  obtain ⟨hnow₃, hdb₃⟩ := writeAudit_runs haudit
  rw [hdb₂, hdb₁] at hdb₃
  exact ⟨hnow₃.trans (hnow₂.trans hnow₁), _, _, hdb₃, rfl, rfl, rfl, rfl⟩

theorem resolveOn_runs (h : (resolveOn grouping actor alert incident).Runs Eq v () v') :
    Resolved grouping.alertStaleAfter v v' incident.id alert := by
  obtain ⟨svc, v₁, hsvc, h₁⟩ := Tx.runs_bind.mp h
  obtain ⟨resolvedAt, v₂, htime, h₂⟩ := Tx.runs_bind.mp h₁
  obtain ⟨_, v₃, hsignal, h₃⟩ := Tx.runs_bind.mp h₂
  obtain ⟨remaining, v₄, hmark, h₄⟩ := Tx.runs_bind.mp h₃
  obtain ⟨_, v₅, hevent, h₅⟩ := Tx.runs_bind.mp h₄
  obtain ⟨-, haudit₁, hsame⟩ := ensureService_runs hsvc
  obtain ⟨rfl, -⟩ := timeOrNow_runs htime
  obtain ⟨hnow₃, -, id₃, at₃, hdb₃⟩ := addSignal_runs hsignal
  obtain ⟨hnow₄, hremaining, hdb₄⟩ := markAlertResolved_runs hmark
  obtain ⟨hnow₅, id₅, at₅, hdb₅⟩ := addTimelineEvent_runs hevent
  have hnow : v₃.now = v.now := hnow₃.trans hsame.now
  have hnow' : v₅.now = v.now := by rw [hnow₅, hnow₄, hnow]
  have halerts : v₅.db.alerts =
      resolveRows v.now incident.id alert.dedupeKey resolvedAt v.db.alerts := by
    rw [hdb₅, hdb₄, hnow, hdb₃, hsame.alerts]
  have hincidents : v₅.db.incidents =
      touchRows v.now incident.id (·.alertsClearedAt) v.db.incidents := by
    rw [hdb₅, hdb₄, hnow, hdb₃, hsame.incidents]
  have hcount : remaining = v₅.db.stillFiring v.now incident.id grouping.alertStaleAfter := by
    rw [hremaining, hnow, hdb₅]
    rfl
  have hsignals : v₅.db.signals = v.db.signals ++
      [{ resolvedSignal incident.id alert resolvedAt with id := id₃, createdAt := at₃ }] := by
    rw [hdb₅, hdb₄, hdb₃, hsame.signals]
  have hdeps : v₅.db.dependencies = v.db.dependencies := by
    rw [hdb₅, hdb₄, hdb₃, hsame.dependencies]
  have haudit : v₅.db.audit = v.db.audit := by rw [hdb₅, hdb₄, hdb₃, haudit₁]
  obtain ⟨event, htimeline, hid, htype⟩ : ∃ event, v₅.db.timeline = v.db.timeline ++ [event] ∧
      event.incidentID = incident.id ∧ event.eventType = .alertResolved :=
    ⟨_, by rw [hdb₅, hdb₄, hdb₃, hsame.timeline], rfl, rfl⟩
  split at h₅
  · obtain ⟨-, rfl⟩ := Tx.runs_pure.mp h₅
    have hne : v'.db.stillFiring v.now incident.id grouping.alertStaleAfter ≠ 0 := by omega
    refine ⟨hnow', hdeps, ⟨resolvedAt, halerts⟩, ?_, ⟨resolvedAt, id₃, at₃, hsignals⟩,
      ⟨event, [], htimeline, hid, htype, ?_⟩, [], ?_, ?_⟩
    · simp only [hincidents, hne, false_and, if_false]
    · rw [if_neg hne]
    · rw [haudit, List.append_nil]
    · rw [if_neg hne]
  · obtain ⟨hnow₆, event₆, entry, hdb₆, htype₆, hid₆, haction, hresource⟩ := clearAlerts_runs h₅
    have hzero : v'.db.stillFiring v.now incident.id grouping.alertStaleAfter = 0 := by
      have halerts₆ : v'.db.alerts = v₅.db.alerts := by rw [hdb₆]
      rw [Db.stillFiring, halerts₆, ← Db.stillFiring, ← hcount]
      omega
    refine ⟨hnow₆.trans hnow', by rw [hdb₆, ← hdeps], ⟨resolvedAt, by rw [hdb₆, ← halerts]⟩, ?_,
      ⟨resolvedAt, id₃, at₃, by rw [hdb₆, ← hsignals]⟩,
      ⟨event, [event₆], by rw [hdb₆, htimeline, List.append_assoc]; rfl, hid, htype, ?_⟩, [entry],
      by rw [hdb₆, ← haudit], ?_⟩
    · simp only [hzero, true_and]
      rw [hdb₆, hincidents, hnow', clear_touchRows]
      simp only [Option.isNone_iff_eq_none]
    · rw [if_pos hzero]
      exact ⟨event₆, rfl, htype₆, hid₆⟩
    · rw [if_pos hzero]
      exact ⟨entry, rfl, haction, hresource⟩

/-- `resolveAlert` writes nothing for an alert that fires on no open incident. -/
theorem resolveAlert_runs (h : (resolveAlert grouping actor stats alert).Runs Eq v stats' v') :
    (v'.db = v.db ∧ v'.now = v.now ∧
        (∀ i ∈ v.db.incidents, i.status.isClosed = false → ¬ v.db.FiresOn alert.dedupeKey i.id) ∧
        stats' = { stats with unmatchedResolvedAlerts := stats.unmatchedResolvedAlerts + 1 }) ∨
      ∃ i ∈ v.db.incidents, i.status.isClosed = false ∧ v.db.FiresOn alert.dedupeKey i.id ∧
        Resolved grouping.alertStaleAfter v v' i.id alert ∧
        stats' = { stats with resolvedAlerts := stats.resolvedAlerts + 1 } := by
  obtain ⟨found, v₁, hfind, h₁⟩ := Tx.runs_bind.mp h
  obtain ⟨hdb, hnow, hsome, hnone⟩ := findIncidentForResolvedAlert_runs hfind
  cases found with
  | none =>
    obtain ⟨rfl, rfl⟩ := Tx.runs_pure.mp h₁
    exact .inl ⟨hdb, hnow, hnone rfl, rfl⟩
  | some i =>
    obtain ⟨_, v₂, hon, h₂⟩ := Tx.runs_bind.mp h₁
    obtain ⟨rfl, rfl⟩ := Tx.runs_pure.mp h₂
    obtain ⟨hmem, hopen, hfires⟩ := hsome i rfl
    obtain ⟨rnow, rdeps, ralerts, rincidents, rsignals, rtimeline, raudit⟩ := resolveOn_runs hon
    rw [hdb, hnow] at ralerts rincidents
    rw [hnow, hdb] at rtimeline raudit
    rw [hdb] at rdeps rsignals
    exact .inr ⟨i, hmem, hopen, hfires,
      ⟨rnow.trans hnow, rdeps, ralerts, rincidents, rsignals, rtimeline, raudit⟩, rfl⟩

/-! ## The incident of a group -/

/-- A kept incident is one that was looked at, at the end of a path. -/
private theorem nearer_cases {j : IncidentRow} {d : ℕ} (h : nearer i path best = some (j, d)) :
    best = some (j, d) ∨ j = i ∧ path.isSome = true := by
  unfold nearer at h
  split at h
  · exact .inl h
  · cases h
    exact .inr ⟨rfl, rfl⟩
  · split at h
    · cases h
      exact .inr ⟨rfl, rfl⟩
    · exact .inl h

/-- What is known of a related incident. -/
structure Related (graph : Graph) (root environment : String) (incidents : List IncidentRow)
    (i : IncidentRow) (promote : Bool) : Prop where
  mem : i ∈ incidents
  environment : i.environment = environment
  attach : promote = false → i.service = root ∨ (graph.path root i.service).isSome = true
  promote : promote = true → (graph.path i.service root).isSome = true

variable {environment : String}

private theorem relatedFrom_related {root : String} {all : List IncidentRow}
    (hsub : ∀ j ∈ incidents, j ∈ all)
    (hup : ∀ j d, nearest.upstream = some (j, d) → j ∈ all ∧ j.environment = environment ∧
      (graph.path root j.service).isSome = true)
    (hdown : ∀ j d, nearest.downstream = some (j, d) → j ∈ all ∧ j.environment = environment ∧
      (graph.path j.service root).isSome = true)
    (h : relatedFrom graph root environment nearest incidents = some (i, promote)) :
    Related graph root environment all i promote := by
  induction incidents generalizing nearest with
  | nil =>
    unfold relatedFrom at h
    split at h
    · rename_i j d hj
      cases h
      obtain ⟨hmem, henv, hpath⟩ := hup _ d hj
      exact ⟨hmem, henv, fun _ => .inr hpath, fun hp => absurd hp (by decide)⟩
    · rename_i j d hnone hj
      cases h
      obtain ⟨hmem, henv, hpath⟩ := hdown _ d hj
      exact ⟨hmem, henv, fun hp => absurd hp (by decide), fun _ => hpath⟩
    · cases h
  | cons k incidents ih =>
    have hrest : ∀ j ∈ incidents, j ∈ all := fun j hj => hsub j (List.mem_cons_of_mem _ hj)
    unfold relatedFrom at h
    split at h
    · exact ih hrest hup hdown h
    · rename_i henv
      split at h
      · rename_i hservice
        cases h
        exact ⟨hsub _ List.mem_cons_self, not_not.mp henv, fun _ => .inl hservice,
          fun hp => absurd hp (by decide)⟩
      · refine ih hrest (fun j d hj => ?_) (fun j d hj => ?_) h
        · rcases nearer_cases hj with hold | ⟨rfl, hpath⟩
          · exact hup j d hold
          · exact ⟨hsub _ List.mem_cons_self, not_not.mp henv, hpath⟩
        · rcases nearer_cases hj with hold | ⟨rfl, hpath⟩
          · exact hdown j d hold
          · exact ⟨hsub _ List.mem_cons_self, not_not.mp henv, hpath⟩

theorem relatedOpenIncident_related {root : String}
    (h : relatedOpenIncident graph root environment incidents = some (i, promote)) :
    Related graph root environment incidents i promote :=
  relatedFrom_related (fun _ hj => hj) (fun _ _ hj => by cases hj) (fun _ _ hj => by cases hj) h

private theorem nearer_eq_none (h : nearer i path best = none) : best = none ∧ path = none := by
  cases path with
  | none => exact ⟨h, rfl⟩
  | some p =>
    cases best with
    | none => cases h
    | some b =>
      unfold nearer at h
      dsimp only at h
      split at h <;> cases h

/-- An incident is promoted only if the new root does not reach its root. -/
private theorem relatedFrom_promoted {root : String}
    (h : relatedFrom graph root environment nearest incidents = some (i, true)) :
    nearest.upstream = none ∧
      ∀ j ∈ incidents, j.environment = environment → graph.path root j.service = none := by
  induction incidents generalizing nearest with
  | nil =>
    unfold relatedFrom at h
    split at h
    · cases h
    · rename_i hnone _
      exact ⟨hnone, by simp⟩
    · cases h
  | cons k incidents ih =>
    unfold relatedFrom at h
    split at h
    · rename_i hother
      obtain ⟨hup, hall⟩ := ih h
      refine ⟨hup, List.forall_mem_cons.mpr ⟨fun henv => absurd henv hother, hall⟩⟩
    · split at h
      · cases h
      · obtain ⟨hup, hall⟩ := ih h
        -- an incident that the root reaches would have been kept as upstream
        obtain ⟨hnone, hpath⟩ := nearer_eq_none hup
        exact ⟨hnone, List.forall_mem_cons.mpr ⟨fun _ => hpath, hall⟩⟩

theorem promoteIncidentRoot_runs {root : Root}
    (h : (promoteIncidentRoot incidentID root).Runs Eq v i v') :
    SameOthers v v' ∧
      v'.db.incidents = Table.updateIf (fun i => i.id = incidentID) (IncidentRow.promote v.now root)
        v.db.incidents ∧
      v'.db.incidents.find? (·.id == incidentID) = some i := by
  obtain ⟨svc, v₁, hsvc, h₁⟩ := Tx.runs_bind.mp h
  obtain ⟨_, v₂, hupdate, hget⟩ := Tx.runs_bind.mp h₁
  obtain ⟨hname, -, hsame⟩ := ensureService_runs hsvc
  obtain ⟨o, -, rfl⟩ := runs_query_some hupdate
  obtain ⟨hfind, rfl⟩ := getIncident_runs hget
  rw [hname] at hfind ⊢
  refine ⟨hsame.toSameOthers.trans ⟨rfl, rfl, rfl, rfl, rfl, .of_eq rfl⟩, ?_, hfind⟩
  rw [← hsame.incidents, ← hsame.now]
  rfl

theorem createAlertIncident_runs {root : Root}
    (h : (createAlertIncident environment root).Runs Eq v i v') :
    SameOthers v v' ∧ v'.db.incidents = v.db.incidents ++ [i] ∧
      ∃ id clock, v.db.hasIncident id = false ∧ i = newIncident id clock environment root := by
  obtain ⟨svc, v₁, hsvc, h₁⟩ := Tx.runs_bind.mp h
  obtain ⟨clock, v₂, htime, hinsert⟩ := Tx.runs_bind.mp h₁
  obtain ⟨hname, -, hsame⟩ := ensureService_runs hsvc
  obtain rfl := runs_timeNow_alone htime
  obtain ⟨o, -, hact⟩ := runs_query_alone.mp hinsert
  split at hact
  · cases hact
  · rename_i hfresh
    cases hact
    refine ⟨hsame.toSameOthers.trans ⟨rfl, rfl, rfl, rfl, rfl, .of_eq rfl⟩, ?_, o.fresh, clock, ?_,
      by rw [hname]⟩
    · rw [← hsame.incidents]
      rfl
    · rw [Db.hasIncident, ← hsame.incidents]
      exact Bool.not_eq_true _ ▸ hfresh

/-- No incident that accepts alerts carries the alert of the root. -/
def NoExact (grouping : Grouping) (group : Group) (root : NormalizedAlert) (v : View) : Prop :=
  root.service = group.root → ∀ i ∈ v.db.incidents,
    v.db.active grouping v.now i = true → v.db.carries root.dedupeKey i = false

/-- How a group comes by its incident. -/
inductive Found (grouping : Grouping) (graph : Graph) (group : Group) (root : NormalizedAlert)
    (openIncidents : List IncidentRow) (v v' : View) : IncidentRow → Origin → Prop
  | exact {i : IncidentRow} (hroot : root.service = group.root) (hmem : i ∈ v.db.incidents)
      (hactive : v.db.active grouping v.now i = true)
      (hcarries : v.db.carries root.dedupeKey i = true) (hsame : SameRows v v') :
      Found grouping graph group root openIncidents v v' i .existing
  | related {i : IncidentRow} (hnone : NoExact grouping group root v) (hmem : i ∈ openIncidents)
      (henv : i.environment = group.environment)
      (hpath : i.service = group.root ∨ (graph.path group.root i.service).isSome = true)
      (hsame : SameRows v v') :
      Found grouping graph group root openIncidents v v' i .existing
  | promoted {old i : IncidentRow} (hnone : NoExact grouping group root v)
      (hmem : old ∈ openIncidents) (henv : old.environment = group.environment)
      (hpath : (graph.path old.service group.root).isSome = true)
      (hunreached : graph.path group.root old.service = none) (hothers : SameOthers v v')
      (hincidents : v'.db.incidents = Table.updateIf (fun i => i.id = old.id)
        (IncidentRow.promote v.now (rootOf group root)) v.db.incidents)
      (hfind : v'.db.incidents.find? (·.id == old.id) = some i) :
      Found grouping graph group root openIncidents v v' i .promoted
  | created {id : String} {clock : Time} (hnone : NoExact grouping group root v)
      (hfresh : v.db.hasIncident id = false) (hothers : SameOthers v v')
      (hincidents : v'.db.incidents =
        v.db.incidents ++ [newIncident id clock group.environment (rootOf group root)]) :
      Found grouping graph group root openIncidents v v'
        (newIncident id clock group.environment (rootOf group root)) .created

variable {group : Group} {openIncidents : List IncidentRow} {root : NormalizedAlert}

theorem relateOrCreate_runs (hnone : NoExact grouping group root v)
    (h : (relateOrCreate graph group root openIncidents).Runs Eq v r v') :
    Found grouping graph group root openIncidents v v' r.1 r.2 := by
  unfold relateOrCreate at h
  split at h
  · rename_i i promote hrelated
    have hrel := relatedOpenIncident_related hrelated
    split at h
    · rename_i hkeep
      obtain ⟨rfl, rfl⟩ := Tx.runs_pure.mp h
      refine .related hnone hrel.mem hrel.environment ?_ (.refl _)
      cases promote with
      | false => exact hrel.attach rfl
      | true => exact .inl (by simpa using hkeep)
    · rename_i hpromote
      obtain ⟨j, v₁, hrun, h₁⟩ := Tx.runs_bind.mp h
      obtain ⟨rfl, rfl⟩ := Tx.runs_pure.mp h₁
      obtain ⟨hothers, hincidents, hfind⟩ := promoteIncidentRoot_runs hrun
      obtain rfl : promote = true := by
        cases promote with
        | true => rfl
        | false => simp at hpromote
      exact .promoted hnone hrel.mem hrel.environment (hrel.promote rfl)
        ((relatedFrom_promoted hrelated).2 i hrel.mem hrel.environment) hothers hincidents hfind
  · obtain ⟨j, v₁, hrun, h₁⟩ := Tx.runs_bind.mp h
    obtain ⟨rfl, rfl⟩ := Tx.runs_pure.mp h₁
    obtain ⟨hothers, hincidents, id, clock, hfresh, rfl⟩ := createAlertIncident_runs hrun
    exact .created hnone hfresh hothers hincidents

variable {origin : Origin}

theorem Found.of_sameRows {v₁ : View} (hsame : SameRows v v₁)
    (h : Found grouping graph group root openIncidents v₁ v' i origin) :
    Found grouping graph group root openIncidents v v' i origin := by
  have hactive : ∀ j, v₁.db.active grouping v₁.now j = v.db.active grouping v.now j := fun j => by
    rw [Db.active, Db.active, hsame.alerts, hsame.now]
  have hcarries : ∀ key j, v₁.db.carries key j = v.db.carries key j := fun key j => by
    rw [Db.carries, Db.carries, hsame.alerts]
  have hnone : NoExact grouping group root v₁ → NoExact grouping group root v :=
    fun hn hroot j hj hact => by
      rw [← hcarries]
      exact hn hroot j (hsame.incidents ▸ hj) (by rw [hactive]; exact hact)
  cases h with
  | exact hroot hmem hact hcar hs =>
    exact .exact hroot (hsame.incidents ▸ hmem) (by rw [← hactive]; exact hact)
      (by rw [← hcarries]; exact hcar) (hsame.trans hs)
  | related hn hmem henv hpath hs => exact .related (hnone hn) hmem henv hpath (hsame.trans hs)
  | promoted hn hmem henv hpath hunreached hothers hincidents hfind =>
    exact .promoted (hnone hn) hmem henv hpath hunreached (hsame.toSameOthers.trans hothers)
      (by rw [hincidents, hsame.incidents, hsame.now]) hfind
  | created hn hfresh hothers hincidents =>
    exact .created (hnone hn) (by rw [Db.hasIncident, ← hsame.incidents]; exact hfresh)
      (hsame.toSameOthers.trans hothers) (by rw [hincidents, hsame.incidents])

theorem findOrCreateTopologyIncident_runs
    (h : (findOrCreateTopologyIncident grouping graph group root openIncidents).Runs Eq v r v') :
    Found grouping graph group root openIncidents v v' r.1 r.2 := by
  obtain ⟨found, v₁, hexact, h₁⟩ := Tx.runs_bind.mp h
  unfold exactIncident at hexact
  split at hexact
  · rename_i hroot
    obtain ⟨hsame, hsome, hnone⟩ := findOpenByDedupeKey_runs hexact
    split at h₁
    · rename_i i
      obtain ⟨rfl, rfl⟩ := Tx.runs_pure.mp h₁
      obtain ⟨hmem, hactive, hcarries⟩ := hsome i rfl
      exact .exact hroot hmem hactive hcarries hsame
    · refine Found.of_sameRows hsame (relateOrCreate_runs (fun _ i hi hactive => ?_) h₁)
      have hcarries := hnone rfl i (hsame.incidents ▸ hi) (by
        rw [Db.active, ← hsame.alerts, ← hsame.now]
        exact hactive)
      rw [Db.carries, hsame.alerts]
      exact hcarries
  · rename_i hroot
    obtain ⟨rfl, rfl⟩ := Tx.runs_pure.mp hexact
    exact relateOrCreate_runs (fun heq => absurd heq hroot) h₁

section

variable (h : Found grouping graph group root openIncidents v v' incident origin)

include h

theorem Found.others : SameOthers v v' := by
  cases h with
  | exact _ _ _ _ hsame | related _ _ _ _ hsame => exact hsame.toSameOthers
  | promoted _ _ _ _ _ hothers | created _ _ hothers => exact hothers

/-- What finding the incident of a group does to rows: every row keeps its status and its
environment, the others are as they were, and a new one is open. -/
theorem Found.rows :
    (∀ j ∈ v.db.incidents, ∃ j' ∈ v'.db.incidents, j'.id = j.id ∧
        j'.status = j.status ∧ (j.id ≠ incident.id → j' = j)) ∧
      ∀ j' ∈ v'.db.incidents,
        (∃ j ∈ v.db.incidents, j.id = j'.id ∧ j.status = j'.status ∧
          j.environment = j'.environment ∧ (j'.id ≠ incident.id → j' = j)) ∨
        (v.db.hasIncident j'.id = false ∧ j'.status.isClosed = false ∧ j'.id = incident.id) := by
  cases h with
  | exact _ _ _ _ hsame | related _ _ _ _ hsame =>
    rw [hsame.incidents]
    exact ⟨fun j hj => ⟨j, hj, rfl, rfl, fun _ => rfl⟩,
      fun j hj => .inl ⟨j, hj, rfl, rfl, rfl, fun _ => rfl⟩⟩
  | @promoted old _ _ _ _ _ _ _ hincidents hfind =>
    have hidin := id_eq_of_find? hfind
    rw [hincidents]
    refine ⟨fun j hj => ?_, fun j' hj' => .inl ?_⟩
    · obtain ⟨j', hj', ⟨rfl, -⟩ | ⟨rfl, hid⟩⟩ := Table.exists_mem_updateIf
        (p := fun i => i.id = old.id) (f := IncidentRow.promote v.now (rootOf group root)) hj
      · exact ⟨_, hj', rfl, rfl, fun _ => rfl⟩
      · exact ⟨_, hj', rfl, rfl, fun hne => absurd (hid.trans hidin.symm) hne⟩
    · obtain ⟨j, hj, ⟨rfl, -⟩ | ⟨rfl, hid⟩⟩ := Table.mem_updateIf hj'
      · exact ⟨_, hj, rfl, rfl, rfl, fun _ => rfl⟩
      · exact ⟨j, hj, rfl, rfl, rfl, fun hne => absurd (hid.trans hidin.symm) hne⟩
  | created _ hfresh _ hincidents =>
    rw [hincidents]
    refine ⟨fun j hj => ⟨j, List.mem_append_left _ hj, rfl, rfl, fun _ => rfl⟩, fun j' hj' => ?_⟩
    rcases List.mem_append.mp hj' with hj | hnew
    · exact .inl ⟨j', hj, rfl, rfl, rfl, fun _ => rfl⟩
    · rw [List.mem_singleton.mp hnew]
      exact .inr ⟨hfresh, rfl, rfl⟩

/-- An incident that a group opens or promotes has the root of the group. -/
theorem Found.columns (horigin : origin ≠ .existing) :
    incident ∈ v'.db.incidents ∧ incident.service = group.root ∧
      incident.severity = defaultSeverity root.severity := by
  cases h with
  | exact | related => exact absurd rfl horigin
  | promoted _ _ _ _ _ _ hincidents hfind =>
    have hmem := List.mem_of_find?_eq_some hfind
    refine ⟨hmem, ?_⟩
    rw [hincidents] at hmem
    obtain ⟨j, -, ⟨rfl, hother⟩ | ⟨rfl, -⟩⟩ := Table.mem_updateIf hmem
    · exact absurd (id_eq_of_find? hfind) hother
    · exact ⟨rfl, rfl⟩
  | created _ _ _ hincidents =>
    exact ⟨hincidents ▸ List.mem_append_right _ List.mem_cons_self, rfl, rfl⟩

end

/-! ## One group -/

/-- Alerts attached to one incident, one after the other. -/
inductive AttachedAll (incidentID : String) (observation : NormalizedAlert → Observation) :
    List NormalizedAlert → View → View → Prop
  | nil {v : View} : AttachedAll incidentID observation [] v v
  | cons {alert : NormalizedAlert} {alerts : List NormalizedAlert} {v v₁ v' : View} :
      Attached v v₁ incidentID alert (observation alert) →
      AttachedAll incidentID observation alerts v₁ v' →
      AttachedAll incidentID observation (alert :: alerts) v v'

/-- The alerts that are suppressed behind an incident. -/
def suppressedBehind (incident : IncidentRow) (alerts : List NormalizedAlert) : ℕ :=
  (alerts.filter fun a => a.service ≠ incident.service).length

variable {alerts : List NormalizedAlert}

theorem ingestAlerts_runs
    (h : (alerts.foldlM (ingestAlert graph incident rootInferred actor) stats).Runs Eq v stats' v') :
    AttachedAll incident.id (observe graph incident rootInferred) alerts v v' ∧
      stats' = { stats with suppressedAlertCount :=
        stats.suppressedAlertCount + suppressedBehind incident alerts } := by
  induction alerts generalizing v stats with
  | nil =>
    obtain ⟨rfl, rfl⟩ := Tx.runs_foldlM_nil.mp h
    exact ⟨.nil, rfl⟩
  | cons alert alerts ih =>
    obtain ⟨stats₁, v₁, hfirst, hrest⟩ := Tx.runs_foldlM_cons.mp h
    obtain ⟨hattached, rfl⟩ := ingestAlert_runs hfirst
    obtain ⟨hall, rfl⟩ := ih hrest
    refine ⟨.cons hattached hall, ?_⟩
    by_cases hne : alert.service = incident.service
    · simp [suppressedBehind, hne]
    · simp [suppressedBehind, hne]
      omega

/-- Where the flag of a group comes from. -/
theorem rootInferredOf_runs (h : (rootInferredOf group incident origin).Runs Eq v rootInferred v') :
    v' = v ∧ (origin ≠ .existing → rootInferred = group.inferred) ∧
      (origin = .existing → ∃ i, v.db.incidents.find? (·.id == incident.id) = some i ∧
        rootInferred = (topologyOf (Graph.new v.db.dependencies) i
          (v.db.observed incident.id)).rootInferred) := by
  cases origin with
  | existing =>
    obtain ⟨topology, v₁, htopology, h₁⟩ := Tx.runs_bind.mp h
    obtain ⟨rfl, rfl⟩ := Tx.runs_pure.mp h₁
    obtain ⟨rfl, i, hfind, rfl⟩ := getIncidentTopology_runs htopology
    exact ⟨rfl, fun hne => absurd rfl hne, fun _ => ⟨i, hfind, rfl⟩⟩
  | promoted | created =>
    obtain ⟨hflag, hview⟩ := Tx.runs_pure.mp h
    exact ⟨hview, fun _ => hflag, fun heq => by cases heq⟩

theorem auditGroup_runs (h : (auditGroup actor group incident rootInferred origin).Runs Eq v () v') :
    SameRows v v' := by
  cases origin with
  | existing =>
    obtain ⟨-, rfl⟩ := Tx.runs_pure.mp h
    exact .refl _
  | promoted | created => exact sameRows_writeAudit (by dsimp only; decide) h

/-- What the loop over the groups does for one that has alerts, with the origin of its flag. -/
structure Turn (grouping : Grouping) (graph : Graph) (alerts : List NormalizedAlert) (group : Group)
    (progress progress' : Progress) (v v' : View) (first : NormalizedAlert)
    (rest : List NormalizedAlert) (incident : IncidentRow) (origin : Origin) (rootInferred : Bool)
    (v₁ v₂ : View) : Prop where
  some : alertsForGroup alerts group = first :: rest
  found : Found grouping graph group (rootAlertForGroup first (first :: rest) group.root)
    progress.openIncidents v v₁ incident origin
  grouped : origin ≠ .existing → rootInferred = group.inferred
  existing : origin = .existing → ∃ i, v₁.db.incidents.find? (·.id == incident.id) = .some i ∧
    rootInferred = (topologyOf (Graph.new v₁.db.dependencies) i
      (v₁.db.observed incident.id)).rootInferred
  same : SameRows v₁ v₂
  attached : AttachedAll incident.id (observe graph incident rootInferred) (first :: rest) v₂ v'
  incidents : progress'.incidents = progress.incidents ++ [incident]
  openIncidents : progress'.openIncidents = appendOrReplaceIncident progress.openIncidents incident
  stats : progress'.stats = { progress.stats.countGroup group rootInferred with
    suppressedAlertCount :=
      progress.stats.suppressedAlertCount + suppressedBehind incident (first :: rest) }

/-- What the loop over the groups does for one of them. -/
inductive Grouped (grouping : Grouping) (graph : Graph) (alerts : List NormalizedAlert)
    (group : Group) (progress progress' : Progress) (v v' : View) : Prop
  | empty (hnone : alertsForGroup alerts group = []) (hprogress : progress' = progress)
      (hview : v' = v)
  | attached {first : NormalizedAlert} {rest : List NormalizedAlert} {incident : IncidentRow}
      {origin : Origin} {rootInferred : Bool} {v₁ v₂ : View}
      (hturn : Turn grouping graph alerts group progress progress' v v' first rest incident origin
        rootInferred v₁ v₂)

theorem ingestGroup_runs
    (h : (ingestGroup grouping graph alerts actor progress group).Runs Eq v progress' v') :
    Grouped grouping graph alerts group progress progress' v v' := by
  unfold ingestGroup at h
  split at h
  · rename_i hnone
    obtain ⟨rfl, rfl⟩ := Tx.runs_pure.mp h
    exact .empty hnone rfl rfl
  · rename_i first rest hsome
    obtain ⟨⟨incident, origin⟩, v₁, hfound, h₁⟩ := Tx.runs_bind.mp h
    obtain ⟨rootInferred, v₂, hinferred, h₂⟩ := Tx.runs_bind.mp h₁
    obtain ⟨_, v₃, haudit, h₃⟩ := Tx.runs_bind.mp h₂
    obtain ⟨stats, v₄, halerts, h₄⟩ := Tx.runs_bind.mp h₃
    obtain ⟨rfl, rfl⟩ := Tx.runs_pure.mp h₄
    obtain ⟨rfl, hgrouped, hexisting⟩ := rootInferredOf_runs hinferred
    obtain ⟨hall, hstats⟩ := ingestAlerts_runs halerts
    exact .attached ⟨hsome, findOrCreateTopologyIncident_runs hfound, hgrouped, hexisting,
      auditGroup_runs haudit, hall, rfl, rfl, hstats⟩

/-! ## The whole delivery -/

/-- Resolved notifications applied one after the other. -/
inductive ResolvedAll (staleAfter : Time) :
    List NormalizedAlert → IngestionStats → IngestionStats → View → View → Prop
  | nil {stats : IngestionStats} {v : View} : ResolvedAll staleAfter [] stats stats v v
  | unmatched {alert : NormalizedAlert} {alerts : List NormalizedAlert}
      {stats stats' : IngestionStats} {v v₁ v' : View} (hdb : v₁.db = v.db) (hnow : v₁.now = v.now)
      (hnone : ∀ i ∈ v.db.incidents, i.status.isClosed = false →
        ¬ v.db.FiresOn alert.dedupeKey i.id)
      (hrest : ResolvedAll staleAfter alerts
        { stats with unmatchedResolvedAlerts := stats.unmatchedResolvedAlerts + 1 } stats' v₁ v') :
      ResolvedAll staleAfter (alert :: alerts) stats stats' v v'
  | matched {alert : NormalizedAlert} {alerts : List NormalizedAlert}
      {stats stats' : IngestionStats} {v v₁ v' : View} {i : IncidentRow}
      (hmem : i ∈ v.db.incidents) (hopen : i.status.isClosed = false)
      (hfires : v.db.FiresOn alert.dedupeKey i.id)
      (hresolved : Resolved staleAfter v v₁ i.id alert)
      (hrest : ResolvedAll staleAfter alerts
        { stats with resolvedAlerts := stats.resolvedAlerts + 1 } stats' v₁ v') :
      ResolvedAll staleAfter (alert :: alerts) stats stats' v v'

theorem resolveAlerts_runs
    (h : (alerts.foldlM (resolveAlert grouping actor) stats).Runs Eq v stats' v') :
    ResolvedAll grouping.alertStaleAfter alerts stats stats' v v' := by
  induction alerts generalizing v stats with
  | nil =>
    obtain ⟨rfl, rfl⟩ := Tx.runs_foldlM_nil.mp h
    exact .nil
  | cons alert alerts ih =>
    obtain ⟨stats₁, v₁, hfirst, hrest⟩ := Tx.runs_foldlM_cons.mp h
    rcases resolveAlert_runs hfirst with
      ⟨hdb, hnow, hnone, rfl⟩ | ⟨i, hmem, hopen, hfires, hresolved, rfl⟩
    · exact .unmatched hdb hnow hnone (ih hrest)
    · exact .matched hmem hopen hfires hresolved (ih hrest)

/-- Groups treated one after the other. -/
inductive GroupedAll (grouping : Grouping) (graph : Graph) (alerts : List NormalizedAlert) :
    List Group → Progress → Progress → View → View → Prop
  | nil {progress : Progress} {v : View} :
      GroupedAll grouping graph alerts [] progress progress v v
  | cons {group : Group} {groups : List Group} {progress progress₁ progress' : Progress}
      {v v₁ v' : View} (hfirst : Grouped grouping graph alerts group progress progress₁ v v₁)
      (hrest : GroupedAll grouping graph alerts groups progress₁ progress' v₁ v') :
      GroupedAll grouping graph alerts (group :: groups) progress progress' v v'

theorem ingestGroups_runs {groups : List Group}
    (h : (groups.foldlM (ingestGroup grouping graph alerts actor) progress).Runs Eq v progress' v') :
    GroupedAll grouping graph alerts groups progress progress' v v' := by
  induction groups generalizing v progress with
  | nil =>
    obtain ⟨rfl, rfl⟩ := Tx.runs_foldlM_nil.mp h
    exact .nil
  | cons group groups ih =>
    obtain ⟨progress₁, v₁, hfirst, hrest⟩ := Tx.runs_foldlM_cons.mp h
    exact .cons (ingestGroup_runs hfirst) (ih hrest)

/-- What a delivery that commits does. -/
structure Ingested (grouping : Grouping) (payload : Webhook) (v v' : View)
    (result : IngestionResult) (alerts resolved : List NormalizedAlert) (v₁ v₂ : View)
    (stats : IngestionStats) : Prop where
  split : Splits payload alerts resolved
  registered : SameRows v v₁
  resolution : ResolvedAll grouping.alertStaleAfter resolved (IngestionStats.start payload alerts)
    stats v₁ v₂
  attachment : (alerts = [] ∧ v' = v₂ ∧ result = ⟨[], stats⟩) ∨
    ∃ openIncidents v₃ progress, SameRows v₂ v₃ ∧
      openIncidents.Perm (v₂.db.incidents.filter (v₂.db.active grouping v₂.now)) ∧
      GroupedAll grouping (Graph.new v₂.db.dependencies) alerts
        (topologyGroupsByEnvironment (Graph.new v₂.db.dependencies) alerts)
        ⟨[], openIncidents, stats⟩ progress v₃ v' ∧
      result = ⟨progress.incidents, progress.stats⟩

variable {result : IngestionResult}

theorem ingest_runs (h : (ingest grouping payload actor).Runs Eq v result v') :
    ∃ alerts resolved v₁ v₂ stats,
      Ingested grouping payload v v' result alerts resolved v₁ v₂ stats := by
  obtain ⟨⟨alerts, resolved⟩, v₁, hnormalize, h₁⟩ := Tx.runs_bind.mp h
  obtain ⟨stats, v₂, hresolve, h₂⟩ := Tx.runs_bind.mp h₁
  obtain ⟨hsame, hsplit⟩ := normalizeAlerts_runs hnormalize
  refine ⟨alerts, resolved, v₁, v₂, stats, hsplit, hsame, resolveAlerts_runs hresolve, ?_⟩
  split at h₂
  · rename_i hnil
    obtain ⟨rfl, rfl⟩ := Tx.runs_pure.mp h₂
    exact .inl ⟨hnil, rfl, rfl⟩
  · obtain ⟨dependencies, v₃, hdeps, h₃⟩ := Tx.runs_bind.mp h₂
    obtain ⟨openIncidents, v₄, hopen, h₄⟩ := Tx.runs_bind.mp h₃
    obtain ⟨progress, v₅, hgroups, h₅⟩ := Tx.runs_bind.mp h₄
    obtain ⟨rfl, rfl⟩ := listServiceDependencies_runs hdeps
    obtain ⟨rfl, rfl⟩ := Tx.runs_pure.mp h₅
    obtain ⟨hsame', hperm⟩ := listOpenIncidents_runs hopen
    exact .inr ⟨openIncidents, v₄, progress, hsame', hperm, ingestGroups_runs hgroups, rfl⟩

/-- A delivery that succeeds is an ingestion from the store it finds to the store it leaves. -/
theorem ingested_of_ingestAlertmanager {now : Time} {oracle : ℕ → Oracle} {db db' : Db}
    (h : ingestAlertmanager grouping payload actor now oracle db = .ok (result, db')) :
    ∃ v', v'.db = db' ∧ ∃ alerts resolved v₁ v₂ stats,
      Ingested grouping payload (.start now db) v' result alerts resolved v₁ v₂ stats := by
  unfold ingestAlertmanager at h
  split at h
  · cases h
  · rename_i result' v' hexec
    cases h
    have hruns := Tx.runs_of_exec (R := Eq) (fun _ => rfl) hexec
    obtain ⟨_, v₁, hbegin, h₁⟩ := Tx.runs_bind.mp hruns
    obtain ⟨_, v₂, hlock, h₂⟩ := Tx.runs_bind.mp h₁
    obtain ⟨result, v₃, hingest, h₃⟩ := Tx.runs_bind.mp h₂
    obtain ⟨_, v₄, hcommit, h₄⟩ := Tx.runs_bind.mp h₃
    obtain rfl := control_runs hbegin
    obtain rfl := control_runs hlock
    obtain rfl := control_runs hcommit
    obtain ⟨rfl, rfl⟩ := Tx.runs_pure.mp h₄
    exact ⟨_, rfl, ingest_runs hingest⟩

end Argus.Incidents

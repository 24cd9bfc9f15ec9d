import Argus.Incidents.Histories

/-!
# A delivery neither loses nor duplicates alerts

The groups of a delivery are a partition of its alerting services by environment, so the alerts of the
groups are its firing alerts, each once. Every one of them is attached once, to the incident of its
group: `Attachment` is the record of that. Resolved notifications are counted once each, as resolved or
as unmatched.
-/

namespace Argus.Incidents

open Sorting Topology

variable {graph : Graph} {alerts : List NormalizedAlert} {v v' : View}

/-! ## The alerts of the groups -/

theorem topologyGroupsByEnvironment_cover {a : NormalizedAlert} (ha : a ∈ alerts)
    (hnamed : a.service ≠ "") :
    ∃ group ∈ topologyGroupsByEnvironment graph alerts,
      (a.environment == group.environment && group.members.contains a.service) = true := by
  have hservice : a.service ∈ (alerts.filter (·.environment == a.environment)).map (·.service) :=
    List.mem_map_of_mem (List.mem_filter.mpr ⟨ha, by simp⟩)
  obtain ⟨group, hgroup, hmember⟩ := (graph.mem_groups_iff).mpr ⟨hservice, hnamed⟩
  refine ⟨{ group with environment := a.environment }, ?_, by simpa using hmember⟩
  refine List.mem_flatMap.mpr ⟨a.environment, ?_, List.mem_map_of_mem hgroup⟩
  exact mem_sortStrings.mpr (List.mem_dedup.mpr (List.mem_map_of_mem ha))

/-- Two groups are of different environments or have no member in common. -/
theorem topologyGroupsByEnvironment_disjoint (graph : Graph) (alerts : List NormalizedAlert) :
    (topologyGroupsByEnvironment graph alerts).Pairwise fun g g' =>
      g.environment ≠ g'.environment ∨ g.members.Disjoint g'.members := by
  unfold topologyGroupsByEnvironment
  rw [List.pairwise_flatMap]
  constructor
  · intro environment _
    rw [List.pairwise_map]
    exact (Graph.groups_disjoint _).imp fun h => .inr h
  · refine (nodup_sortStrings.mpr (List.nodup_dedup _)).imp fun hne g hg g' hg' => .inl ?_
    obtain ⟨h, -, rfl⟩ := List.mem_map.mp hg
    obtain ⟨h', -, rfl⟩ := List.mem_map.mp hg'
    exact hne

theorem perm_alertsForGroup (hnamed : ∀ a ∈ alerts, a.service ≠ "") :
    ((topologyGroupsByEnvironment graph alerts).flatMap (alertsForGroup alerts)).Perm alerts := by
  refine Table.perm_flatMap_filter
    (fun a ha => topologyGroupsByEnvironment_cover ha (hnamed a ha)) ?_
  refine (topologyGroupsByEnvironment_disjoint graph alerts).imp fun {g g'} h a _ hg => ?_
  simp only [Bool.and_eq_true, beq_iff_eq, List.contains_iff_mem] at hg
  rcases h with hne | hdisjoint
  · have hne' : a.environment ≠ g'.environment := fun heq => hne (hg.1.symm.trans heq)
    simp [hne']
  · have hnot : a.service ∉ g'.members := fun hmem => hdisjoint hg.2 hmem
    simp [hnot]

/-! ## Attachments -/

/-- A firing alert with the incident of the result, the signal and the event it got. -/
structure Attachment where
  alert : NormalizedAlert
  incident : IncidentRow
  signal : Signal
  event : TimelineEvent

/-- The signal and the event are those of the alert on the incident. -/
def Attachment.Recorded (x : Attachment) : Prop :=
  ∃ observation signalID signalAt eventID eventAt,
    observation.suppressed = decide (x.alert.service ≠ x.incident.service) ∧
    x.signal =
      { attachedSignal x.incident.id x.alert observation with
        id := signalID
        createdAt := signalAt } ∧
    x.event =
      { attachedEvent x.incident.id x.alert observation with
        id := eventID
        createdAt := eventAt }

/-- The events that are written for an attached alert. -/
def TimelineEvent.ofAttachment (e : TimelineEvent) : Bool :=
  e.eventType = .alertReceived || e.eventType = .downstreamAlertSuppressed

theorem Attachment.Recorded.ofAttachment {x : Attachment} (h : x.Recorded) :
    x.event.ofAttachment = true := by
  obtain ⟨observation, _, _, _, _, -, -, hevent⟩ := h
  rw [hevent]
  cases hsuppressed : observation.suppressed <;>
    simp [TimelineEvent.ofAttachment, attachedEvent, hsuppressed]

theorem fireRows_fires (now : Time) (id : String) (alert : NormalizedAlert)
    (rows : List AlertRow) :
    ∃ a ∈ fireRows now id alert rows,
      a.incidentID = id ∧ a.dedupeKey = alert.dedupeKey ∧ a.status = .firing ∧
        a.lastSeenAt = now := by
  unfold fireRows
  split
  · rename_i hany
    obtain ⟨a, ha, hmatch⟩ := List.any_eq_true.mp hany
    have hkey : a.incidentID = id ∧ a.dedupeKey = alert.dedupeKey := by simpa using hmatch
    obtain ⟨a', ha', ⟨rfl, hnot⟩ | ⟨rfl, -⟩⟩ := Table.exists_mem_updateIf
      (p := fun a : AlertRow => a.incidentID = id ∧ a.dedupeKey = alert.dedupeKey)
      (f := fun a => { a with status := .firing, lastSeenAt := now, resolvedAt := none }) ha
    · exact absurd hkey hnot
    · exact ⟨_, ha', hkey.1, hkey.2, rfl, rfl⟩
  · exact ⟨_, List.mem_append_right _ (List.mem_singleton_self _), rfl, rfl, rfl, rfl⟩

variable {alert : NormalizedAlert}

theorem fireRows_keeps {now : Time} {id : String} {rows : List AlertRow} {a : AlertRow}
    (ha : a ∈ rows) (hfiring : a.status = .firing) :
    ∃ a' ∈ fireRows now id alert rows,
      a'.incidentID = a.incidentID ∧ a'.dedupeKey = a.dedupeKey ∧ a'.status = .firing := by
  unfold fireRows
  split
  · obtain ⟨a', ha', ⟨rfl, -⟩ | ⟨rfl, -⟩⟩ := Table.exists_mem_updateIf
      (p := fun a : AlertRow => a.incidentID = id ∧ a.dedupeKey = alert.dedupeKey)
      (f := fun a => { a with status := .firing, lastSeenAt := now, resolvedAt := none }) ha
    · exact ⟨_, ha', rfl, rfl, hfiring⟩
    · exact ⟨_, ha', rfl, rfl, rfl⟩
  · exact ⟨a, List.mem_append_left _ ha, rfl, rfl, hfiring⟩

/-- Exactly these alerts are attached from one state to another. -/
structure Attaches (v v' : View) (attached : List Attachment) : Prop where
  recorded : ∀ x ∈ attached, x.Recorded
  signals : v'.db.signals = v.db.signals ++ attached.map (·.signal)
  timeline : ∃ events, v'.db.timeline = v.db.timeline ++ events ∧
    events.filter (·.ofAttachment) = attached.map (·.event)
  fires : ∀ x ∈ attached, v'.db.FiresOn x.alert.dedupeKey x.incident.id
  keeps : ∀ key id, v.db.FiresOn key id → v'.db.FiresOn key id

variable {stats' : IngestionStats} {xs ys : List Attachment} {resolved : List NormalizedAlert}
  {v₁ : View}

namespace Attaches

theorem of_same (hsignals : v'.db.signals = v.db.signals)
    (htimeline : v'.db.timeline = v.db.timeline) (halerts : v'.db.alerts = v.db.alerts) :
    Attaches v v' [] := by
  refine ⟨by simp, by simp [hsignals], ⟨[], by simp [htimeline], rfl⟩, by simp, fun key id h => ?_⟩
  unfold Db.FiresOn
  rw [halerts]
  exact h

theorem trans (h : Attaches v v₁ xs) (h' : Attaches v₁ v' ys) : Attaches v v' (xs ++ ys) := by
  obtain ⟨events, htimeline, hevents⟩ := h.timeline
  obtain ⟨events', htimeline', hevents'⟩ := h'.timeline
  refine ⟨fun x hx => ?_, ?_, ⟨events ++ events', ?_, ?_⟩, fun x hx => ?_, fun key id hf => ?_⟩
  · rcases List.mem_append.mp hx with hx | hx
    · exact h.recorded x hx
    · exact h'.recorded x hx
  · rw [h'.signals, h.signals, List.map_append, List.append_assoc]
  · rw [htimeline', htimeline, List.append_assoc]
  · rw [List.filter_append, hevents, hevents', List.map_append]
  · rcases List.mem_append.mp hx with hx | hx
    · exact h'.keeps _ _ (h.fires x hx)
    · exact h'.fires x hx
  · exact h'.keeps key id (h.keeps key id hf)

end Attaches

variable {incident : IncidentRow}

theorem Attached.attaches {observation : Observation}
    (h : Attached v v' incident.id alert observation)
    (hsuppressed : observation.suppressed = decide (alert.service ≠ incident.service)) :
    ∃ x, x.alert = alert ∧ x.incident = incident ∧ Attaches v v' [x] := by
  obtain ⟨sid, sat, hsignals⟩ := h.signals
  obtain ⟨refired, eid, eat, htimeline, hrefired⟩ := h.timeline
  let x : Attachment :=
    { alert := alert
      incident := incident
      signal := { attachedSignal incident.id alert observation with id := sid, createdAt := sat }
      event := { attachedEvent incident.id alert observation with id := eid, createdAt := eat } }
  have hrecorded : x.Recorded := ⟨observation, sid, sat, eid, eat, hsuppressed, rfl, rfl⟩
  refine ⟨x, rfl, rfl, fun y hy => ?_, hsignals, ⟨refired ++ [x.event], htimeline, ?_⟩,
    fun y hy => ?_, fun key id hf => ?_⟩
  · rw [List.mem_singleton.mp hy]
    exact hrecorded
  · -- an alert that fires again has an event of its own type
    have hnil : refired.filter (·.ofAttachment) = [] := by
      rw [List.filter_eq_nil_iff]
      intro e he
      simp [TimelineEvent.ofAttachment, (hrefired.forall_mem e he).1]
    rw [List.filter_append, hnil]
    simp [hrecorded.ofAttachment]
  · rw [List.mem_singleton.mp hy]
    unfold Db.FiresOn
    rw [h.alerts]
    obtain ⟨a, ha, hid, hkey, hfiring, -⟩ := fireRows_fires v.now incident.id alert v.db.alerts
    exact ⟨a, ha, hid, hkey, hfiring⟩
  · obtain ⟨a, ha, hid, hkey, hfiring⟩ := hf
    unfold Db.FiresOn
    rw [h.alerts]
    obtain ⟨a', ha', hid', hkey', hfiring'⟩ := fireRows_keeps ha hfiring
    exact ⟨a', ha', hid'.trans hid, hkey'.trans hkey, hfiring'⟩

theorem AttachedAll.attaches {rootInferred : Bool} {group : List NormalizedAlert}
    (h : AttachedAll incident.id (observe graph incident rootInferred) group v v') :
    ∃ xs : List Attachment, xs.map (·.alert) = group ∧ (∀ x ∈ xs, x.incident = incident) ∧
      Attaches v v' xs ∧ v'.db.incidents.map (·.id) = v.db.incidents.map (·.id) := by
  induction h with
  | nil => exact ⟨[], rfl, by simp, .of_same rfl rfl rfl, rfl⟩
  | cons hfirst _ ih =>
    obtain ⟨x, rfl, hx, hattaches⟩ := hfirst.attaches rfl
    obtain ⟨xs, hmap, hincident, hrest, hids⟩ := ih
    refine ⟨x :: xs, by rw [List.map_cons, hmap], fun y hy => ?_, hattaches.trans hrest, ?_⟩
    · rcases List.mem_cons.mp hy with rfl | hy
      · exact hx
      · exact hincident y hy
    · rw [hids, hfirst.incidents]
      exact map_id_of_map_place (place_touchRows ..)

/-! ## Groups -/

variable {grouping : Grouping}

/-- The counts of the attachments that are suppressed. -/
def suppressedCount (attached : List Attachment) : ℕ :=
  (attached.filter fun x => x.alert.service ≠ x.incident.service).length

theorem suppressedCount_append (xs ys : List Attachment) :
    suppressedCount (xs ++ ys) = suppressedCount xs + suppressedCount ys := by
  simp [suppressedCount]

theorem suppressedCount_eq (h : ∀ x ∈ xs, x.incident = incident) :
    suppressedCount xs = suppressedBehind incident (xs.map (·.alert)) := by
  unfold suppressedCount suppressedBehind
  rw [List.filter_map, List.length_map]
  congr 1
  exact List.filter_congr fun x hx => by simp [h x hx]

/-- What the loop over the groups has done, from its start to the present. -/
structure Progressed (v v' : View) (progress progress' : Progress) (attached : List Attachment) :
    Prop where
  attaches : Attaches v v' attached
  incidents : ∀ i ∈ progress.incidents, i ∈ progress'.incidents
  result : ∀ x ∈ attached, x.incident ∈ progress'.incidents
  opened : ∀ j ∈ v'.db.incidents, (∃ i ∈ v.db.incidents, i.id = j.id) ∨
    ∃ x ∈ attached, x.incident.id = j.id
  suppressed : progress'.stats.suppressedAlertCount =
    progress.stats.suppressedAlertCount + suppressedCount attached
  alertCount : progress'.stats.alertCount = progress.stats.alertCount
  resolved : progress'.stats.resolvedAlerts = progress.stats.resolvedAlerts
  unmatched : progress'.stats.unmatchedResolvedAlerts = progress.stats.unmatchedResolvedAlerts

theorem Progressed.refl (v : View) (progress : Progress) : Progressed v v progress progress [] :=
  ⟨.of_same rfl rfl rfl, fun _ h => h, by simp, fun j hj => .inl ⟨j, hj, rfl⟩, by
    simp [suppressedCount], rfl, rfl, rfl⟩

variable {progress progress' : Progress}

theorem Progressed.trans {progress₁ : Progress} (h : Progressed v v₁ progress progress₁ xs)
    (h' : Progressed v₁ v' progress₁ progress' ys) :
    Progressed v v' progress progress' (xs ++ ys) := by
  refine ⟨h.attaches.trans h'.attaches, fun i hi => h'.incidents i (h.incidents i hi), fun x hx => ?_,
    fun j hj => ?_, ?_, h'.alertCount.trans h.alertCount, h'.resolved.trans h.resolved,
    h'.unmatched.trans h.unmatched⟩
  · rcases List.mem_append.mp hx with hx | hx
    · exact h'.incidents _ (h.result x hx)
    · exact h'.result x hx
  · rcases h'.opened j hj with ⟨i, hi, hid⟩ | ⟨y, hy, hid⟩
    · rcases h.opened i hi with ⟨i', hi', hid'⟩ | ⟨x, hx, hid'⟩
      · exact .inl ⟨i', hi', hid'.trans hid⟩
      · exact .inr ⟨x, List.mem_append_left _ hx, hid'.trans hid⟩
    · exact .inr ⟨y, List.mem_append_right _ hy, hid⟩
  · rw [h'.suppressed, h.suppressed, suppressedCount_append]
    omega

theorem Grouped.progressed {group : Group}
    (h : Grouped grouping graph alerts group progress progress' v v') :
    ∃ xs : List Attachment, xs.map (·.alert) = alertsForGroup alerts group ∧
      Progressed v v' progress progress' xs := by
  cases h with
  | empty hnone hprogress hview =>
    rw [hprogress, hview]
    exact ⟨[], hnone.symm, .refl v progress⟩
  | @attached first rest incident origin rootInferred v₁ v₂ h =>
    obtain ⟨xs, hmap, hincident, hattaches, hids⟩ := h.attached.attaches
    have hothers := h.found.others.trans h.same.toSameOthers
    -- the group has an alert, so its incident has an attachment
    obtain ⟨x, hx⟩ : ∃ x, x ∈ xs := by
      cases xs with
      | nil => cases hmap
      | cons x xs => exact ⟨x, List.mem_cons_self⟩
    refine ⟨xs, hmap.trans h.some.symm, ?_, fun i hi => ?_, fun x hx => ?_, fun j hj => ?_, ?_, ?_,
      ?_, ?_⟩
    · exact (Attaches.of_same hothers.signals hothers.timeline hothers.alerts).trans hattaches
    · exact h.incidents ▸ List.mem_append_left _ hi
    · rw [h.incidents, hincident x hx]
      exact List.mem_append_right _ (List.mem_singleton_self _)
    · have hj' : j.id ∈ v₂.db.incidents.map (·.id) := hids ▸ List.mem_map_of_mem hj
      obtain ⟨k, hk, hkid⟩ := List.mem_map.mp hj'
      rcases h.found.rows.2 k (h.same.incidents ▸ hk) with ⟨i, hi, hid, -⟩ | ⟨-, -, hid⟩
      · exact .inl ⟨i, hi, hid.trans hkid⟩
      · exact .inr ⟨x, hx, by rw [hincident x hx, ← hid, hkid]⟩
    · rw [h.stats, suppressedCount_eq hincident, hmap]
    · rw [h.stats]
      rfl
    · rw [h.stats]
      rfl
    · rw [h.stats]
      rfl

theorem GroupedAll.progressed {groups : List Group}
    (h : GroupedAll grouping graph alerts groups progress progress' v v') :
    ∃ xs : List Attachment, xs.map (·.alert) = groups.flatMap (alertsForGroup alerts) ∧
      Progressed v v' progress progress' xs := by
  induction h with
  | nil => exact ⟨[], rfl, .refl _ _⟩
  | cons hfirst _ ih =>
    obtain ⟨xs, hxs, hprogressed⟩ := hfirst.progressed
    obtain ⟨ys, hys, hrest⟩ := ih
    exact ⟨xs ++ ys, by rw [List.map_append, hxs, hys, List.flatMap_cons],
      hprogressed.trans hrest⟩

/-! ## Resolved notifications -/

variable {stats : IngestionStats}

/-- A resolved notification is counted once; it opens no incident, and writes nothing if it is
unmatched. -/
theorem resolveAlert_counted {actor : String}
    (h : (resolveAlert grouping actor stats alert).Runs Eq v stats' v') :
    (stats' = { stats with unmatchedResolvedAlerts := stats.unmatchedResolvedAlerts + 1 } ∧
        v'.db = v.db) ∨
      (stats' = { stats with resolvedAlerts := stats.resolvedAlerts + 1 } ∧
        v'.db.incidents.map (·.id) = v.db.incidents.map (·.id)) := by
  rcases resolveAlert_runs h with ⟨hdb, -, -, hstats⟩ | ⟨i, -, -, -, hresolved, hstats⟩
  · exact .inl ⟨hstats, hdb⟩
  · refine .inr ⟨hstats, ?_⟩
    rw [hresolved.incidents]
    exact map_id_of_map_place (place_touchRows ..)

/-- What resolved notifications do: those that match an incident get a signal each. -/
structure Notified (v v' : View) (stats stats' : IngestionStats)
    (matched unmatched : List NormalizedAlert) (notices : List Signal) : Prop where
  signals : v'.db.signals = v.db.signals ++ notices
  origin : notices.map (·.origin) = matched
  timeline : ∃ events, v'.db.timeline = v.db.timeline ++ events ∧
    ∀ e ∈ events, TimelineEvent.ofAttachment e = false
  ids : v'.db.incidents.map (·.id) = v.db.incidents.map (·.id)
  stats : stats' =
    { stats with
      resolvedAlerts := stats.resolvedAlerts + matched.length
      unmatchedResolvedAlerts := stats.unmatchedResolvedAlerts + unmatched.length }

theorem ResolvedAll.notified {staleAfter : Time}
    (h : ResolvedAll staleAfter resolved stats stats' v v') :
    ∃ matched unmatched notices, (matched ++ unmatched).Perm resolved ∧
      Notified v v' stats stats' matched unmatched notices := by
  induction h with
  | nil => exact ⟨[], [], [], .nil, by simp, rfl, ⟨[], by simp, by simp⟩, rfl, rfl⟩
  | @unmatched alert alerts stats stats' v v₁ v' hdb _ _ _ ih =>
    obtain ⟨matched, unmatched, notices, hperm, hnotified⟩ := ih
    refine ⟨matched, alert :: unmatched, notices,
      List.perm_middle.trans (hperm.cons alert), ?_, hnotified.origin, ?_, ?_, ?_⟩
    · rw [hnotified.signals, hdb]
    · rw [← hdb]
      exact hnotified.timeline
    · rw [hnotified.ids, hdb]
    · rw [hnotified.stats, List.length_cons]
      simp only [IngestionStats.mk.injEq, true_and]
      omega
  | @matched alert alerts stats stats' v v₁ v' i _ _ _ hresolved _ ih =>
    obtain ⟨matched, unmatched, notices, hperm, hnotified⟩ := ih
    obtain ⟨resolvedAt, id, at_, hsignals⟩ := hresolved.signals
    obtain ⟨events, htimeline, hevents⟩ := hresolved.events
    obtain ⟨events', htimeline', hevents'⟩ := hnotified.timeline
    refine ⟨alert :: matched, unmatched,
      { resolvedSignal i.id alert resolvedAt with id := id, createdAt := at_ } :: notices,
      hperm.cons alert, ?_, ?_, ⟨events ++ events', ?_, fun e he => ?_⟩, ?_, ?_⟩
    · rw [hnotified.signals, hsignals, List.append_assoc]
      rfl
    · rw [List.map_cons, hnotified.origin]
      rfl
    · rw [htimeline', htimeline, List.append_assoc]
    · rcases List.mem_append.mp he with he | he
      · rcases (hevents e he).2 with htype | htype <;> simp [TimelineEvent.ofAttachment, htype]
      · exact hevents' e he
    · rw [hnotified.ids, hresolved.incidents]
      exact map_id_of_map_place (place_touchRows ..)
    · rw [hnotified.stats, List.length_cons]
      simp only [IngestionStats.mk.injEq, true_and, and_true]
      omega

/-! ## The whole delivery -/

/-- A successful delivery accounts for each of its alerts. -/
structure Exact (payload : Webhook) (db db' : Db) (result : IngestionResult)
    (firing resolved : List NormalizedAlert) (attached : List Attachment)
    (matched unmatched : List NormalizedAlert) (notices : List Signal) : Prop where
  /-- the firing alerts of the payload, normalized -/
  normalizedFiring : List.Forall₂ (NormalizedFrom payload)
    (payload.alerts.filter fun a => !isResolved payload a) firing
  /-- the resolved alerts of the payload, normalized -/
  normalizedResolved : List.Forall₂ (NormalizedFrom payload)
    (payload.alerts.filter fun a => isResolved payload a) resolved
  /-- every firing alert is attached once -/
  once : (attached.map (·.alert)).Perm firing
  /-- its signal and its event are on one incident of the result, on which it fires -/
  recorded : ∀ x ∈ attached, x.Recorded ∧ x.incident ∈ result.incidents ∧
    db'.FiresOn x.alert.dedupeKey x.incident.id
  /-- no other signals are added than those and the ones of the matched notifications -/
  signals : db'.signals = db.signals ++ (notices ++ attached.map (·.signal))
  /-- no other events of attached alerts are added -/
  timeline : ∃ events, db'.timeline = db.timeline ++ events ∧
    events.filter (·.ofAttachment) = attached.map (·.event)
  alertCount : result.stats.alertCount = firing.length
  suppressedAlertCount : result.stats.suppressedAlertCount =
    (attached.filter fun x => x.alert.service ≠ x.incident.service).length
  /-- every resolved alert is counted once -/
  counted : (matched ++ unmatched).Perm resolved
  resolvedAlerts : result.stats.resolvedAlerts = matched.length
  unmatchedResolvedAlerts : result.stats.unmatchedResolvedAlerts = unmatched.length
  noticed : notices.map (·.origin) = matched
  /-- a new incident is that of a firing alert -/
  opened : ∀ j ∈ db'.incidents, (∃ i ∈ db.incidents, i.id = j.id) ∨
    ∃ x ∈ attached, x.incident.id = j.id

theorem Ingested.exact {payload : Webhook} {result : IngestionResult} {v₂ : View}
    (h : Ingested grouping payload v v' result alerts resolved v₁ v₂ stats) :
    ∃ firing resolved attached matched unmatched notices,
      Exact payload v.db v'.db result firing resolved attached matched unmatched notices := by
  obtain ⟨firing, hfiring, hperm⟩ := h.split.firing
  obtain ⟨resolved', hresolved, hperm'⟩ := h.split.resolving
  obtain ⟨matched, unmatched, notices, hcounted, hnotified⟩ := h.resolution.notified
  have hnamed : ∀ a ∈ alerts, a.service ≠ "" := fun a ha => by
    obtain ⟨alert, -, t, rfl, -⟩ := Table.exists_of_forall₂ hfiring (hperm.mem_iff.mp ha)
    exact (keyed_normalize payload alert t).named
  have hstart : ∃ xs : List Attachment, (xs.map (·.alert)).Perm alerts ∧
      Progressed v₂ v' ⟨[], [], stats⟩ ⟨result.incidents, [], result.stats⟩ xs := by
    rcases h.attachment with ⟨hnil, hview, hresult⟩ | ⟨openIncidents, v₃, progress, hsame, -, hall,
      hresult⟩
    · rw [hnil, hview, hresult]
      exact ⟨[], .nil, .refl _ _⟩
    · obtain ⟨xs, hxs, hprogressed⟩ := hall.progressed
      refine ⟨xs, hxs ▸ perm_alertsForGroup hnamed, ?_⟩
      rw [hresult]
      refine ⟨?_, hprogressed.incidents, hprogressed.result, ?_, hprogressed.suppressed,
        hprogressed.alertCount, hprogressed.resolved, hprogressed.unmatched⟩
      · exact (Attaches.of_same hsame.signals hsame.timeline hsame.alerts).trans
          hprogressed.attaches
      · rw [← hsame.incidents]
        exact hprogressed.opened
  obtain ⟨xs, hxs, hprogressed⟩ := hstart
  obtain ⟨events, htimeline, hevents⟩ := hprogressed.attaches.timeline
  obtain ⟨events', htimeline', hevents'⟩ := hnotified.timeline
  refine ⟨firing, resolved', xs, matched, unmatched, notices, hfiring, hresolved, hxs.trans hperm,
    fun x hx => ?_, ?_, ⟨events' ++ events, ?_, ?_⟩, ?_, ?_, hcounted.trans hperm', ?_, ?_,
    hnotified.origin, fun j hj => ?_⟩
  · exact ⟨hprogressed.attaches.recorded x hx, hprogressed.result x hx,
      hprogressed.attaches.fires x hx⟩
  · rw [hprogressed.attaches.signals, hnotified.signals, h.registered.signals, List.append_assoc]
  · rw [htimeline, htimeline', h.registered.timeline, List.append_assoc]
  · have hnil : events'.filter (·.ofAttachment) = [] := by
      rw [List.filter_eq_nil_iff]
      intro e he
      rw [hevents' e he]
      decide
    rw [List.filter_append, hnil, hevents]
    rfl
  · have hcount : result.stats.alertCount = alerts.length := by
      rw [hprogressed.alertCount, hnotified.stats]
      rfl
    rw [hcount, hperm.length_eq]
  · have hcount : result.stats.suppressedAlertCount = 0 + suppressedCount xs := by
      rw [hprogressed.suppressed, hnotified.stats]
      rfl
    rw [hcount, Nat.zero_add]
    rfl
  · have hcount : result.stats.resolvedAlerts = 0 + matched.length := by
      rw [hprogressed.resolved, hnotified.stats]
      rfl
    rw [hcount, Nat.zero_add]
  · have hcount : result.stats.unmatchedResolvedAlerts = 0 + unmatched.length := by
      rw [hprogressed.unmatched, hnotified.stats]
      rfl
    rw [hcount, Nat.zero_add]
  · rcases hprogressed.opened j hj with ⟨i, hi, hid⟩ | hx
    · have hi' : i.id ∈ v.db.incidents.map (·.id) := by
        rw [← h.registered.incidents, ← hnotified.ids]
        exact List.mem_map_of_mem hi
      obtain ⟨k, hk, hkid⟩ := List.mem_map.mp hi'
      exact .inl ⟨k, hk, hkid.trans hid⟩
    · exact .inr hx

end Argus.Incidents

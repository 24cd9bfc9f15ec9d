import Argus.Incidents.FiringOnce
import Mathlib.Logic.Relation

/-!
# When the alerts of an incident have cleared

`alerts_cleared_at` is set by the notification that leaves no fresh alert firing, and reset by every
alert that fires. A delivery is a sequence of moves, one for each alert and one for each incident
that is opened or promoted, and every move keeps the flag truthful: an incident whose alerts have
all resolved has it, and an alert that fires under it was stale when it was set.
-/

namespace Argus.Incidents

open Relation (ReflTransGen)
open Topology

variable {v v' w : View} {staleAfter : Time}

/-! ## Moves -/

/-- The timeline events written when an alert fires on an incident: whether its alerts had cleared
before decides about the first. -/
def FiredEvents (cleared : Bool) (id : String) (events : List TimelineEvent) : Prop :=
  ∃ refired event, events = refired ++ [event] ∧ event.eventType ≠ .alertsRefired ∧
    if cleared then
      ∃ e : TimelineEvent, refired = [e] ∧ e.eventType = .alertsRefired ∧ e.incidentID = id
    else refired = []

/-- What a delivery does in one go to incidents, alerts and the timeline. -/
inductive Move (staleAfter : Time) (v w : View) : Prop
  /-- Nothing that `alerts_cleared_at` depends on. -/
  | rewritten (f : IncidentRow → IncidentRow) (hid : ∀ i, (f i).id = i.id)
      (hcleared : ∀ i, (f i).alertsClearedAt = i.alertsClearedAt)
      (hincidents : w.db.incidents = v.db.incidents.map f)
      (halerts : w.db.alerts = v.db.alerts) (htimeline : w.db.timeline = v.db.timeline)
  /-- A new incident. -/
  | created (i : IncidentRow) (hfresh : v.db.hasIncident i.id = false)
      (hcleared : i.alertsClearedAt = none) (hincidents : w.db.incidents = v.db.incidents ++ [i])
      (halerts : w.db.alerts = v.db.alerts) (htimeline : w.db.timeline = v.db.timeline)
  /-- A resolved notification: the flag is set if no fresh alert is left that fires. -/
  | resolved (id key : String) (resolvedAt : Time) (events : List TimelineEvent)
      (halerts : w.db.alerts = resolveRows v.now id key resolvedAt v.db.alerts)
      (hincidents : w.db.incidents = touchRows v.now id (fun i =>
        if w.db.stillFiring v.now id staleAfter = 0 ∧ i.alertsClearedAt = none then some v.now
        else i.alertsClearedAt) v.db.incidents)
      (htimeline : w.db.timeline = v.db.timeline ++ events)
      (hevents : ∀ e ∈ events, e.eventType ≠ .alertsRefired)
  /-- A firing alert: the flag is reset. -/
  | fired (id : String) (alert : NormalizedAlert) (events : List TimelineEvent)
      (hknown : v.db.hasIncident id = true)
      (halerts : w.db.alerts = fireRows v.now id alert v.db.alerts)
      (hincidents : w.db.incidents = touchRows v.now id (fun _ => none) v.db.incidents)
      (htimeline : w.db.timeline = v.db.timeline ++ events)
      (hevents : FiredEvents (v.db.clearedAt id).isSome id events)

theorem SameRows.move (h : SameRows v w) : Move staleAfter v w :=
  .rewritten id (fun _ => rfl) (fun _ => rfl) (by rw [h.incidents, List.map_id]) h.alerts h.timeline

variable {incidentID : String} {alert : NormalizedAlert} {observation : Observation}

theorem Attached.move (h : Attached v w incidentID alert observation) : Move staleAfter v w := by
  obtain ⟨refired, id, at_, htimeline, hrefired⟩ := h.timeline
  refine .fired incidentID alert _ h.known h.alerts h.incidents htimeline
    ⟨refired, _, rfl, ?_, hrefired⟩
  dsimp only [attachedEvent]
  split <;> decide

variable {id : String}

theorem Resolved.move (h : Resolved staleAfter v w id alert) : Move staleAfter v w := by
  obtain ⟨resolvedAt, halerts⟩ := h.alerts
  obtain ⟨events, htimeline, hevents⟩ := h.events
  refine .resolved id alert.dedupeKey resolvedAt events halerts h.incidents htimeline
    fun e he => ?_
  rcases (hevents e he).2 with htype | htype <;> rw [htype] <;> decide

variable {i : IncidentRow} {grouping : Grouping} {graph : Graph} {group : Group}
  {root : NormalizedAlert} {openIncidents : List IncidentRow} {origin : Origin}

/-- How a group comes by its incident is one move. -/
theorem Found.move (h : Found grouping graph group root openIncidents v w i origin) :
    Move staleAfter v w := by
  cases h with
  | exact _ _ _ _ hsame | related _ _ _ _ hsame => exact hsame.move
  | @promoted old _ _ _ _ _ _ hothers hincidents _ =>
    refine .rewritten (fun i => if i.id = old.id then
      IncidentRow.promote v.now (rootOf group root) i else i) ?_ ?_ hincidents hothers.alerts
      hothers.timeline
    · intro i
      split <;> rfl
    · intro i
      split <;> rfl
  | created _ hfresh hothers hincidents =>
    exact .created _ hfresh rfl hincidents hothers.alerts hothers.timeline

/-! ## The steps of a delivery -/

/-- A relation that holds of every single write for the firing alerts of a delivery. -/
structure Covers (r : View → View → Prop) : Prop where
  same : ∀ {v w : View}, SameRows v w → r v w
  found : ∀ {v w : View} {grouping : Grouping} {graph : Graph} {group : Group}
    {root : NormalizedAlert} {openIncidents : List IncidentRow} {i : IncidentRow} {origin : Origin},
    Found grouping graph group root openIncidents v w i origin → r v w
  attach : ∀ {v w : View} {incidentID : String} {alert : NormalizedAlert}
    {observation : Observation}, Attached v w incidentID alert observation → r v w

variable {f : IncidentRow → IncidentRow} {result : IngestionResult}
  {resolved : List NormalizedAlert} {payload : Webhook}

section

variable {r : View → View → Prop} {alerts : List NormalizedAlert}

theorem AttachedAll.steps {observation : NormalizedAlert → Observation} (hr : Covers r)
    (h : AttachedAll incidentID observation alerts v w) : ReflTransGen r v w := by
  induction h with
  | nil => exact .refl
  | cons hfirst _ ih => exact .head (hr.attach hfirst) ih

/-- The firing alerts of a delivery are attached in steps. -/
theorem GroupedAll.steps {groups : List Group} {progress progress' : Progress} (hr : Covers r)
    (h : GroupedAll grouping graph alerts groups progress progress' v w) : ReflTransGen r v w := by
  induction h with
  | nil => exact .refl
  | cons hfirst _ ih =>
    cases hfirst with
    | empty _ _ hview => exact hview ▸ ih
    | attached hturn =>
      exact .head (hr.found hturn.found)
        (.head (hr.same hturn.same) ((hturn.attached.steps hr).trans ih))

/-- After the resolved notifications, a delivery goes on in steps. -/
theorem Ingested.steps {v₁ v₂ : View} {stats : IngestionStats} (hr : Covers r)
    (h : Ingested grouping payload v w result alerts resolved v₁ v₂ stats) :
    ReflTransGen r v₂ w := by
  rcases h.attachment with ⟨-, rfl, -⟩ | ⟨openIncidents, v₃, progress, hsame, -, hall, -⟩
  · exact .refl
  · exact .head (hr.same hsame) (hall.steps hr)

end

theorem move_covers (staleAfter : Time) : Covers (Move staleAfter) :=
  ⟨SameRows.move, Found.move, Attached.move⟩

theorem ResolvedAll.moves {stats stats' : IngestionStats}
    (h : ResolvedAll staleAfter resolved stats stats' v w) :
    ReflTransGen (Move staleAfter) v w := by
  induction h with
  | nil => exact .refl
  | unmatched hdb hnow _ _ ih => exact .head (SameRows.of_db hdb hnow).move ih
  | matched _ _ _ hresolved _ ih => exact .head hresolved.move ih

/-! ## Truthfulness -/

/-- What `alerts_cleared_at` of an incident says about its alerts: it is set where all have
resolved, and where it is set those that still fire were stale. -/
structure Honest (staleAfter : Time) (alerts : List AlertRow) (id : String)
    (cleared : Option Time) : Prop where
  resolved : (∃ a ∈ alerts, a.incidentID = id) →
    (∀ a ∈ alerts, a.incidentID = id → a.status = .resolved) → cleared ≠ none
  stale : ∀ t, cleared = some t → ∀ a ∈ alerts, a.incidentID = id → a.status = .firing →
    a.lastSeenAt < t - staleAfter

structure Db.Truthful (staleAfter : Time) (db : Db) : Prop where
  housed : ∀ a ∈ db.alerts, db.hasIncident a.incidentID = true
  honest : ∀ i ∈ db.incidents, Honest staleAfter db.alerts i.id i.alertsClearedAt

section

variable {alerts alerts' : List AlertRow} {now : Time} {id key : String} {resolvedAt : Time}
  {cleared : Option Time}

theorem Honest.of_same (hsame : ∀ a : AlertRow, a.incidentID = id → (a ∈ alerts' ↔ a ∈ alerts))
    (h : Honest staleAfter alerts id cleared) : Honest staleAfter alerts' id cleared where
  resolved := by
    rintro ⟨a, ha, hid⟩ hall
    exact h.resolved ⟨a, (hsame a hid).mp ha, hid⟩ fun b hb hbid =>
      hall b ((hsame b hbid).mpr hb) hbid
  stale t ht a ha hid := h.stale t ht a ((hsame a hid).mp ha) hid

variable {a : AlertRow}

/-- A resolved notification touches the rows of its incident only. -/
theorem mem_resolveRows_iff (ha : a.incidentID ≠ id) :
    a ∈ resolveRows now id key resolvedAt alerts ↔ a ∈ alerts := by
  unfold resolveRows
  exact Table.mem_updateIf_iff_of_not (by exact fun _ hr => hr) (by exact fun hr => ha hr.1)

theorem mem_fireRows_iff {alert : NormalizedAlert} (ha : a.incidentID ≠ id) :
    a ∈ fireRows now id alert alerts ↔ a ∈ alerts := by
  unfold fireRows
  split
  · exact Table.mem_updateIf_iff_of_not (by exact fun _ hr => hr) (by exact fun hr => ha hr.1)
  · rw [List.mem_append, List.mem_singleton]
    refine or_iff_left ?_
    rintro rfl
    exact ha rfl

/-- What still fires when no fresh alert does is stale. -/
theorem Db.lt_of_stillFiring_eq_zero {db : Db} (h : db.stillFiring now id staleAfter = 0)
    (ha : a ∈ db.alerts) (hid : a.incidentID = id) (hfiring : a.status = .firing) :
    a.lastSeenAt < now - staleAfter := by
  by_contra hfresh
  refine List.filter_eq_nil_iff.mp (List.length_eq_zero_iff.mp h) a ha ?_
  rw [hid, hfiring, decide_eq_true (Int.not_lt.mp hfresh)]
  simp

/-- An alert that still fires fired before. -/
theorem mem_of_firing_resolveRows (ha : a ∈ resolveRows now id key resolvedAt alerts)
    (hfiring : a.status = .firing) : a ∈ alerts := by
  rcases mem_resolveRows ha with ⟨hrow, -⟩ | ⟨hresolved, -⟩
  · exact hrow
  · rw [hresolved] at hfiring
    cases hfiring

theorem Honest.resolveRows (h : Honest staleAfter alerts id cleared) {db : Db}
    (halerts : db.alerts = resolveRows now id key resolvedAt alerts) :
    Honest staleAfter db.alerts id
      (if db.stillFiring now id staleAfter = 0 ∧ cleared = none then some now else cleared) := by
  by_cases hset : db.stillFiring now id staleAfter = 0 ∧ cleared = none
  · rw [if_pos hset]
    refine ⟨fun _ _ => Option.some_ne_none now, fun t ht a ha hid hfiring => ?_⟩
    rw [← Option.some_inj.mp ht]
    exact db.lt_of_stillFiring_eq_zero hset.1 ha hid hfiring
  · rw [if_neg hset]
    refine ⟨fun _ hall hnone => hset ⟨?_, hnone⟩, fun t ht a ha hid hfiring => ?_⟩
    · -- nothing fires at all
      refine List.length_eq_zero_iff.mpr (List.filter_eq_nil_iff.mpr fun a ha hsel => ?_)
      simp only [Bool.and_eq_true, beq_iff_eq] at hsel
      have hresolved := hall a ha hsel.1.1
      rw [hsel.1.2] at hresolved
      cases hresolved
    · rw [halerts] at ha
      exact h.stale t ht a (mem_of_firing_resolveRows ha hfiring) hid hfiring

theorem Honest.fireRows (staleAfter now : Time) (id : String) (alert : NormalizedAlert)
    (alerts : List AlertRow) : Honest staleAfter (fireRows now id alert alerts) id none where
  resolved := by
    intro _ hall
    obtain ⟨a, ha, hid, -, hfiring, -⟩ := fireRows_fires now id alert alerts
    rw [hall a ha hid] at hfiring
    cases hfiring
  stale _ ht := by cases ht

end

variable {now : Time}

/-- The rows after a touch, with what they were. -/
theorem cleared_of_mem_touchRows {cleared : IncidentRow → Option Time} {rows : List IncidentRow}
    (hi : i ∈ touchRows now id cleared rows) :
    ∃ j ∈ rows, i.id = j.id ∧
      i.alertsClearedAt = if j.id = id then cleared j else j.alertsClearedAt := by
  obtain ⟨j, hj, rfl⟩ := List.mem_map.mp hi
  refine ⟨j, hj, ?_⟩
  split <;> exact ⟨rfl, rfl⟩

variable {db db' : Db}

theorem hasIncident_of_ids (h : db'.incidents.map (·.id) = db.incidents.map (·.id)) (id : String) :
    db'.hasIncident id = db.hasIncident id := by
  have hany (d : Db) : d.hasIncident id = (d.incidents.map (·.id)).any (· == id) := by
    rw [List.any_map]
    rfl
  rw [hany, hany, h]

theorem ids_touchRows (now : Time) (id : String) (cleared : IncidentRow → Option Time)
    (rows : List IncidentRow) :
    (touchRows now id cleared rows).map (·.id) = rows.map (·.id) := by
  unfold touchRows
  exact Table.map_updateIf (by exact fun _ => rfl) rows

theorem Db.Truthful.move (hv : v.db.Truthful staleAfter) (h : Move staleAfter v w) :
    w.db.Truthful staleAfter := by
  cases h with
  | rewritten f hid hcleared hincidents halerts htimeline =>
    refine ⟨fun a ha => ?_, fun i hi => ?_⟩
    · have hids : w.db.incidents.map (·.id) = v.db.incidents.map (·.id) := by
        rw [hincidents, List.map_map]
        exact List.map_congr_left fun i _ => hid i
      rw [hasIncident_of_ids hids]
      exact hv.housed a (halerts ▸ ha)
    · rw [hincidents] at hi
      obtain ⟨j, hj, rfl⟩ := List.mem_map.mp hi
      rw [halerts, hid, hcleared]
      exact hv.honest j hj
  | created i hfresh hcleared hincidents halerts htimeline =>
    refine ⟨fun a ha => ?_, fun j hj => ?_⟩
    · rw [Db.hasIncident, hincidents, List.any_append, Bool.or_eq_true]
      exact .inl (hv.housed a (halerts ▸ ha))
    · rw [halerts]
      rw [hincidents, List.mem_append, List.mem_singleton] at hj
      rcases hj with hj | rfl
      · exact hv.honest j hj
      · -- no alert is on an incident that did not exist
        refine ⟨?_, fun t ht => ?_⟩
        · rintro ⟨a, ha, hid⟩
          have hhoused := hv.housed a ha
          rw [hid, hfresh] at hhoused
          cases hhoused
        · rw [hcleared] at ht
          cases ht
  | resolved id key resolvedAt events halerts hincidents htimeline hevents =>
    refine ⟨fun a ha => ?_, fun i hi => ?_⟩
    · rw [hasIncident_of_ids (hincidents ▸ ids_touchRows ..)]
      rw [halerts] at ha
      rcases mem_resolveRows ha with ⟨hrow, -⟩ | ⟨-, hid, -, b, hb, hbid, -⟩
      · exact hv.housed a hrow
      · rw [hid, ← hbid]
        exact hv.housed b hb
    · rw [hincidents] at hi
      obtain ⟨j, hj, hid, hcleared⟩ := cleared_of_mem_touchRows hi
      rw [hid, hcleared]
      by_cases hsame : j.id = id
      · subst hsame
        rw [if_pos rfl]
        exact (hv.honest j hj).resolveRows halerts
      · rw [if_neg hsame]
        refine (hv.honest j hj).of_same fun a ha => ?_
        rw [halerts]
        exact mem_resolveRows_iff (ha ▸ hsame)
  | fired id alert events hknown halerts hincidents htimeline hevents =>
    refine ⟨fun a ha => ?_, fun i hi => ?_⟩
    · rw [hasIncident_of_ids (hincidents ▸ ids_touchRows ..)]
      by_cases hid : a.incidentID = id
      · rw [hid]
        exact hknown
      · rw [halerts] at ha
        exact hv.housed a ((mem_fireRows_iff hid).mp ha)
    · rw [hincidents] at hi
      obtain ⟨j, hj, hid, hcleared⟩ := cleared_of_mem_touchRows hi
      rw [hid, hcleared]
      by_cases hsame : j.id = id
      · subst hsame
        rw [if_pos rfl, halerts]
        exact .fireRows ..
      · rw [if_neg hsame]
        refine (hv.honest j hj).of_same fun a ha => ?_
        rw [halerts]
        exact mem_fireRows_iff (ha ▸ hsame)

theorem Db.Truthful.moves (hv : v.db.Truthful staleAfter)
    (h : ReflTransGen (Move staleAfter) v w) : w.db.Truthful staleAfter := by
  induction h with
  | refl => exact hv
  | tail _ hmove ih => exact ih.move hmove

/-! ## Alerts that fire again -/

/-- The `alerts_refired` events on an incident. -/
def refirings (id : String) (events : List TimelineEvent) : ℕ :=
  events.countP fun e => e.eventType == .alertsRefired && e.incidentID == id

/-- One `alerts_refired` event for the incident whose flag goes from set to NULL, and no other. -/
def Refires (v w : View) : Prop :=
  ∃ written, w.db.timeline = v.db.timeline ++ written ∧ ∀ id, refirings id written =
    if (v.db.clearedAt id).isSome ∧ w.db.clearedAt id = none then 1 else 0

section

variable {id : String} {events : List TimelineEvent}

theorem refirings_eq_zero (h : ∀ e ∈ events, e.eventType ≠ .alertsRefired) :
    refirings id events = 0 := by
  refine List.countP_eq_zero.mpr fun e he hsel => ?_
  rw [Bool.and_eq_true, beq_iff_eq] at hsel
  exact h e he hsel.1

/-- A move that resets no flag and writes no such event. -/
theorem Refires.of_kept (htimeline : w.db.timeline = v.db.timeline ++ events)
    (hevents : ∀ e ∈ events, e.eventType ≠ .alertsRefired)
    (hkept : ∀ id, (v.db.clearedAt id).isSome → (w.db.clearedAt id).isSome) : Refires v w := by
  refine ⟨events, htimeline, fun id => ?_⟩
  rw [refirings_eq_zero hevents, if_neg]
  rintro ⟨hset, hnone⟩
  have hstill := hkept id hset
  rw [hnone] at hstill
  cases hstill

theorem FiredEvents.refirings_eq {cleared : Bool} (h : FiredEvents cleared id events)
    (other : String) :
    refirings other events = if cleared = true ∧ id = other then 1 else 0 := by
  obtain ⟨refired, event, rfl, hevent, hrefired⟩ := h
  have hlast : refirings other [event] = 0 :=
    refirings_eq_zero fun e he => (List.mem_singleton.mp he) ▸ hevent
  have hsplit : refirings other (refired ++ [event]) = refirings other refired := by
    rw [refirings, List.countP_append]
    exact congrArg (refirings other refired + ·) hlast
  rw [hsplit]
  cases cleared with
  | false =>
    obtain rfl : refired = [] := hrefired
    simp [refirings]
  | true =>
    obtain ⟨e, rfl, htype, rfl⟩ :
        ∃ e : TimelineEvent, refired = [e] ∧ e.eventType = .alertsRefired ∧ e.incidentID = id :=
      hrefired
    simp [refirings, htype, List.countP_cons]

end

theorem find?_map_of_id (hid : ∀ i, (f i).id = i.id) (rows : List IncidentRow) (id : String) :
    (rows.map f).find? (·.id == id) = (rows.find? (·.id == id)).map f := by
  rw [List.find?_map]
  congr 2
  funext i
  rw [Function.comp_apply, hid]

/-- The flag after a touch. -/
theorem clearedAt_touchRows {cleared : IncidentRow → Option Time}
    (h : db'.incidents = touchRows now id cleared db.incidents) (other : String) :
    db'.clearedAt other = (db.incidents.find? (·.id == other)).bind fun i =>
      if i.id = id then cleared i else i.alertsClearedAt := by
  have hid : ∀ i : IncidentRow, (if i.id = id then
      { i with lastSeenAt := now, alertsClearedAt := cleared i } else i).id = i.id := by
    intro i
    split <;> rfl
  rw [Db.clearedAt, h, touchRows, Table.updateIf, find?_map_of_id hid, Option.bind_map]
  congr 1
  funext i
  rw [Function.comp_apply]
  split <;> rfl

/-- An update of other columns leaves the flags alone. -/
theorem clearedAt_map (hid : ∀ i, (f i).id = i.id)
    (hcleared : ∀ i, (f i).alertsClearedAt = i.alertsClearedAt)
    (h : db'.incidents = db.incidents.map f) (id : String) :
    db'.clearedAt id = db.clearedAt id := by
  rw [Db.clearedAt, h, find?_map_of_id hid, Option.bind_map, Db.clearedAt]
  congr 1
  exact funext hcleared

/-- A new incident has no flag. -/
theorem clearedAt_concat (hcleared : i.alertsClearedAt = none)
    (h : db'.incidents = db.incidents ++ [i]) (id : String) :
    db'.clearedAt id = db.clearedAt id := by
  rw [Db.clearedAt, h, List.find?_append, Db.clearedAt]
  cases hfind : db.incidents.find? (·.id == id) with
  | some j => rfl
  | none =>
    rw [Option.none_or, List.find?_singleton, Option.bind_none]
    split
    · exact hcleared
    · rfl

theorem Move.refires (h : Move staleAfter v w) : Refires v w := by
  cases h with
  | rewritten f hid hcleared hincidents halerts htimeline =>
    have hnothing : w.db.timeline = v.db.timeline ++ [] := by rw [htimeline, List.append_nil]
    refine .of_kept hnothing (by simp) fun id hset => ?_
    rwa [clearedAt_map hid hcleared hincidents]
  | created i hfresh hcleared hincidents halerts htimeline =>
    have hnothing : w.db.timeline = v.db.timeline ++ [] := by rw [htimeline, List.append_nil]
    refine .of_kept hnothing (by simp) fun id hset => ?_
    rwa [clearedAt_concat hcleared hincidents]
  | resolved id key resolvedAt events halerts hincidents htimeline hevents =>
    refine .of_kept htimeline hevents fun other hset => ?_
    obtain ⟨t, ht⟩ := Option.isSome_iff_exists.mp hset
    obtain ⟨j, hj, hjt⟩ := Option.bind_eq_some_iff.mp ht
    rw [clearedAt_touchRows hincidents, hj, Option.bind_some, hjt]
    split
    · rw [if_neg fun hnone => Option.some_ne_none t hnone.2]
      rfl
    · rfl
  | fired id alert events hknown halerts hincidents htimeline hevents =>
    refine ⟨events, htimeline, fun other => ?_⟩
    rw [hevents.refirings_eq, clearedAt_touchRows hincidents]
    refine if_congr ?_ rfl rfl
    constructor
    · rintro ⟨hset, rfl⟩
      refine ⟨hset, ?_⟩
      obtain ⟨t, ht⟩ := Option.isSome_iff_exists.mp hset
      obtain ⟨j, hj, -⟩ := Option.bind_eq_some_iff.mp ht
      rw [hj, Option.bind_some, if_pos (id_eq_of_find? hj)]
    · rintro ⟨hset, hnone⟩
      obtain ⟨t, ht⟩ := Option.isSome_iff_exists.mp hset
      obtain ⟨j, hj, hjt⟩ := Option.bind_eq_some_iff.mp ht
      have hjid := id_eq_of_find? hj
      rw [hj, Option.bind_some, hjt] at hnone
      split at hnone
      · rename_i hid
        rw [← hjid, hid] at hset
        exact ⟨hset, hid.symm.trans hjid⟩
      · cases hnone

/-! ## Histories -/

/-- A delivery that commits is a sequence of moves. -/
theorem moves_of_ingestAlertmanager {oracle : ℕ → Oracle}
    (h : ingestAlertmanager grouping payload actor now oracle db = .ok (result, db')) :
    ∃ v', v'.db = db' ∧ ReflTransGen (Move grouping.alertStaleAfter) (.start now db) v' := by
  obtain ⟨v', hdb, alerts, resolved, v₁, v₂, stats, hingested⟩ := ingested_of_ingestAlertmanager h
  exact ⟨v', hdb, .head hingested.registered.move
    (hingested.resolution.moves.trans (hingested.steps (move_covers _)))⟩

theorem Db.Truthful.transitionIncident (h : db.Truthful staleAfter) (now : Time) (id : String)
    (status : Status) : (db.transitionIncident now id status).Truthful staleAfter := by
  refine ⟨fun a ha => ?_, fun i hi => ?_⟩
  · have hids :
        (db.transitionIncident now id status).incidents.map (·.id) = db.incidents.map (·.id) := by
      unfold Db.transitionIncident
      exact Table.map_updateIf (by exact fun _ => rfl) db.incidents
    rw [hasIncident_of_ids hids]
    exact h.housed a ha
  · obtain ⟨j, hj, ⟨rfl, -⟩ | ⟨rfl, -⟩⟩ := Table.mem_updateIf hi
    · exact h.honest _ hj
    · exact h.honest j hj

theorem Db.Truthful.step (h : db.Truthful grouping.alertStaleAfter) (e : Event) :
    (db.step grouping e).Truthful grouping.alertStaleAfter := by
  cases e with
  | delivery payload actor now oracle =>
    change ((db.deliver grouping payload actor now oracle).2).Truthful _
    unfold Db.deliver
    split
    · exact h
    · rename_i hok
      obtain ⟨v', rfl, hmoves⟩ := moves_of_ingestAlertmanager hok
      exact Db.Truthful.moves (v := .start now db) h hmoves
  | transition id status now => exact h.transitionIncident now id status

theorem Db.Truthful.run (events : List Event) (h : db.Truthful grouping.alertStaleAfter) :
    (db.run grouping events).Truthful grouping.alertStaleAfter := by
  induction events generalizing db with
  | nil => exact h
  | cons e events ih => exact ih (h.step e)

theorem Db.Untouched.truthful (h : db.Untouched) : db.Truthful staleAfter := by
  refine ⟨fun a ha => ?_, fun i hi => ?_⟩
  · rw [h.alerts] at ha
    cases ha
  · rw [h.incidents] at hi
    cases hi

end Argus.Incidents

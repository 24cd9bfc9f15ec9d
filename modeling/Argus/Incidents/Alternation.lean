import Argus.Incidents.Clearing

/-!
# Clearing and refiring alternate

The notification that leaves no fresh alert firing sets `alerts_cleared_at` where it is NULL, but it
writes the `alerts_cleared` event and the audit entry in any case. A second event is written when
the flag is set already, which needs an alert that still fires under the flag: one that was stale
when the flag was set. As long as no stale alert is resolved (`Prompt`), every move writes what the
change of the flag calls for (`Marks`), and the events of an incident alternate.
-/

namespace Argus.Incidents

open Relation (ReflTransGen)
open Topology

variable {v w : View} {staleAfter : Time}

/-! ## What a change of the flag writes -/

/-- The `alerts_cleared` and `alerts_refired` events of an incident, in the order written. -/
def swings (id : String) (events : List TimelineEvent) : List EventType :=
  (events.filter fun e => e.incidentID == id &&
    (e.eventType == .alertsCleared || e.eventType == .alertsRefired)).map (·.eventType)

/-- The audit entries about cleared alerts of an incident. -/
def clearings (id : String) (entries : List AuditEntry) : ℕ :=
  entries.countP fun e => e.action == "incident.alerts_cleared" && e.resourceID == id

/-- The event for a change of the flag. -/
def swing : Option Time → Option Time → List EventType
  | none, some _ => [.alertsCleared]
  | some _, none => [.alertsRefired]
  | none, none => []
  | some _, some _ => []

@[simp] theorem swing_self (cleared : Option Time) : swing cleared cleared = [] := by
  cases cleared <;> rfl

/-- Every change of a flag, and nothing else, is written to the timeline and the audit log. -/
structure Marks (v w : View) : Prop where
  now : w.now = v.now
  timeline : ∃ events, w.db.timeline = v.db.timeline ++ events ∧
    ∀ id, swings id events = swing (v.db.clearedAt id) (w.db.clearedAt id)
  audit : ∃ entries, w.db.audit = v.db.audit ++ entries ∧ ∀ id, clearings id entries =
    if v.db.clearedAt id = none ∧ w.db.clearedAt id ≠ none then 1 else 0

theorem swings_append (id : String) (events events' : List TimelineEvent) :
    swings id (events ++ events') = swings id events ++ swings id events' := by
  rw [swings, List.filter_append, List.map_append]
  rfl

variable {id : String}
variable {i : IncidentRow} {cleared : IncidentRow → Option Time} {e : TimelineEvent}

theorem swings_other
    (h : e.incidentID ≠ id ∨ e.eventType ≠ .alertsCleared ∧ e.eventType ≠ .alertsRefired) :
    swings id [e] = [] := by
  rcases h with hid | ⟨hcleared, hrefired⟩
  · simp [swings, hid]
  · simp [swings, hcleared, hrefired]

theorem swings_own (hid : e.incidentID = id)
    (htype : e.eventType = .alertsCleared ∨ e.eventType = .alertsRefired) :
    swings id [e] = [e.eventType] := by
  rcases htype with htype | htype <;> simp [swings, hid, htype]

theorem Quiet.clearings_eq_zero {entries : List AuditEntry}
    (h : ∀ e ∈ entries, e.action ≠ "incident.alerts_cleared") (id : String) :
    clearings id entries = 0 := by
  refine List.countP_eq_zero.mpr fun e he hsel => ?_
  rw [Bool.and_eq_true, beq_iff_eq] at hsel
  exact h e he hsel.1

/-- A step that changes no flag and writes nothing about flags. -/
theorem Marks.of_kept (h : SameOthers v w) (hflags : ∀ id, w.db.clearedAt id = v.db.clearedAt id) :
    Marks v w := by
  refine ⟨h.now, ⟨[], by rw [h.timeline, List.append_nil], fun id => ?_⟩, ?_⟩
  · rw [hflags, swing_self]
    rfl
  · obtain ⟨entries, hentries, hother⟩ := h.quiet
    refine ⟨entries, hentries, fun id => ?_⟩
    rw [Quiet.clearings_eq_zero hother, hflags, if_neg fun h => h.2 h.1]

/-! ## The firing alerts of a delivery -/

variable {db db' : Db} {now : Time}

theorem clearedAt_touchRows_of_ne {other : String}
    (h : db'.incidents = touchRows now id cleared db.incidents) (hne : other ≠ id) :
    db'.clearedAt other = db.clearedAt other := by
  rw [clearedAt_touchRows h, Db.clearedAt]
  cases hfind : db.incidents.find? (·.id == other) with
  | none => rfl
  | some i =>
    rw [Option.bind_some, Option.bind_some,
      if_neg fun heq => hne ((id_eq_of_find? hfind).symm.trans heq)]

theorem clearedAt_touchRows_self (h : db'.incidents = touchRows now id cleared db.incidents)
    (hknown : db.hasIncident id = true) :
    ∃ i ∈ db.incidents, i.id = id ∧ db.clearedAt id = i.alertsClearedAt ∧
      db'.clearedAt id = cleared i := by
  cases hfind : db.incidents.find? (·.id == id) with
  | none =>
    obtain ⟨i, hi, hid⟩ := List.any_eq_true.mp hknown
    exact absurd hid (List.find?_eq_none.mp hfind i hi)
  | some i =>
    have hid := id_eq_of_find? hfind
    refine ⟨i, List.mem_of_find?_eq_some hfind, hid, ?_, ?_⟩
    · rw [Db.clearedAt, hfind, Option.bind_some]
    · rw [clearedAt_touchRows h, hfind, Option.bind_some, if_pos hid]

theorem SameRows.marks (h : SameRows v w) : Marks v w :=
  .of_kept h.toSameOthers fun id => by rw [Db.clearedAt, Db.clearedAt, h.incidents]

variable {grouping : Grouping}

theorem Found.marks {graph : Graph} {group : Group} {root : NormalizedAlert}
    {openIncidents : List IncidentRow} {origin : Origin}
    (h : Found grouping graph group root openIncidents v w i origin) : Marks v w := by
  cases h with
  | exact _ _ _ _ hsame | related _ _ _ _ hsame => exact hsame.marks
  | promoted _ _ _ _ _ hothers hincidents _ =>
    refine .of_kept hothers (clearedAt_map (fun i => ?_) (fun i => ?_) hincidents)
    · split <;> rfl
    · split <;> rfl
  | created _ _ hothers hincidents => exact .of_kept hothers (clearedAt_concat rfl hincidents)

theorem Attached.marks {incidentID : String} {alert : NormalizedAlert} {observation : Observation}
    (h : Attached v w incidentID alert observation) : Marks v w := by
  obtain ⟨refired, eid, at_, htimeline, hrefired⟩ := h.timeline
  obtain ⟨entries, haudit, hentries⟩ := h.quiet
  obtain ⟨i, -, -, hbefore, hafter⟩ := clearedAt_touchRows_self h.incidents h.known
  have hlast (id : String) : swings id [{ attachedEvent incidentID alert observation with
      id := eid, createdAt := at_ }] = [] := by
    refine swings_other (.inr ?_)
    dsimp only [attachedEvent]
    split <;> decide
  refine ⟨h.now, ⟨_, htimeline, fun id => ?_⟩, entries, haudit, fun id => ?_⟩
  · rw [swings_append, hlast, List.append_nil]
    by_cases hid : id = incidentID
    · subst hid
      rw [hafter]
      cases hflag : v.db.clearedAt id with
      | none =>
        rw [hflag] at hrefired
        obtain rfl : refired = [] := hrefired
        rfl
      | some t =>
        rw [hflag] at hrefired
        obtain ⟨e, rfl, htype, hown⟩ : ∃ e : TimelineEvent, refired = [e] ∧
          e.eventType = .alertsRefired ∧ e.incidentID = id := hrefired
        rw [swings_own hown (.inr htype), htype]
        rfl
    · rw [clearedAt_touchRows_of_ne h.incidents hid, swing_self]
      unfold RefiredEvents at hrefired
      split at hrefired
      · obtain ⟨e, rfl, -, hown⟩ := hrefired
        exact swings_other (.inl fun heq => hid (heq.symm.trans hown))
      · rw [hrefired]
        rfl
  · rw [Quiet.clearings_eq_zero hentries, if_neg]
    rintro ⟨hnone, hset⟩
    by_cases hid : id = incidentID
    · subst hid
      exact hset hafter
    · exact hset ((clearedAt_touchRows_of_ne h.incidents hid).trans hnone)

/-- A move that writes what the flags call for. -/
def Step (staleAfter : Time) (v w : View) : Prop := Move staleAfter v w ∧ Marks v w

theorem step_covers (staleAfter : Time) : Covers (Step staleAfter) where
  same h := ⟨h.move, h.marks⟩
  found h := ⟨h.move, h.marks⟩
  attach h := ⟨h.move, h.marks⟩

/-! ## The resolved notifications of a delivery -/

variable {key : String} {alert : NormalizedAlert}

/-- Where the flag is NULL, a resolved notification writes what the flag calls for. -/
theorem Resolved.marks (h : Resolved staleAfter v w id alert) (hknown : v.db.hasIncident id = true)
    (hnone : v.db.clearedAt id = none) : Marks v w := by
  obtain ⟨event, cleared, htimeline, -, htype, hcleared⟩ := h.timeline
  obtain ⟨entries, haudit, hentries⟩ := h.audit
  obtain ⟨i, -, -, hbefore, hafter⟩ := clearedAt_touchRows_self h.incidents hknown
  have hflag : i.alertsClearedAt = none := hbefore.symm.trans hnone
  have hfirst (other : String) : swings other [event] = [] := by
    refine swings_other (.inr ?_)
    rw [htype]
    decide
  have hsplit (other : String) : swings other (event :: cleared) = swings other cleared := by
    rw [← List.singleton_append, swings_append, hfirst, List.nil_append]
  by_cases hzero : w.db.stillFiring v.now id staleAfter = 0
  · rw [if_pos ⟨hzero, hflag⟩] at hafter
    rw [if_pos hzero] at hcleared hentries
    obtain ⟨e, rfl, hclearedType, hown⟩ := hcleared
    obtain ⟨entry, rfl, haction, hresource⟩ := hentries
    refine ⟨h.now, ⟨_, htimeline, fun other => ?_⟩, [entry], haudit, fun other => ?_⟩
    · rw [hsplit]
      by_cases hid : other = id
      · subst hid
        rw [hnone, hafter, swings_own hown (.inl hclearedType), hclearedType]
        rfl
      · rw [clearedAt_touchRows_of_ne h.incidents hid, swing_self]
        exact swings_other (.inl fun heq => hid (heq.symm.trans hown))
    · by_cases hid : other = id
      · subst hid
        rw [hnone, hafter, if_pos ⟨rfl, Option.some_ne_none _⟩]
        simp [clearings, haction, hresource]
      · rw [clearedAt_touchRows_of_ne h.incidents hid, if_neg fun hchange => hchange.2 hchange.1]
        simp [clearings, hresource, Ne.symm hid]
  · rw [if_neg fun hset => hzero hset.1, hflag] at hafter
    rw [if_neg hzero] at hcleared hentries
    obtain rfl := hcleared
    obtain rfl := hentries
    have hsame (other : String) : w.db.clearedAt other = v.db.clearedAt other := by
      by_cases hid : other = id
      · rw [hid, hafter, hnone]
      · exact clearedAt_touchRows_of_ne h.incidents hid
    refine ⟨h.now, ⟨_, htimeline, fun other => ?_⟩, [], haudit, fun other => ?_⟩
    · rw [hsplit, hsame, swing_self]
      rfl
    · rw [hsame, if_neg fun hchange => hchange.2 hchange.1]
      rfl

/-- No flag is from the future. -/
def Db.Dated (now : Time) (db : Db) : Prop :=
  ∀ i ∈ db.incidents, ∀ t, i.alertsClearedAt = some t → t ≤ now

/-- Alerts with these keys that fire on an open incident were seen lately. -/
def Db.Recent (staleAfter now : Time) (keys : String → Prop) (db : Db) : Prop :=
  ∀ a ∈ db.alerts, a.status = .firing → keys a.dedupeKey →
    (∃ i ∈ db.incidents, i.id = a.incidentID ∧ i.status.isClosed = false) →
    now - staleAfter ≤ a.lastSeenAt

/-- What is known while the resolved notifications of a delivery are applied. -/
structure Resolving (staleAfter : Time) (keys : String → Prop) (v : View) : Prop where
  truthful : v.db.Truthful staleAfter
  dated : v.db.Dated v.now
  recent : v.db.Recent staleAfter v.now keys

variable {keys : String → Prop}

/-- An incident on which a recent alert fires has no flag. -/
theorem Resolving.clearedAt_eq_none (h : Resolving staleAfter keys v) (hi : i ∈ v.db.incidents)
    (hopen : i.status.isClosed = false) (hfires : v.db.FiresOn key i.id) (hkey : keys key) :
    v.db.clearedAt i.id = none := by
  obtain ⟨a, ha, hid, hdedupe, hfiring⟩ := hfires
  rw [Option.eq_none_iff_forall_ne_some]
  intro t ht
  obtain ⟨j, hj, hjt⟩ := Option.bind_eq_some_iff.mp ht
  have hjid := id_eq_of_find? hj
  have hmem := List.mem_of_find?_eq_some hj
  have hstale := (h.truthful.honest j hmem).stale t hjt a ha (hid.trans hjid.symm) hfiring
  have hle := h.dated j hmem t hjt
  have hrecent := h.recent a ha hfiring (hdedupe ▸ hkey) ⟨i, hi, hid.symm, hopen⟩
  exact absurd (hstale.trans_le (Int.sub_le_sub_right hle staleAfter)) (Int.not_lt.mpr hrecent)

theorem Db.Dated.move (h : v.db.Dated now) (hnow : v.now ≤ now) (hmove : Move staleAfter v w) :
    w.db.Dated now := by
  cases hmove with
  | rewritten f hid hcleared hincidents halerts htimeline =>
    intro i hi t ht
    rw [hincidents] at hi
    obtain ⟨j, hj, rfl⟩ := List.mem_map.mp hi
    exact h j hj t ((hcleared j).symm.trans ht)
  | created i hfresh hcleared hincidents halerts htimeline =>
    intro j hj t ht
    rw [hincidents, List.mem_append, List.mem_singleton] at hj
    rcases hj with hj | rfl
    · exact h j hj t ht
    · rw [hcleared] at ht
      cases ht
  | resolved id key resolvedAt events halerts hincidents htimeline hevents =>
    intro i hi t ht
    rw [hincidents] at hi
    obtain ⟨j, hj, -, hcleared⟩ := cleared_of_mem_touchRows hi
    rw [hcleared] at ht
    split at ht
    · split at ht
      · cases ht
        exact hnow
      · exact h j hj t ht
    · exact h j hj t ht
  | fired id alert events hknown halerts hincidents htimeline hevents =>
    intro i hi t ht
    rw [hincidents] at hi
    obtain ⟨j, hj, -, hcleared⟩ := cleared_of_mem_touchRows hi
    rw [hcleared] at ht
    split at ht
    · cases ht
    · exact h j hj t ht

/-- A resolved notification makes no alert fire and opens no incident. -/
theorem Resolved.recent (h : Resolved staleAfter v w id alert) (hv : v.db.Recent staleAfter v.now keys) :
    w.db.Recent staleAfter w.now keys := by
  obtain ⟨resolvedAt, halerts⟩ := h.alerts
  rintro a ha hfiring hkey ⟨i, hi, hid, hopen⟩
  rw [halerts] at ha
  rw [h.incidents] at hi
  obtain ⟨j, hj, hjid, -, hstatus, -⟩ := mem_touchRows hi
  rw [h.now]
  exact hv a (mem_of_firing_resolveRows ha hfiring) hfiring hkey
    ⟨j, hj, hjid.trans hid, hstatus ▸ hopen⟩

theorem Resolving.of_db (h : Resolving staleAfter keys v) (hdb : w.db = v.db) (hnow : w.now = v.now) :
    Resolving staleAfter keys w := by
  refine ⟨hdb ▸ h.truthful, ?_, ?_⟩ <;> rw [hdb, hnow]
  · exact h.dated
  · exact h.recent

theorem ResolvedAll.steps {stats stats' : IngestionStats} {alerts : List NormalizedAlert}
    (h : ResolvedAll staleAfter alerts stats stats' v w) (hv : Resolving staleAfter keys v)
    (hkeys : ∀ a ∈ alerts, keys a.dedupeKey) : ReflTransGen (Step staleAfter) v w := by
  induction h with
  | nil => exact .refl
  | unmatched hdb hnow _ _ ih =>
    have hsame := SameRows.of_db hdb hnow
    exact .head ⟨hsame.move, hsame.marks⟩
      (ih (hv.of_db hdb hnow) fun a ha => hkeys a (List.mem_cons_of_mem _ ha))
  | @matched alert alerts stats stats' v v₁ v' i hmem hopen hfires hresolved _ ih =>
    have hknown : v.db.hasIncident i.id = true :=
      List.any_eq_true.mpr ⟨i, hmem, beq_self_eq_true i.id⟩
    have hmarks := hresolved.marks hknown
      (hv.clearedAt_eq_none hmem hopen hfires (hkeys alert List.mem_cons_self))
    refine .head ⟨hresolved.move, hmarks⟩ (ih ⟨hv.truthful.move hresolved.move, ?_,
      hresolved.recent hv.recent⟩ fun a ha => hkeys a (List.mem_cons_of_mem _ ha))
    rw [hresolved.now]
    exact hv.dated.move le_rfl hresolved.move

/-! ## Histories -/

/-- No resolved notification of the delivery is for a stale alert: one that is still marked as
firing on an open incident though it was last seen longer ago than alerts stay fresh. -/
def Event.Prompt (grouping : Grouping) (db : Db) : Event → Prop
  | delivery payload _ now _ => db.Recent grouping.alertStaleAfter now fun key =>
    ∃ alert ∈ payload.alerts, isResolved payload alert = true ∧
      (identityOf payload alert).key = key
  | transition _ _ _ => True

instance (grouping : Grouping) (db : Db) : DecidablePred (Event.Prompt grouping db)
  | .delivery _ _ _ _ => inferInstanceAs (Decidable (∀ a ∈ db.alerts, _ → (∃ _ ∈ _, _) → _))
  | .transition _ _ _ => inferInstanceAs (Decidable True)

/-- Strictly alternating, starting with `alerts_cleared`. -/
def Alternating (types : List EventType) : Prop :=
  ∀ n t, types[n]? = some t → t = if n % 2 = 0 then .alertsCleared else .alertsRefired

theorem Alternating.append_singleton {types : List EventType} (h : Alternating types)
    {t : EventType} (ht : t = if types.length % 2 = 0 then .alertsCleared else .alertsRefired) :
    Alternating (types ++ [t]) := by
  intro n u hu
  rw [List.getElem?_append] at hu
  split at hu
  · exact h n u hu
  · rename_i hge
    rw [List.getElem?_singleton] at hu
    split at hu
    · rename_i hzero
      have hn : n = types.length := by omega
      rw [hn, ← ht]
      exact (Option.some.inj hu).symm
    · cases hu

/-- The events of every incident alternate, and the last is `alerts_cleared` where the flag is set.
-/
def Db.Swinging (db : Db) : Prop :=
  ∀ id, Alternating (swings id db.timeline) ∧
    ((db.clearedAt id).isSome = true ↔ (swings id db.timeline).length % 2 = 1)

theorem Db.Swinging.marks (hv : v.db.Swinging) (h : Marks v w) : w.db.Swinging := by
  obtain ⟨events, htimeline, hevents⟩ := h.timeline
  intro id
  obtain ⟨halternating, hparity⟩ := hv id
  rw [htimeline, swings_append, hevents]
  cases hbefore : v.db.clearedAt id with
  | none =>
    have heven : (swings id v.db.timeline).length % 2 = 0 := by
      rw [hbefore] at hparity
      have hnot : ¬ (swings id v.db.timeline).length % 2 = 1 := fun h => by simpa using hparity.mpr h
      omega
    cases hafter : w.db.clearedAt id with
    | none =>
      rw [swing_self, List.append_nil]
      exact ⟨halternating, by simp [heven]⟩
    | some t =>
      refine ⟨halternating.append_singleton (by rw [if_pos heven]), ?_⟩
      rw [List.length_append]
      simp [swing]
      omega
  | some t =>
    have hodd : (swings id v.db.timeline).length % 2 = 1 := by
      rw [hbefore] at hparity
      exact hparity.mp rfl
    cases hafter : w.db.clearedAt id with
    | none =>
      refine ⟨halternating.append_singleton (by rw [if_neg (by omega)]), ?_⟩
      rw [List.length_append]
      simp [swing]
      omega
    | some t' =>
      refine ⟨?_, ?_⟩
      · simpa [swing] using halternating
      · simp [swing, hodd]

/-- What holds between the events of a history. -/
structure Db.Settled (staleAfter now : Time) (db : Db) : Prop where
  truthful : db.Truthful staleAfter
  dated : db.Dated now
  swinging : db.Swinging

theorem Db.Settled.step (hv : v.db.Settled staleAfter now) (hnow : v.now = now)
    (h : Step staleAfter v w) : w.db.Settled staleAfter now ∧ w.now = now :=
  ⟨⟨hv.truthful.move h.1, hv.dated.move hnow.le h.1, hv.swinging.marks h.2⟩, h.2.now.trans hnow⟩

theorem Db.Settled.steps (hv : v.db.Settled staleAfter now) (hnow : v.now = now)
    (h : ReflTransGen (Step staleAfter) v w) : w.db.Settled staleAfter now ∧ w.now = now := by
  induction h with
  | refl => exact ⟨hv, hnow⟩
  | tail _ hstep ih => exact ih.1.step ih.2 hstep

theorem Db.Settled.later {now' : Time} (h : db.Settled staleAfter now) (hle : now ≤ now') :
    db.Settled staleAfter now' :=
  ⟨h.truthful, fun i hi t ht => (h.dated i hi t ht).trans hle, h.swinging⟩

/-- A prompt delivery that commits is a sequence of steps. -/
theorem steps_of_ingestAlertmanager {payload : Webhook} {oracle : ℕ → Oracle}
    {result : IngestionResult} (hdb : db.Settled grouping.alertStaleAfter now)
    (hprompt : (Event.delivery payload actor now oracle).Prompt grouping db)
    (h : ingestAlertmanager grouping payload actor now oracle db = .ok (result, db')) :
    ∃ v', v'.db = db' ∧
      ReflTransGen (Step grouping.alertStaleAfter) (.start now db) v' := by
  obtain ⟨v', hdb', alerts, resolved, v₁, v₂, stats, hingested⟩ := ingested_of_ingestAlertmanager h
  have hsame := hingested.registered
  have hfirst : Step grouping.alertStaleAfter (.start now db) v₁ := ⟨hsame.move, hsame.marks⟩
  refine ⟨v', hdb', .head hfirst (.trans ?_ (hingested.steps (step_covers _)))⟩
  have hsettled : v₁.db.Settled grouping.alertStaleAfter now :=
    (Db.Settled.step (v := .start now db) hdb rfl hfirst).1
  have hnow : v₁.now = now := hsame.now
  have hresolving : Resolving grouping.alertStaleAfter (fun key => ∃ alert ∈ payload.alerts,
      isResolved payload alert = true ∧ (identityOf payload alert).key = key) v₁ := by
    refine ⟨hsettled.truthful, hnow ▸ hsettled.dated, ?_⟩
    rw [hnow]
    intro a ha hfiring hkey hopen
    rw [hsame.alerts] at ha
    rw [hsame.incidents] at hopen
    exact hprompt a ha hfiring hkey hopen
  refine hingested.resolution.steps hresolving fun a ha => ?_
  obtain ⟨l, hl, hperm⟩ := hingested.split.resolving
  obtain ⟨alert, halert, t, rfl, -⟩ := Table.exists_of_forall₂ hl (hperm.mem_iff.mp ha)
  obtain ⟨hmem, hresolved⟩ := List.mem_filter.mp halert
  refine ⟨alert, hmem, hresolved, ?_⟩
  rw [(keyed_normalize payload alert t).key, identity_normalize]

theorem Db.Settled.transitionIncident (h : db.Settled staleAfter now) (time : Time) (id : String)
    (status : Status) : (db.transitionIncident time id status).Settled staleAfter now := by
  refine ⟨h.truthful.transitionIncident time id status, fun i hi t ht => ?_, fun other => ?_⟩
  · obtain ⟨j, hj, ⟨rfl, -⟩ | ⟨rfl, -⟩⟩ := Table.mem_updateIf hi
    · exact h.dated _ hj t ht
    · exact h.dated j hj t ht
  · have hflag : (db.transitionIncident time id status).clearedAt other = db.clearedAt other := by
      refine clearedAt_map (fun i => ?_) (fun i => ?_) rfl other
      · split <;> rfl
      · split <;> rfl
    rw [hflag]
    exact h.swinging other

theorem Db.Settled.event {e : Event} (h : db.Settled grouping.alertStaleAfter e.now)
    (hprompt : e.Prompt grouping db) :
    (db.step grouping e).Settled grouping.alertStaleAfter e.now := by
  cases e with
  | delivery payload actor now oracle =>
    change ((db.deliver grouping payload actor now oracle).2).Settled _ _
    unfold Db.deliver
    split
    · exact h
    · rename_i hok
      obtain ⟨v', rfl, hsteps⟩ := steps_of_ingestAlertmanager h hprompt hok
      exact (Db.Settled.steps (v := .start now db) h rfl hsteps).1
  | transition id status now => exact h.transitionIncident now id status

theorem Db.Settled.run {db₀ : Db} (h : ∀ now, db₀.Settled grouping.alertStaleAfter now)
    (events : List Event) (hclock : events.Pairwise fun e e' => e.now ≤ e'.now)
    (hprompt : db₀.AtEach grouping (Event.Prompt grouping) events)
    (hnow : ∀ e ∈ events, e.now ≤ now) :
    (db₀.run grouping events).Settled grouping.alertStaleAfter now := by
  induction events using List.reverseRecOn generalizing now with
  | nil => exact h now
  | append_singleton events e ih =>
    obtain ⟨hearlier, -, hlast⟩ := List.pairwise_append.mp hclock
    have hbefore : (db₀.run grouping events).Settled grouping.alertStaleAfter e.now :=
      ih hearlier hprompt.of_append fun d hd => hlast d hd e List.mem_cons_self
    have hstep := hbefore.event (hprompt events e [] rfl)
    rw [Db.run, List.foldl_append]
    exact hstep.later (hnow e (List.mem_append_right _ List.mem_cons_self))

theorem Db.Untouched.settled (h : db.Untouched) (htimeline : db.timeline = []) (now : Time) :
    db.Settled staleAfter now := by
  refine ⟨h.truthful, fun i hi => ?_, fun id => ?_⟩
  · rw [h.incidents] at hi
    cases hi
  · have hnone : db.clearedAt id = none := by
      rw [Db.clearedAt, h.incidents]
      rfl
    rw [htimeline, hnone]
    refine ⟨fun n t ht => ?_, by simp [swings]⟩
    simp [swings] at ht

end Argus.Incidents

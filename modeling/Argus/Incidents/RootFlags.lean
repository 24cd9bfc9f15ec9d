import Argus.Incidents.Routing

/-!
# The flag of a group's root

The flag `root_inferred` of an attached alert says whether the root of its incident is only
inferred. A group that opens or promotes its incident knows that from its own alerts. For an
incident that existed, the flag is read off the alert signals stored so far, before the alerts of
the group are attached. Between two groups, the delivery has no alert on the root of an open
incident that has no alert of its root yet.
-/

namespace Argus.Incidents

open Sorting Topology

variable {grouping : Grouping} {graph : Graph} {alerts : List NormalizedAlert} {group : Group}
  {v v' : View}

/-! ## Attached alerts -/

/-- A firing alert observed on the service has been attached to the incident. -/
def Db.AttachedOn (db : Db) (id service : String) : Prop :=
  ∃ s ∈ db.signals, s.incidentID = id ∧ s.service = service ∧ s.body.topology.isSome = true

instance (db : Db) (id service : String) : Decidable (db.AttachedOn id service) :=
  inferInstanceAs (Decidable (∃ s ∈ db.signals, _))

variable {db db' : Db} {i : IncidentRow} {alert : NormalizedAlert}
  {observation : NormalizedAlert → Observation} {environment id service : String}

theorem Db.AttachedOn.mono (h : db.AttachedOn id service) (hsub : ∀ s ∈ db.signals, s ∈ db'.signals) :
    db'.AttachedOn id service := by
  obtain ⟨s, hs, hrest⟩ := h
  exact ⟨s, hsub s hs, hrest⟩

/-- Resolved notifications and alert rows are only of alerts that have been attached. -/
structure Db.Backed (db : Db) : Prop where
  kind : ∀ s ∈ db.signals, s.signalType = "alert"
  signal : ∀ s ∈ db.signals, db.AttachedOn s.incidentID s.service
  alert : ∀ a ∈ db.alerts, db.AttachedOn a.incidentID a.service

/-- Every incident has a signal. -/
def Db.Inhabited (db : Db) : Prop := ∀ i ∈ db.incidents, ∃ s ∈ db.signals, s.incidentID = i.id

theorem Db.Backed.mem_observed (h : db.Backed) :
    service ∈ db.observed id ↔ db.AttachedOn id service := by
  constructor
  · intro hmem
    obtain ⟨s, hs, rfl⟩ := List.mem_map.mp hmem
    obtain ⟨hs, hid⟩ := List.mem_filter.mp hs
    rw [← beq_iff_eq.mp (Bool.and_eq_true_iff.mp hid).1]
    exact h.signal s hs
  · rintro ⟨s, hs, hid, rfl, -⟩
    refine List.mem_map_of_mem (List.mem_filter.mpr ⟨hs, ?_⟩)
    rw [hid, h.kind s hs, beq_self_eq_true, beq_self_eq_true]
    rfl

/-- The topology of an incident says inferred when no alert of its root has been attached. -/
theorem Db.Backed.rootInferred_iff (h : db.Backed) (hinhabited : db.Inhabited)
    (hi : i ∈ db.incidents) (g : Graph) :
    (topologyOf g i (db.observed i.id)).rootInferred = true ↔ ¬ db.AttachedOn i.id i.service := by
  have hsome : db.observed i.id ≠ [] := by
    obtain ⟨s, hs, hid⟩ := hinhabited i hi
    exact List.ne_nil_of_mem (h.mem_observed.mpr (hid ▸ h.signal s hs))
  rw [topologyOf, Bool.and_eq_true, Bool.not_eq_true', Bool.not_eq_true', ← h.mem_observed]
  simp [hsome]

/-- A step that adds signals of attached alerts. -/
theorem Db.Backed.extend {new : List Signal} (h : db.Backed)
    (hsignals : db'.signals = db.signals ++ new)
    (hnew : ∀ s ∈ new, s.signalType = "alert" ∧ db'.AttachedOn s.incidentID s.service)
    (halerts : ∀ a' ∈ db'.alerts, (∃ a ∈ db.alerts, a.incidentID = a'.incidentID ∧
      a.service = a'.service) ∨ db'.AttachedOn a'.incidentID a'.service) : db'.Backed := by
  have hsub : ∀ s ∈ db.signals, s ∈ db'.signals := fun s hs =>
    hsignals ▸ List.mem_append_left _ hs
  have hboth : ∀ s ∈ db'.signals, s.signalType = "alert" ∧
      db'.AttachedOn s.incidentID s.service := fun s hs => by
    rw [hsignals] at hs
    rcases List.mem_append.mp hs with hs | hs
    · exact ⟨h.kind s hs, (h.signal s hs).mono hsub⟩
    · exact hnew s hs
  refine ⟨fun s hs => (hboth s hs).1, fun s hs => (hboth s hs).2, fun a' ha' => ?_⟩
  rcases halerts a' ha' with ⟨a, ha, hid, hservice⟩ | hown
  · rw [← hid, ← hservice]
    exact (h.alert a ha).mono hsub
  · exact hown

theorem SameRows.backed (h : SameRows v v') (hv : v.db.Backed) : v'.db.Backed :=
  hv.extend (h.signals.trans (List.append_nil _).symm) (by simp)
    fun a ha => .inl ⟨a, h.alerts ▸ ha, rfl, rfl⟩

/-! ## Resolved notifications -/

variable {staleAfter : Time}

theorem Resolved.backed (h : Resolved staleAfter v v' i.id alert)
    (hfires : v.db.FiresOn alert.dedupeKey i.id) (hkeyed : alert.Keyed)
    (hfree : alert.identity.ColonFree) (hrooted : v.Rooted graph) (hv : v.db.Backed) :
    v'.db.Backed ∧ ∀ s ∈ v.db.signals, s ∈ v'.db.signals := by
  obtain ⟨resolvedAt, halerts⟩ := h.alerts
  obtain ⟨resolvedAt', id, at_, hsignals⟩ := h.signals
  have hsub : ∀ s ∈ v.db.signals, s ∈ v'.db.signals := fun s hs =>
    hsignals ▸ List.mem_append_left _ hs
  -- the key of the row on which the alert fires is the alert's own
  have hown : v.db.AttachedOn i.id alert.service := by
    obtain ⟨a, ha, hid, hkey, -⟩ := hfires
    obtain ⟨j, -, -, -, hbelongs⟩ := hrooted.alert a ha
    rw [hkey] at hbelongs
    obtain ⟨hservice, -⟩ := hbelongs.unique (hkeyed.belongs hfree)
    rw [← hid, ← hservice]
    exact hv.alert a ha
  refine ⟨hv.extend hsignals (List.forall_mem_singleton.mpr ⟨rfl, hown.mono hsub⟩)
    fun a ha => .inl ?_, hsub⟩
  rw [halerts] at ha
  obtain ⟨a₀, ha₀, ⟨rfl, -⟩ | ⟨rfl, -⟩⟩ := Table.mem_updateIf ha
  · exact ⟨_, ha₀, rfl, rfl⟩
  · exact ⟨a₀, ha₀, rfl, rfl⟩

/-- What resolved notifications leave as it was. -/
structure Unmoved (v v' : View) : Prop where
  signals : ∀ s ∈ v.db.signals, s ∈ v'.db.signals
  places : v'.db.incidents.map (fun i => (i.place, i.status)) =
    v.db.incidents.map fun i => (i.place, i.status)

theorem ResolvedAll.backed {resolved : List NormalizedAlert} {stats stats' : IngestionStats}
    (h : ResolvedAll staleAfter resolved stats stats' v v') (hsound : Sound resolved)
    (hrooted : v.Rooted graph) (hv : v.db.Backed) :
    v'.db.Backed ∧ Unmoved v v' ∧ stats'.inferredRoots = stats.inferredRoots ∧
      stats'.observedRoots = stats.observedRoots := by
  induction h with
  | nil => exact ⟨hv, ⟨fun _ hs => hs, rfl⟩, rfl, rfl⟩
  | unmatched hdb hnow hnone hrest ih =>
    obtain ⟨hbacked, hunmoved, hcounts⟩ := ih (fun a ha => hsound a (List.mem_cons_of_mem _ ha))
      ((SameRows.of_db hdb hnow).rooted hrooted) (hdb ▸ hv)
    refine ⟨hbacked, ⟨fun s hs => hunmoved.signals s (hdb ▸ hs), ?_⟩, hcounts⟩
    rw [hunmoved.places, hdb]
  | @matched alert alerts stats stats' v v₁ v' i hmem hopen hfires hresolved hrest ih =>
    obtain ⟨hkeyed, hfree⟩ := hsound _ List.mem_cons_self
    obtain ⟨hbacked₁, hsub⟩ := hresolved.backed hfires hkeyed hfree hrooted hv
    obtain ⟨hbacked, hunmoved, hcounts⟩ := ih (fun a ha => hsound a (List.mem_cons_of_mem _ ha))
      (hresolved.rooted hmem hfires hkeyed hfree hrooted) hbacked₁
    refine ⟨hbacked, ⟨fun s hs => hunmoved.signals s (hsub s hs), ?_⟩, hcounts⟩
    rw [hunmoved.places, hresolved.incidents]
    unfold touchRows
    exact Table.map_updateIf (by exact fun _ => rfl) _

/-! ## Attaching the alerts of a group -/

theorem Attached.backed {observation : Observation} (h : Attached v v' id alert observation)
    (hv : v.db.Backed) : v'.db.Backed := by
  obtain ⟨sid, at_, hsignals⟩ := h.signals
  have hnew : v'.db.AttachedOn id alert.service :=
    ⟨_, hsignals ▸ List.mem_append_right _ List.mem_cons_self, rfl, rfl, rfl⟩
  refine hv.extend hsignals (List.forall_mem_singleton.mpr ⟨rfl, hnew⟩) fun a ha => ?_
  rw [h.alerts] at ha
  unfold fireRows at ha
  split at ha
  · obtain ⟨a₀, ha₀, ⟨rfl, -⟩ | ⟨rfl, -⟩⟩ := Table.mem_updateIf ha
    · exact .inl ⟨_, ha₀, rfl, rfl⟩
    · exact .inl ⟨a₀, ha₀, rfl, rfl⟩
  · rcases List.mem_append.mp ha with ha | ha
    · exact .inl ⟨a, ha, rfl, rfl⟩
    · rw [List.mem_singleton.mp ha]
      exact .inr hnew

/-- The signals and events of alerts attached to an incident, each with what is observed of it. -/
structure Written (id : String) (observation : NormalizedAlert → Observation)
    (group : List NormalizedAlert) (signals : List Signal) (events : List TimelineEvent) : Prop where
  signals : List.Forall₂ (fun a s => s.incidentID = id ∧ s.service = a.service ∧
    s.body.topology = some (observation a)) group signals
  events : ∀ e ∈ events, e.incidentID = id ∧ (e.ofAttachment = true → ∃ a ∈ group,
    e.evidence = .attached a.alertName a.service a.severity a.environment (observation a))

theorem AttachedAll.written {group : List NormalizedAlert}
    (h : AttachedAll id observation group v v') (hv : v.db.Backed) :
    v'.db.Backed ∧ ∃ signals events, v'.db.signals = v.db.signals ++ signals ∧
      v'.db.timeline = v.db.timeline ++ events ∧ Written id observation group signals events := by
  induction h with
  | nil => exact ⟨hv, [], [], by simp, by simp, .nil, by simp⟩
  | @cons alert rest v v₁ v' hfirst hrest ih =>
    obtain ⟨hbacked, signals, events, hsignals, htimeline, hwritten⟩ := ih (hfirst.backed hv)
    obtain ⟨sid, sat, hsignal⟩ := hfirst.signals
    obtain ⟨refired, eid, eat, htime, hrefired⟩ := hfirst.timeline
    refine ⟨hbacked,
      { attachedSignal id alert (observation alert) with id := sid, createdAt := sat } :: signals,
      (refired ++ [{ attachedEvent id alert (observation alert) with
        id := eid, createdAt := eat }]) ++ events, ?_, ?_,
      .cons ⟨rfl, rfl, rfl⟩ hwritten.signals, fun e he => ?_⟩
    · rw [hsignals, hsignal, List.append_assoc, List.singleton_append]
    · rw [htimeline, htime, List.append_assoc]
    · rcases List.mem_append.mp he with he | he
      · rcases List.mem_append.mp he with he | he
        · obtain ⟨htype, hid⟩ := hrefired.forall_mem e he
          refine ⟨hid, fun hof => ?_⟩
          simp [TimelineEvent.ofAttachment, htype] at hof
        · rw [List.mem_singleton.mp he]
          exact ⟨rfl, fun _ => ⟨alert, List.mem_cons_self, rfl⟩⟩
      · obtain ⟨hid, hof⟩ := hwritten.events e he
        refine ⟨hid, fun hattached => ?_⟩
        obtain ⟨a, ha, hevidence⟩ := hof hattached
        exact ⟨a, List.mem_cons_of_mem _ ha, hevidence⟩

theorem AttachedAll.exists_place {group : List NormalizedAlert}
    (h : AttachedAll id observation group v v') {i' : IncidentRow} (hi : i' ∈ v'.db.incidents) :
    ∃ i ∈ v.db.incidents, i.place = i'.place := by
  have hplaces : v'.db.incidents.map (·.place) = v.db.incidents.map (·.place) := by
    clear hi
    induction h with
    | nil => rfl
    | cons hfirst _ ih =>
      rw [ih, hfirst.incidents]
      exact place_touchRows ..
  exact exists_place_of_map_eq hplaces.symm hi

/-- What has been attached after a group. -/
theorem Written.attachedOn_iff {group : List NormalizedAlert} {signals : List Signal}
    {events : List TimelineEvent} (h : Written id observation group signals events)
    (hsignals : v'.db.signals = v.db.signals ++ signals) {other : String} :
    v'.db.AttachedOn other service ↔
      v.db.AttachedOn other service ∨ other = id ∧ ∃ a ∈ group, a.service = service := by
  constructor
  · rintro ⟨s, hs, hid, hservice, htopology⟩
    rw [hsignals] at hs
    rcases List.mem_append.mp hs with hs | hs
    · exact .inl ⟨s, hs, hid, hservice, htopology⟩
    · obtain ⟨a, ha, hown, hsame, -⟩ := Table.exists_of_forall₂ h.signals hs
      exact .inr ⟨hid.symm.trans hown, a, ha, hsame.symm.trans hservice⟩
  · rintro (hold | ⟨rfl, a, ha, hservice⟩)
    · exact hold.mono fun s hs => hsignals ▸ List.mem_append_left _ hs
    · obtain ⟨s, hs, hown, hsame, htopology⟩ := Table.exists_of_forall₂ h.signals.flip ha
      refine ⟨s, hsignals ▸ List.mem_append_right _ hs, hown, hsame.trans hservice, ?_⟩
      rw [htopology]
      rfl

/-! ## A group -/

/-- No alert of the delivery is on the service in the environment. -/
def Silent (alerts : List NormalizedAlert) (environment service : String) : Prop :=
  ∀ a ∈ alerts, a.environment = environment → a.service ≠ service

/-- What is known between two groups of a delivery. -/
structure Between (graph : Graph) (alerts : List NormalizedAlert) (openIncidents : List IncidentRow)
    (v : View) : Prop where
  rooted : v.Rooted graph
  current : Current openIncidents v.db.incidents
  unclosed : ∀ o ∈ openIncidents, ∃ j ∈ v.db.incidents, j.id = o.id ∧ j.status.isClosed = false
  backed : v.db.Backed
  inhabited : v.db.Inhabited
  heard : ∀ i ∈ v.db.incidents, i.status.isClosed = false → ¬ v.db.AttachedOn i.id i.service →
    Silent alerts i.environment i.service

section

variable {progress progress' : Progress} {first : NormalizedAlert} {rest : List NormalizedAlert}
  {incident : IncidentRow} {origin : Origin} {rootInferred : Bool} {v₁ v₂ : View}

/-- The group brings an alert of its root unless the root is inferred. -/
theorem silent_iff_inferred (hgroup : group ∈ topologyGroupsByEnvironment graph alerts) :
    group.inferred = true ↔ Silent alerts group.environment group.root := by
  rw [inferred_iff_of_mem hgroup]
  constructor
  · intro hnot a ha henv heq
    exact hnot (List.mem_map.mpr ⟨a, List.mem_filter.mpr ⟨ha, beq_iff_eq.mpr henv⟩, heq⟩)
  · intro hsilent hmem
    obtain ⟨a, ha, heq⟩ := List.mem_map.mp hmem
    obtain ⟨hmem, henv⟩ := List.mem_filter.mp ha
    exact hsilent a hmem (beq_iff_eq.mp henv) heq

theorem exists_root_alert (hgroup : group ∈ topologyGroupsByEnvironment graph alerts)
    (hsome : alertsForGroup alerts group = first :: rest) (hinferred : group.inferred = false) :
    ∃ a ∈ first :: rest, a.service = group.root := by
  have hnot : ¬ Silent alerts group.environment group.root := fun hsilent => by
    rw [(silent_iff_inferred hgroup).mpr hsilent] at hinferred
    cases hinferred
  unfold Silent at hnot
  push Not at hnot
  obtain ⟨a, ha, henv, hservice⟩ := hnot
  have hmember : a.service ∈ group.members := hservice ▸ root_mem_of_mem hgroup hinferred
  exact ⟨a, hsome ▸ mem_alertsForGroup.mpr ⟨ha, henv, hmember⟩, hservice⟩

/-- An alert that is not on a silent service. -/
theorem Silent.of_group (h : Silent alerts environment service)
    (hsome : alertsForGroup alerts group = first :: rest) (henv : group.environment = environment) :
    ∀ a ∈ first :: rest, a.service ≠ service := by
  intro a ha
  obtain ⟨hmem, haenv, -⟩ := mem_alertsForGroup.mp (hsome ▸ ha)
  exact h a hmem (haenv.trans henv)

/-- A service of which the delivery has no alert and the incident none either. -/
structure Hushed (alerts : List NormalizedAlert) (v : View) (id environment service : String) :
    Prop where
  silent : Silent alerts environment service
  row : ∃ j ∈ v.db.incidents, j.id = id
  environment : ∀ j ∈ v.db.incidents, j.id = id → j.environment = environment
  unattached : ¬ v.db.AttachedOn id service

section

variable (h : Turn grouping graph alerts group progress progress' v v' first rest incident origin
    rootInferred v₁ v₂) (hsound : Sound alerts)
  (hgroup : group ∈ topologyGroupsByEnvironment graph alerts)
  (hv : Between graph alerts progress.openIncidents v)

include h hsound hgroup hv

/-- The row of the group's incident, before its alerts are attached. -/
theorem Turn.row :
    (∃ j ∈ v₁.db.incidents, j.place = incident.place ∧ j.status.isClosed = false) ∧
      incident.environment = group.environment ∧ v₁.Rooted graph ∧
      Current progress'.openIncidents v₁.db.incidents := by
  have hhoused := h.found.housed hsound hgroup h.some hv.rooted hv.current
  obtain ⟨j, hj, hplace⟩ := hhoused.row
  obtain ⟨hid, -⟩ := IncidentRow.place_eq_iff.mp hplace
  refine ⟨⟨j, hj, hplace, ?_⟩, hhoused.environment, hhoused.rooted, h.openIncidents ▸ hhoused.current⟩
  -- an open row with the id of the incident, before
  have hopen : (∃ k ∈ v.db.incidents, k.id = incident.id ∧ k.status.isClosed = false) ∨
      v.db.hasIncident incident.id = false := by
    rcases h.found with ⟨-, hmem, hactive⟩ | ⟨-, hmem⟩ | ⟨-, hmem, -, -, -, -, -, hfind⟩ |
      ⟨-, hfresh⟩
    · exact .inl ⟨incident, hmem, rfl, (Db.active_iff.mp hactive).1⟩
    · exact .inl (hv.unclosed incident hmem)
    · exact .inl (id_eq_of_find? hfind ▸ hv.unclosed _ hmem)
    · exact .inr hfresh
  rcases h.found.rows.2 j hj with ⟨k, hk, hkid, hstatus, -⟩ | ⟨-, hnew, -⟩
  · rcases hopen with ⟨k', hk', hkid', hopen⟩ | hfresh
    · obtain rfl := hv.rooted.eq_of_id_eq hk hk' (hkid.trans (hid.trans hkid'.symm))
      exact hstatus ▸ hopen
    · exact absurd (hkid.trans hid) (Db.ne_of_hasIncident hfresh hk)
  · exact hnew

omit hsound in
/-- An incident that a group opens or promotes had no alert of its new root. -/
theorem Turn.not_attachedOn (horigin : origin ≠ .existing) :
    ¬ v.db.AttachedOn incident.id group.root := by
  rintro ⟨s, hs, hid, hservice, -⟩
  obtain ⟨i, hi, hsid, hreach, -⟩ := hv.rooted.signal s hs
  rcases h.found with - | - | ⟨-, hold, -, -, hnone, -, -, hfind⟩ | ⟨-, hfresh⟩
  · exact horigin rfl
  · exact horigin rfl
  · -- the new root would reach the old one
    obtain ⟨j, hj, hplace⟩ := hv.current.row _ hold
    obtain ⟨hjid, hjservice, -⟩ := IncidentRow.place_eq_iff.mp hplace
    obtain rfl := hv.rooted.eq_of_id_eq hi hj
      (hsid.trans (hid.trans ((id_eq_of_find? hfind).trans hjid.symm)))
    have hpath : (graph.path group.root i.service).isSome = true :=
      Graph.path_isSome_iff.mpr ⟨root_ne_empty_of_mem hgroup, (hv.rooted.incident i hi).1,
        hservice ▸ hreach⟩
    rw [hjservice, hnone] at hpath
    cases hpath
  · exact Db.ne_of_hasIncident hfresh hi (hsid.trans hid)

/-- The flag of a group, by what was attached before and by what the delivery brings. -/
theorem Turn.flag :
    (rootInferred = true → ¬ v.db.AttachedOn incident.id incident.service ∧
        Silent alerts incident.environment incident.service) ∧
      (rootInferred = false → v.db.AttachedOn incident.id incident.service ∨
        ∃ a ∈ first :: rest, a.service = incident.service) ∧
      (¬ v.db.AttachedOn incident.id incident.service →
        (∀ a ∈ first :: rest, a.service ≠ incident.service) →
        Silent alerts incident.environment incident.service) := by
  obtain ⟨⟨j, hj, hplace, hopen⟩, henv, hrooted₁, -⟩ := h.row hsound hgroup hv
  obtain ⟨hid, hservice, hjenv, -⟩ := IncidentRow.place_eq_iff.mp hplace
  by_cases horigin : origin = .existing
  · -- the row is as it was, and the flag is read off the signals
    have hrows : v₁.db.incidents = v.db.incidents := by
      subst horigin
      rcases h.found with ⟨-, -, -, -, hsame⟩ | ⟨-, -, -, -, hsame⟩
      · exact hsame.incidents
      · exact hsame.incidents
    have hflag : rootInferred = true ↔ ¬ v.db.AttachedOn incident.id incident.service := by
      obtain ⟨i, hfind, hflag⟩ := h.existing horigin
      have hi := List.mem_of_find?_eq_some hfind
      obtain rfl := hrooted₁.eq_of_id_eq hi hj ((id_eq_of_find? hfind).trans hid.symm)
      rw [hrows] at hi
      have hiff := hv.backed.rootInferred_iff hv.inhabited hi (Graph.new v₁.db.dependencies)
      rw [hflag, ← hservice, ← hid]
      rw [Db.observed, h.found.others.signals]
      exact hiff
    rw [hrows] at hj
    have hsilent : ¬ v.db.AttachedOn incident.id incident.service →
        Silent alerts incident.environment incident.service := by
      rw [← hid, ← hservice, ← hjenv]
      exact hv.heard j hj hopen
    refine ⟨fun hf => ⟨hflag.mp hf, hsilent (hflag.mp hf)⟩, fun hf => .inl ?_, fun hnot _ => hsilent hnot⟩
    by_contra hnot
    rw [hflag.mpr hnot] at hf
    cases hf
  · have hroot := (h.found.columns horigin).2.1
    have hnot := h.not_attachedOn hgroup hv horigin
    rw [h.grouped horigin, hroot, henv]
    refine ⟨fun hf => ⟨hnot, (silent_iff_inferred hgroup).mp hf⟩,
      fun hf => .inr (exists_root_alert hgroup h.some hf), fun _ hnone => ?_⟩
    rw [← silent_iff_inferred hgroup]
    by_contra hf
    obtain ⟨a, ha, heq⟩ := exists_root_alert hgroup h.some (Bool.not_eq_true _ ▸ hf)
    exact hnone a ha heq

/-- What one group writes, and that its flag is true to what has been attached then. -/
theorem Turn.between :
    Between graph alerts progress'.openIncidents v' ∧
      (∃ j ∈ v'.db.incidents, j.place = incident.place) ∧
      (∃ signals events, v'.db.signals = v.db.signals ++ signals ∧
        v'.db.timeline = v.db.timeline ++ events ∧
        Written incident.id (observe graph incident rootInferred) (first :: rest) signals events) ∧
      (rootInferred = true ↔ ¬ v'.db.AttachedOn incident.id incident.service) ∧
      (rootInferred = true → Silent alerts incident.environment incident.service) := by
  obtain ⟨⟨j, hj, hplace, hopen⟩, henv, -, hcurrent₁⟩ := h.row hsound hgroup hv
  obtain ⟨-, hrooted', hplaces, -⟩ := h.housed hsound hgroup hv.rooted hv.current
  obtain ⟨hid, hservice, hjenv, -⟩ := IncidentRow.place_eq_iff.mp hplace
  have hothers := h.found.others.trans h.same.toSameOthers
  have hbacked₂ : v₂.db.Backed :=
    hv.backed.extend (hothers.signals.trans (List.append_nil _).symm) (by simp)
      fun a ha => .inl ⟨a, hothers.alerts ▸ ha, rfl, rfl⟩
  obtain ⟨hbacked', signals, events, hsignals, htimeline, hwritten⟩ := h.attached.written hbacked₂
  rw [hothers.signals] at hsignals
  rw [hothers.timeline] at htimeline
  have hattached {other service : String} : v'.db.AttachedOn other service ↔
      v.db.AttachedOn other service ∨ other = incident.id ∧ ∃ a ∈ first :: rest, a.service = service :=
    hwritten.attachedOn_iff hsignals
  obtain ⟨htrue, hfalse, hsilent⟩ := h.flag hsound hgroup hv
  have htouched := h.attached.touched
  have hrow : ∀ k ∈ v₁.db.incidents, ∃ k' ∈ v'.db.incidents, k'.id = k.id ∧ k'.status = k.status :=
    fun k hk => by
      obtain ⟨k', hk', hkid, hstatus, -⟩ := htouched.row k (h.same.incidents ▸ hk)
      exact ⟨k', hk', hkid, hstatus⟩
  refine ⟨⟨hrooted', ?_, fun o ho => ?_, hbacked', fun i hi => ?_, fun i hi hiopen hnot => ?_⟩,
    ?_, ⟨signals, events, hsignals, htimeline, hwritten⟩, ?_, fun hf => (htrue hf).2⟩
  · exact hcurrent₁.of_places hplaces
  · -- the list of open incidents
    rw [h.openIncidents] at ho
    rcases mem_appendOrReplaceIncident hv.current.unique ho with rfl | ⟨hold, -⟩
    · obtain ⟨j', hj', hjid, hstatus⟩ := hrow j hj
      exact ⟨j', hj', hjid.trans hid, hstatus ▸ hopen⟩
    · obtain ⟨k, hk, hkid, hkopen⟩ := hv.unclosed o hold
      obtain ⟨k₁, hk₁, hkid₁, hstatus₁, -⟩ := h.found.rows.1 k hk
      obtain ⟨k', hk', hkid', hstatus'⟩ := hrow k₁ hk₁
      exact ⟨k', hk', hkid'.trans (hkid₁.trans hkid), hstatus' ▸ hstatus₁ ▸ hkopen⟩
  · -- every incident has a signal
    obtain ⟨k, hk, hkid, -⟩ := htouched.incident i hi
    rw [h.same.incidents] at hk
    rcases h.found.rows.2 k hk with ⟨k₀, hk₀, hkid₀, -⟩ | ⟨-, -, hown⟩
    · obtain ⟨s, hs, hsid⟩ := hv.inhabited k₀ hk₀
      exact ⟨s, hsignals ▸ List.mem_append_left _ hs, hsid.trans (hkid₀.trans hkid)⟩
    · obtain ⟨s, hs, hsid, -⟩ := hattached.mpr
        (.inr ⟨rfl, first, List.mem_cons_self, rfl⟩)
      exact ⟨s, hs, hsid.trans (hown.symm.trans hkid)⟩
  · -- an open incident without an alert of its root
    obtain ⟨k, hk, hkid, -, hstatus, hsame⟩ := htouched.incident i hi
    rw [h.same.incidents] at hk
    by_cases hown : k.id = incident.id
    · obtain ⟨i', hi', hiplace⟩ := exists_place_of_map_eq hplaces hj
      obtain ⟨hiid, hiservice, hienv, -⟩ := IncidentRow.place_eq_iff.mp hiplace
      obtain rfl := hrooted'.eq_of_id_eq hi hi' (hkid.symm.trans (hown.trans (hid.symm.trans hiid.symm)))
      rw [hiservice, hienv, hservice, hjenv]
      rw [hiid, hiservice, hid, hservice, hattached] at hnot
      push Not at hnot
      exact hsilent hnot.1 (hnot.2 rfl)
    · obtain rfl := hsame hown
      rcases h.found.rows.2 i hk with ⟨k₀, hk₀, -, -, -, heq⟩ | ⟨-, -, hidown⟩
      · obtain rfl := heq hown
        exact hv.heard i hk₀ hiopen fun hold => hnot (hattached.mpr (.inl hold))
      · exact absurd hidown hown
  · obtain ⟨j', hj', hjplace⟩ := exists_place_of_map_eq hplaces hj
    exact ⟨j', hj', hjplace.trans hplace⟩
  · constructor
    · intro hf
      obtain ⟨hnot, hquiet⟩ := htrue hf
      rw [hattached]
      rintro (hold | ⟨-, a, ha, heq⟩)
      · exact hnot hold
      · exact hquiet.of_group h.some henv.symm a ha heq
    · intro hnot
      by_contra hf
      rcases hfalse (Bool.not_eq_true _ ▸ hf) with hold | ⟨a, ha, heq⟩
      · exact hnot (hattached.mpr (.inl hold))
      · exact hnot (hattached.mpr (.inr ⟨rfl, a, ha, heq⟩))

theorem Turn.hushed (hhushed : Hushed alerts v id environment service) :
    Hushed alerts v' id environment service := by
  obtain ⟨⟨j, hj, hplace, -⟩, henv, -⟩ := h.row hsound hgroup hv
  obtain ⟨hid, -, hjenv, -⟩ := IncidentRow.place_eq_iff.mp hplace
  obtain ⟨-, -, ⟨signals, events, hsignals, -, hwritten⟩, -⟩ := h.between hsound hgroup hv
  have htouched := h.attached.touched
  -- the environment of an incident does not change
  have henv₁ : ∀ k ∈ v₁.db.incidents, k.id = id → k.environment = environment := by
    intro k hk hkid
    rcases h.found.rows.2 k hk with ⟨k₀, hk₀, hkid₀, -, hkenv, -⟩ | ⟨hfresh, -⟩
    · exact hkenv ▸ hhushed.environment k₀ hk₀ (hkid₀.trans hkid)
    · obtain ⟨i, hi, hiid⟩ := hhushed.row
      exact absurd (hiid.trans hkid.symm) (Db.ne_of_hasIncident hfresh hi)
  refine ⟨hhushed.silent, ?_, fun k' hk' hkid => ?_, ?_⟩
  · obtain ⟨i, hi, hiid⟩ := hhushed.row
    obtain ⟨i₁, hi₁, hiid₁, -⟩ := h.found.rows.1 i hi
    obtain ⟨i', hi', hiid', -⟩ := htouched.row i₁ (h.same.incidents ▸ hi₁)
    exact ⟨i', hi', hiid'.trans (hiid₁.trans hiid)⟩
  · obtain ⟨k, hk, hkplace⟩ := h.attached.exists_place hk'
    obtain ⟨hkk, -, hkenv, -⟩ := IncidentRow.place_eq_iff.mp hkplace
    exact hkenv ▸ henv₁ k (h.same.incidents ▸ hk) (hkk.trans hkid)
  · rw [hwritten.attachedOn_iff hsignals]
    rintro (hold | ⟨rfl, a, ha, heq⟩)
    · exact hhushed.unattached hold
    · have hgroupEnv : group.environment = environment :=
        henv.symm.trans (hjenv.symm.trans (henv₁ j hj hid))
      exact hhushed.silent.of_group h.some hgroupEnv a ha heq

end

end

end Argus.Incidents

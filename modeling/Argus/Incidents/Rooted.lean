import Argus.Incidents.Effects
import Argus.Incidents.Identity
import Argus.Topology.Partition

/-!
# Every alert belongs behind the root of its incident

`Rooted` is the invariant of the store under deliveries whose labels have no colon: the key of an
incident, and of every alert attached to it, names the incident's own environment, and the service of
every attached alert reaches the incident's root. An alert joins an incident in three ways: because the
incident already carries the alert of the group's root, because the group's root reaches the incident's
root, or because the incident's root reaches the group's and moves there. Each keeps the invariant.
-/

namespace Argus.Incidents

open Sorting Topology

/-! ## Places -/

/-- The columns that say where an incident belongs. -/
def IncidentRow.place (i : IncidentRow) : String × String × String × String :=
  (i.id, i.service, i.environment, i.dedupeKey)

variable {i j : IncidentRow} {rows rows' : List IncidentRow} {a : NormalizedAlert}

theorem IncidentRow.place_eq_iff :
    i.place = j.place ↔ i.id = j.id ∧ i.service = j.service ∧ i.environment = j.environment ∧
      i.dedupeKey = j.dedupeKey := by
  simp [place]

theorem place_touchRows (now : Time) (id : String) (cleared : IncidentRow → Option Time)
    (rows : List IncidentRow) :
    (touchRows now id cleared rows).map (·.place) = rows.map (·.place) := by
  unfold touchRows
  exact Table.map_updateIf (by exact fun _ => rfl) rows

theorem place_transitionIncident (db : Db) (now : Time) (id : String) (status : Status) :
    (db.transitionIncident now id status).incidents.map (·.place) =
      db.incidents.map (·.place) := by
  unfold Db.transitionIncident
  exact Table.map_updateIf (by exact fun _ => rfl) db.incidents

theorem exists_place_of_map_eq (h : rows'.map (·.place) = rows.map (·.place)) (hi : i ∈ rows) :
    ∃ i' ∈ rows', i'.place = i.place := by
  have hmem : i.place ∈ rows'.map (·.place) := h ▸ List.mem_map_of_mem hi
  exact List.mem_map.mp hmem

theorem map_id_of_map_place (h : rows'.map (·.place) = rows.map (·.place)) :
    rows'.map (·.id) = rows.map (·.id) := by
  have heq := congrArg (List.map Prod.fst) h
  simpa only [List.map_map, Function.comp_def, IncidentRow.place] using heq

/-- The key is that of an alert of the service in the environment. -/
def Belongs (key service environment : String) : Prop :=
  ∃ alertName fingerprint, (Identity.mk service alertName environment fingerprint).Tidy ∧
    key = (Identity.mk service alertName environment fingerprint).key

theorem Belongs.unique {key s e s' e' : String} (h : Belongs key s e) (h' : Belongs key s' e') :
    s = s' ∧ e = e' := by
  obtain ⟨n, f, htidy, hkey⟩ := h
  obtain ⟨n', f', htidy', hkey'⟩ := h'
  have heq := Identity.eq_of_key_eq htidy htidy' (hkey.symm.trans hkey')
  simp only [Identity.mk.injEq] at heq
  exact ⟨heq.1, heq.2.2.1⟩

/-! ## The invariant -/

/-- Incidents, with the alerts and signals attached to them, are where they belong. -/
structure Rooted (graph : Graph) (incidents : List IncidentRow) (alerts : List AlertRow)
    (signals : List Signal) : Prop where
  unique : (incidents.map (·.id)).Nodup
  incident : ∀ i ∈ incidents, i.service ≠ "" ∧ Belongs i.dedupeKey i.service i.environment
  alert : ∀ a ∈ alerts, ∃ i ∈ incidents, i.id = a.incidentID ∧
    graph.Reaches a.service i.service ∧ Belongs a.dedupeKey a.service i.environment
  signal : ∀ s ∈ signals, ∃ i ∈ incidents, i.id = s.incidentID ∧
    graph.Reaches s.service i.service ∧ s.service ≠ "" ∧ s.origin.environment = i.environment
  observation : ∀ s ∈ signals, ∀ t, s.body.topology = some t →
    ∃ p, graph.path t.observedService t.rootService = some p ∧ t.dependencyPath = p.services

namespace Rooted

variable {graph : Graph} {incidents incidents' : List IncidentRow} {alerts : List AlertRow}
  {signals : List Signal}

section

variable (h : Rooted graph incidents alerts signals)

include h

/-- Only the places of the incidents matter. -/
theorem of_places (hplaces : incidents'.map (·.place) = incidents.map (·.place)) :
    Rooted graph incidents' alerts signals := by
  have hback : ∀ i ∈ incidents', ∃ j ∈ incidents, j.place = i.place :=
    fun i hi => exists_place_of_map_eq hplaces.symm hi
  have hforth : ∀ i ∈ incidents, ∃ j ∈ incidents', j.place = i.place :=
    fun i hi => exists_place_of_map_eq hplaces hi
  refine ⟨map_id_of_map_place hplaces ▸ h.unique, fun i hi => ?_, fun a ha => ?_, fun s hs => ?_,
    h.observation⟩
  · obtain ⟨j, hj, hplace⟩ := hback i hi
    obtain ⟨-, hservice, henv, hkey⟩ := IncidentRow.place_eq_iff.mp hplace
    rw [← hservice, ← henv, ← hkey]
    exact h.incident j hj
  · obtain ⟨i, hi, hid, hreach, hbelongs⟩ := h.alert a ha
    obtain ⟨j, hj, hplace⟩ := hforth i hi
    obtain ⟨hid', hservice, henv, -⟩ := IncidentRow.place_eq_iff.mp hplace
    exact ⟨j, hj, hid'.trans hid, hservice ▸ hreach, henv ▸ hbelongs⟩
  · obtain ⟨i, hi, hid, hreach, hne, horigin⟩ := h.signal s hs
    obtain ⟨j, hj, hplace⟩ := hforth i hi
    obtain ⟨hid', hservice, henv, -⟩ := IncidentRow.place_eq_iff.mp hplace
    exact ⟨j, hj, hid'.trans hid, hservice ▸ hreach, hne, henv ▸ horigin⟩

theorem eq_of_id_eq (hi : i ∈ incidents) (hj : j ∈ incidents) (hid : i.id = j.id) : i = j :=
  Table.eq_of_key_eq h.unique hi hj hid

/-- Rows that keep their incident, their key and their service. -/
theorem of_alerts {alerts' : List AlertRow}
    (halerts : ∀ a' ∈ alerts', ∃ a ∈ alerts, a'.incidentID = a.incidentID ∧
      a'.dedupeKey = a.dedupeKey ∧ a'.service = a.service) :
    Rooted graph incidents alerts' signals := by
  refine ⟨h.unique, h.incident, fun a' ha' => ?_, h.signal, h.observation⟩
  obtain ⟨a, ha, hid, hkey, hservice⟩ := halerts a' ha'
  rw [hid, hkey, hservice]
  exact h.alert a ha

theorem resolveRows (now : Time) (id key : String) (resolvedAt : Time) :
    Rooted graph incidents (resolveRows now id key resolvedAt alerts) signals := by
  refine h.of_alerts fun a' ha' => ?_
  obtain ⟨a, ha, ⟨rfl, -⟩ | ⟨rfl, -⟩⟩ := Table.mem_updateIf ha'
  · exact ⟨a', ha, rfl, rfl, rfl⟩
  · exact ⟨a, ha, rfl, rfl, rfl⟩

/-- A firing alert of the incident's environment whose service reaches its root. -/
theorem fireRows (hi : i ∈ incidents) {alert : NormalizedAlert}
    (hreach : graph.Reaches alert.service i.service)
    (hbelongs : Belongs alert.dedupeKey alert.service i.environment) (now : Time) :
    Rooted graph incidents (fireRows now i.id alert alerts) signals := by
  unfold Incidents.fireRows
  split
  · refine h.of_alerts fun a' ha' => ?_
    obtain ⟨a, ha, ⟨rfl, -⟩ | ⟨rfl, -⟩⟩ := Table.mem_updateIf ha'
    · exact ⟨a', ha, rfl, rfl, rfl⟩
    · exact ⟨a, ha, rfl, rfl, rfl⟩
  · refine ⟨h.unique, h.incident, fun a ha => ?_, h.signal, h.observation⟩
    rcases List.mem_append.mp ha with ha | ha
    · exact h.alert a ha
    · rw [List.mem_singleton.mp ha]
      exact ⟨i, hi, rfl, hreach, hbelongs⟩

/-- A signal of the incident's environment whose service reaches its root. -/
theorem addSignal (hi : i ∈ incidents) {s : Signal} (hid : s.incidentID = i.id)
    (hreach : graph.Reaches s.service i.service) (hne : s.service ≠ "")
    (horigin : s.origin.environment = i.environment)
    (hobservation : ∀ t, s.body.topology = some t → ∃ p,
      graph.path t.observedService t.rootService = some p ∧ t.dependencyPath = p.services) :
    Rooted graph incidents alerts (signals ++ [s]) := by
  refine ⟨h.unique, h.incident, h.alert, fun s' hs' => ?_, fun s' hs' => ?_⟩
  · rcases List.mem_append.mp hs' with hs' | hs'
    · exact h.signal s' hs'
    · rw [List.mem_singleton.mp hs']
      exact ⟨i, hi, hid.symm, hreach, hne, horigin⟩
  · rcases List.mem_append.mp hs' with hs' | hs'
    · exact h.observation s' hs'
    · rw [List.mem_singleton.mp hs']
      exact hobservation

/-- A new incident. -/
theorem create (hfresh : ∀ j ∈ incidents, j.id ≠ i.id) (hne : i.service ≠ "")
    (hbelongs : Belongs i.dedupeKey i.service i.environment) :
    Rooted graph (incidents ++ [i]) alerts signals := by
  refine ⟨Table.nodup_map_concat h.unique hfresh, fun j hj => ?_, fun a ha => ?_, fun s hs => ?_,
    h.observation⟩
  · rcases List.mem_append.mp hj with hj | hj
    · exact h.incident j hj
    · rw [List.mem_singleton.mp hj]
      exact ⟨hne, hbelongs⟩
  · obtain ⟨j, hj, hrest⟩ := h.alert a ha
    exact ⟨j, List.mem_append_left _ hj, hrest⟩
  · obtain ⟨j, hj, hrest⟩ := h.signal s hs
    exact ⟨j, List.mem_append_left _ hj, hrest⟩

/-- A root that moves along dependencies takes the attached alerts along. -/
theorem promote {old : IncidentRow} (hold : old ∈ incidents) (root : Root)
    (hreach : graph.Reaches old.service root.service) (hne : root.service ≠ "")
    (hbelongs : Belongs root.dedupeKey root.service old.environment) (now : Time) :
    Rooted graph (Table.updateIf (fun i => i.id = old.id) (IncidentRow.promote now root) incidents)
      alerts signals := by
  have hrow : ∀ i ∈ incidents, i.id = old.id → i = old := fun i hi hid => h.eq_of_id_eq hi hold hid
  -- the row of an incident afterwards is in the same environment, behind a root that the old one reaches
  have hafter : ∀ i ∈ incidents, ∃ i' ∈ Table.updateIf (fun i => i.id = old.id)
      (IncidentRow.promote now root) incidents, i'.id = i.id ∧ i'.environment = i.environment ∧
        graph.Reaches i.service i'.service := fun i hi => by
    obtain ⟨i', hi', ⟨rfl, -⟩ | ⟨rfl, hid⟩⟩ := Table.exists_mem_updateIf
      (p := fun i => i.id = old.id) (f := IncidentRow.promote now root) hi
    · exact ⟨i', hi', rfl, rfl, .refl⟩
    · exact ⟨_, hi', rfl, rfl, hrow i hi hid ▸ hreach⟩
  refine ⟨?_, fun i' hi' => ?_, fun a ha => ?_, fun s hs => ?_, h.observation⟩
  · rw [Table.map_updateIf (by exact fun _ => rfl)]
    exact h.unique
  · obtain ⟨i, hi, ⟨rfl, -⟩ | ⟨rfl, hid⟩⟩ := Table.mem_updateIf hi'
    · exact h.incident i' hi
    · rw [hrow i hi hid]
      exact ⟨hne, hbelongs⟩
  · obtain ⟨i, hi, hid, hai, hbelongs'⟩ := h.alert a ha
    obtain ⟨i', hi', hid', henv, hii'⟩ := hafter i hi
    exact ⟨i', hi', hid'.trans hid, hai.trans hii', henv ▸ hbelongs'⟩
  · obtain ⟨i, hi, hid, hsi, hsne, horigin⟩ := h.signal s hs
    obtain ⟨i', hi', hid', henv, hii'⟩ := hafter i hi
    exact ⟨i', hi', hid'.trans hid, hsi.trans hii', hsne, henv ▸ horigin⟩

end

end Rooted

/-! ## The alerts and the root of a group -/

/-- What the firing alerts of a delivery satisfy: keyed, without colons. -/
def Sound (alerts : List NormalizedAlert) : Prop :=
  ∀ a ∈ alerts, a.Keyed ∧ a.identity.ColonFree

theorem NormalizedAlert.Keyed.belongs (h : a.Keyed) (hfree : a.identity.ColonFree) :
    Belongs a.dedupeKey a.service a.environment :=
  ⟨a.alertName, a.fingerprint, hfree.tidy, h.key⟩

variable {graph : Graph} {alerts : List NormalizedAlert} {group : Group}

theorem mem_alertsForGroup :
    a ∈ alertsForGroup alerts group ↔
      a ∈ alerts ∧ a.environment = group.environment ∧ a.service ∈ group.members := by
  simp [alertsForGroup]

section

variable (h : group ∈ topologyGroupsByEnvironment graph alerts)

include h

/-- A group of a delivery is one of its environment's alerting services. -/
theorem mem_topologyGroupsByEnvironment :
    ∃ g ∈ graph.groups ((alerts.filter (·.environment == group.environment)).map (·.service)),
      group = { g with environment := group.environment } := by
  obtain ⟨environment, -, hmem⟩ := List.mem_flatMap.mp h
  obtain ⟨g, hg, rfl⟩ := List.mem_map.mp hmem
  exact ⟨g, hg, rfl⟩

theorem reaches_root_of_mem (ha : a ∈ alertsForGroup alerts group) :
    graph.Reaches a.service group.root := by
  obtain ⟨g, hg, hgroup⟩ := mem_topologyGroupsByEnvironment h
  have hmember := (mem_alertsForGroup.mp ha).2.2
  rw [hgroup] at hmember ⊢
  exact (Graph.reaches_root_of_mem_groups hg hmember :)

theorem root_ne_empty_of_mem : group.root ≠ "" := by
  obtain ⟨g, hg, hgroup⟩ := mem_topologyGroupsByEnvironment h
  obtain ⟨rest, -, hformed⟩ := Graph.formed_of_mem_groups hg
  rw [hgroup]
  exact hformed.root_ne_empty

end

theorem rootAlertForGroup_service (first : NormalizedAlert) (alerts : List NormalizedAlert)
    (root : String) : (rootAlertForGroup first alerts root).service = root := by
  unfold rootAlertForGroup
  cases hfind : alerts.find? (·.service == root) with
  | none => rfl
  | some a => simpa using List.find?_some hfind

/-- The alert of a group's root is either one of its alerts or stands for an inferred root. -/
theorem rootAlertForGroup_cases (first : NormalizedAlert) (alerts : List NormalizedAlert)
    (root : String) :
    rootAlertForGroup first alerts root ∈ alerts ∨
      rootAlertForGroup first alerts root = inferredRoot first alerts root := by
  unfold rootAlertForGroup
  cases hfind : alerts.find? (·.service == root) with
  | none => exact .inr rfl
  | some a => exact .inl (List.mem_of_find?_eq_some hfind)

section

variable {first : NormalizedAlert} {rest : List NormalizedAlert}

theorem rootAlert_environment (hsome : alertsForGroup alerts group = first :: rest) :
    (rootAlertForGroup first (first :: rest) group.root).environment = group.environment := by
  have hmem : ∀ a ∈ first :: rest, a.environment = group.environment := fun a ha =>
    (mem_alertsForGroup.mp (hsome ▸ ha)).2.1
  rcases rootAlertForGroup_cases first (first :: rest) group.root with hin | heq
  · exact hmem _ hin
  · rw [heq]
    exact hmem first List.mem_cons_self

/-- The key of a group's root alert belongs to the root in the group's environment. -/
theorem rootAlert_belongs (hsound : Sound alerts)
    (hsome : alertsForGroup alerts group = first :: rest) :
    Belongs (rootAlertForGroup first (first :: rest) group.root).dedupeKey group.root
      group.environment := by
  have hmem : ∀ a ∈ first :: rest, a ∈ alerts ∧ a.environment = group.environment := fun a ha =>
    ⟨(mem_alertsForGroup.mp (hsome ▸ ha)).1, (mem_alertsForGroup.mp (hsome ▸ ha)).2.1⟩
  rcases rootAlertForGroup_cases first (first :: rest) group.root with hin | heq
  · obtain ⟨hin', henv⟩ := hmem _ hin
    obtain ⟨hkeyed, hfree⟩ := hsound _ hin'
    have hbelongs := hkeyed.belongs hfree
    rwa [rootAlertForGroup_service, henv] at hbelongs
  · obtain ⟨hin', henv⟩ := hmem first List.mem_cons_self
    have hfree := (hsound first hin').2.environment
    rw [heq, ← henv]
    exact ⟨correlatedAlert, "topology-" ++ group.root, Identity.tidy_inferred hfree group.root, rfl⟩

theorem rootDedupeKey_belongs (hsound : Sound alerts)
    (hsome : alertsForGroup alerts group = first :: rest) :
    Belongs (rootDedupeKey group (rootAlertForGroup first (first :: rest) group.root)) group.root
      group.environment := by
  unfold rootDedupeKey
  split
  · have hfirst : first ∈ alerts := (mem_alertsForGroup.mp (hsome ▸ List.mem_cons_self)).1
    have henv : first.environment = group.environment :=
      (mem_alertsForGroup.mp (hsome ▸ List.mem_cons_self)).2.1
    have hfree : ':' ∉ group.environment.toList := henv ▸ (hsound first hfirst).2.environment
    rw [rootAlert_environment hsome]
    exact ⟨correlatedAlert, "topology-" ++ group.root, Identity.tidy_inferred hfree group.root, rfl⟩
  · exact rootAlert_belongs hsound hsome

end

end Argus.Incidents

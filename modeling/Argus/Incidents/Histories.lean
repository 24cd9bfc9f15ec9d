import Argus.Incidents.Deliveries

/-!
# Histories of a store

A history is a sequence of deliveries, each a transaction at its own time that commits or is rolled
back, and of operators' transitions. Histories whose labels have no colon keep every alert behind the
root of its incident, and in its own environment. With colons two alerts of different environments can
have one key.
-/

namespace Argus.Incidents

open Sorting Topology

/-- `IngestAlertmanagerWithResult` as its caller sees it: a delivery that fails is rolled back. -/
def Db.deliver (grouping : Grouping) (payload : Webhook) (actor : String) (now : Time)
    (oracle : ℕ → Oracle) (db : Db) : Except String IngestionResult × Db :=
  match ingestAlertmanager grouping payload actor now oracle db with
  | .error e => (.error e, db)
  | .ok (result, db') => (.ok result, db')

/-- What happens to a store. -/
inductive Event where
  | delivery (payload : Webhook) (actor : String) (now : Time) (oracle : ℕ → Oracle)
  | transition (id : String) (status : Status) (now : Time)

namespace Event

/-- When it happens. -/
def now : Event → Time
  | delivery _ _ now _ => now
  | transition _ _ now => now

/-- A delivery without colons in the labels that enter a dedupe key. -/
def ColonFree : Event → Prop
  | delivery payload _ _ _ => payload.ColonFree
  | transition _ _ _ => True

instance : DecidablePred ColonFree
  | delivery payload _ _ _ => inferInstanceAs (Decidable payload.ColonFree)
  | transition _ _ _ => inferInstanceAs (Decidable True)

end Event

def Db.step (grouping : Grouping) (db : Db) : Event → Db
  | .delivery payload actor now oracle => (db.deliver grouping payload actor now oracle).2
  | .transition id status now => db.transitionIncident now id status

def Db.run (grouping : Grouping) (db : Db) (events : List Event) : Db :=
  events.foldl (Db.step grouping) db

/-- The condition holds of every event in the store that it finds. -/
def Db.AtEach (grouping : Grouping) (P : Db → Event → Prop) (db : Db) (events : List Event) : Prop :=
  ∀ done e rest, events = done ++ e :: rest → P (db.run grouping done) e

variable {db : Db} {e : Event} {graph : Graph} {grouping : Grouping} {i : IncidentRow}
  {events : List Event} {alert : NormalizedAlert} {actor : String} {v v' v₀ : View}
  {payload : Webhook}

section

variable {grouping : Grouping} {P : Db → Event → Prop} {db : Db}

theorem Db.atEach_nil : db.AtEach grouping P [] := by
  intro done e rest h
  simp at h

theorem Db.AtEach.cons (h : P db e) (hrest : (db.step grouping e).AtEach grouping P events) :
    db.AtEach grouping P (e :: events) := by
  intro done d rest heq
  cases done with
  | nil =>
    obtain ⟨rfl, -⟩ := List.cons.inj heq
    exact h
  | cons first done =>
    obtain ⟨rfl, hevents⟩ := List.cons.inj heq
    exact hrest done d rest hevents

theorem Db.AtEach.of_append {later : List Event} (h : db.AtEach grouping P (events ++ later)) :
    db.AtEach grouping P events := by
  intro done e rest heq
  refine h done e (rest ++ later) ?_
  rw [heq, List.append_assoc]
  rfl

end

/-- A store in which no incident has been opened. -/
structure Db.Untouched (db : Db) : Prop where
  incidents : db.incidents = []
  alerts : db.alerts = []
  signals : db.signals = []

/-- A delivery leaves the store as it was, or as an ingestion leaves it. -/
theorem Db.deliver_cases (grouping : Grouping) (payload : Webhook) (actor : String) (now : Time)
    (oracle : ℕ → Oracle) (db : Db) :
    (db.deliver grouping payload actor now oracle).2 = db ∨
      ∃ v' result alerts resolved v₁ v₂ stats,
        v'.db = (db.deliver grouping payload actor now oracle).2 ∧
        Ingested grouping payload (.start now db) v' result alerts resolved v₁ v₂ stats := by
  unfold Db.deliver
  split
  · exact .inl rfl
  · rename_i result db' hok
    obtain ⟨v', hdb, alerts, resolved, v₁, v₂, stats, hingested⟩ :=
      ingested_of_ingestAlertmanager hok
    exact .inr ⟨v', result, alerts, resolved, v₁, v₂, stats, hdb, hingested⟩

/-! ## Alerts behind their root -/

theorem Db.Untouched.rooted (h : db.Untouched) : db.Rooted := by
  unfold Db.Rooted
  rw [h.incidents, h.alerts, h.signals]
  refine ⟨List.nodup_nil, ?_, ?_, ?_, ?_⟩ <;>
    · intro _ hmem
      cases hmem

theorem Db.Rooted.step (grouping : Grouping) (h : db.Rooted) (hfree : e.ColonFree) :
    (db.step grouping e).Rooted ∧ (db.step grouping e).dependencies = db.dependencies := by
  cases e with
  | delivery payload actor now oracle =>
    rcases db.deliver_cases grouping payload actor now oracle with
      heq | ⟨v', result, alerts, resolved, v₁, v₂, stats, hdb, hingested⟩
    · show (db.deliver grouping payload actor now oracle).2.Rooted ∧
        (db.deliver grouping payload actor now oracle).2.dependencies = _
      rw [heq]
      exact ⟨h, rfl⟩
    · show (db.deliver grouping payload actor now oracle).2.Rooted ∧
        (db.deliver grouping payload actor now oracle).2.dependencies = _
      rw [← hdb]
      exact hingested.rooted hfree h
  | transition id status now =>
    exact ⟨Incidents.Rooted.of_places h (place_transitionIncident ..), rfl⟩

theorem Db.Rooted.run (grouping : Grouping) (h : db.Rooted) (hfree : ∀ e ∈ events, e.ColonFree) :
    (db.run grouping events).Rooted ∧ (db.run grouping events).dependencies = db.dependencies := by
  induction events generalizing db with
  | nil => exact ⟨h, rfl⟩
  | cons e events ih =>
    obtain ⟨hstep, hdeps⟩ := h.step grouping (hfree e List.mem_cons_self)
    obtain ⟨hrun, hdeps'⟩ := ih hstep fun e he => hfree e (List.mem_cons_of_mem _ he)
    exact ⟨hrun, hdeps'.trans hdeps⟩

/-- The topology of an incident whose signals are behind its root has all paths. -/
theorem exists_path_of_mem_affectedServices {observed : List String} (hroot : i.service ≠ "")
    (hobserved : ∀ s ∈ observed, graph.Reaches s i.service) {s : String}
    (hs : s ∈ (topologyOf graph i observed).affectedServices) (hne : s ≠ i.service) :
    ∃ p ∈ (topologyOf graph i observed).paths, p.source = s ∧ p.target = i.service ∧
      graph.IsPath p.services s i.service := by
  have hmem := List.mem_filter.mp (mem_sortStrings.mp hs)
  have hnamed : s ≠ "" := by simpa using hmem.2
  have hin : s ∈ observed := by
    rcases List.mem_cons.mp (List.mem_dedup.mp hmem.1) with heq | hin
    · exact absurd heq hne
    · exact hin
  obtain ⟨p, hp⟩ := Option.isSome_iff_exists.mp
    (Graph.path_isSome_iff.mpr ⟨hnamed, hroot, hobserved s hin⟩)
  refine ⟨p, List.mem_filterMap.mpr ⟨s, List.mem_filter.mpr ⟨hs, decide_eq_true hne⟩, hp⟩, ?_⟩
  exact Graph.path_sound hp

/-- **Every attached alert depends on its incident's root.** After any history without colons, the
service of every alert row and of every signal of an incident equals or reaches the incident's current
root; every recorded topology has a real path, so the fallback was never taken; and the topology of an
incident has a path for every affected service but the root. -/
theorem attached_behind_root (grouping : Grouping) (db : Db) (hnone : db.Untouched)
    (events : List Event) (hfree : ∀ e ∈ events, e.ColonFree) :
    let graph := Graph.new db.dependencies
    let db' := db.run grouping events
    (∀ a ∈ db'.alerts, ∀ i ∈ db'.incidents, i.id = a.incidentID →
      graph.Reaches a.service i.service) ∧
    (∀ s ∈ db'.signals, ∀ i ∈ db'.incidents, i.id = s.incidentID →
      graph.Reaches s.service i.service) ∧
    (∀ s ∈ db'.signals, ∀ t, s.body.topology = some t →
      ∃ p, graph.path t.observedService t.rootService = some p ∧ t.dependencyPath = p.services) ∧
    ∀ id now topology v', (getIncidentTopology id).Runs Eq (.start now db') topology v' →
      ∀ s ∈ topology.affectedServices, s ≠ topology.rootService →
        ∃ p ∈ topology.paths, p.source = s ∧ p.target = topology.rootService ∧
          graph.IsPath p.services s topology.rootService := by
  obtain ⟨hrooted, hdeps⟩ := hnone.rooted.run grouping hfree
  unfold Db.Rooted at hrooted
  rw [hdeps] at hrooted
  have hsignal : ∀ s ∈ (db.run grouping events).signals,
      ∀ i ∈ (db.run grouping events).incidents, i.id = s.incidentID →
        (Graph.new db.dependencies).Reaches s.service i.service := fun s hs i hi hid => by
    obtain ⟨j, hj, hjid, hreach, -⟩ := hrooted.signal s hs
    rwa [hrooted.eq_of_id_eq hi hj (hid.trans hjid.symm)]
  refine ⟨fun a ha i hi hid => ?_, hsignal, hrooted.observation, ?_⟩
  · obtain ⟨j, hj, hjid, hreach, -⟩ := hrooted.alert a ha
    rwa [hrooted.eq_of_id_eq hi hj (hid.trans hjid.symm)]
  · intro id now topology v' hrun
    obtain ⟨-, i, hfind, rfl⟩ := getIncidentTopology_runs hrun
    have hi := List.mem_of_find?_eq_some hfind
    have hid : i.id = id := by simpa using List.find?_some hfind
    have hobserved : ∀ s ∈ (db.run grouping events).observed id,
        (Graph.new db.dependencies).Reaches s i.service := fun s hs => by
      obtain ⟨signal, hsignalMem, rfl⟩ := List.mem_map.mp hs
      obtain ⟨hmem, hmatch⟩ := List.mem_filter.mp hsignalMem
      have hsid : signal.incidentID = id := by simpa using (Bool.and_eq_true_iff.mp hmatch).1
      exact hsignal signal hmem i hi (hid.trans hsid.symm)
    have hgraph : Graph.new (View.start now (db.run grouping events)).db.dependencies =
        Graph.new db.dependencies := congrArg Graph.new hdeps
    rw [hgraph]
    intro s hs hne
    exact exists_path_of_mem_affectedServices (hrooted.incident i hi).1 hobserved hs hne

/-- An alert with the labels that identify it. -/
def plainAlert (status service alertName environment fingerprint : String) : Alert where
  status := status
  labels := [("alertname", alertName), ("environment", environment), ("service", service)]
  annotations := []
  startsAt := 0
  endsAt := 0
  fingerprint := fingerprint
  generatorURL := ""

/-- A delivery that meets no error; its new rows have identifiers that start with `tag`. -/
def plainDelivery (now : Time) (tag : String) (alerts : List Alert) : Event :=
  .delivery ⟨0, "", [], [], alerts⟩ "alertmanager" now fun n => { fresh := tag ++ toString n }

/-- A store with dependencies and nothing else. -/
def emptyDb (dependencies : List Dependency) : Db := ⟨[], dependencies, [], [], [], [], []⟩

/-- The alert of a dependency takes the root of an incident over, and the alert attached before reaches
it. -/
theorem attached_behind_root_promoted :
    let db := emptyDb [⟨"checkout-api", "payments-api"⟩]
    let events := [
      plainDelivery 1 "a" [plainAlert "firing" "checkout-api" "Slow" "prod" "f1"],
      plainDelivery 2 "b" [plainAlert "firing" "payments-api" "Down" "prod" "f2"]]
    let db' := db.run ⟨100, 100⟩ events
    (db'.alerts.map fun a => (a.incidentID, a.service)) =
        [("a9", "checkout-api"), ("a9", "payments-api")] ∧
      (db'.incidents.map fun i => (i.id, i.service)) = [("a9", "payments-api")] ∧
      ∀ a ∈ db'.alerts, ∀ i ∈ db'.incidents, i.id = a.incidentID →
        (Graph.new db.dependencies).Reaches a.service i.service :=
  ⟨by decide +kernel, by decide +kernel,
    (attached_behind_root ⟨100, 100⟩ (emptyDb [⟨"checkout-api", "payments-api"⟩]) ⟨rfl, rfl, rfl⟩ _
      (by decide +kernel)).1⟩

/-! ## Environments -/

/-- Nothing of the incident changed. -/
structure SameIncident (id : String) (db db' : Db) : Prop where
  incident : db'.incidents.filter (·.id == id) = db.incidents.filter (·.id == id)
  alerts : db'.alerts.filter (·.incidentID == id) = db.alerts.filter (·.incidentID == id)
  signals : db'.signals.filter (·.incidentID == id) = db.signals.filter (·.incidentID == id)
  timeline : db'.timeline.filter (·.incidentID == id) = db.timeline.filter (·.incidentID == id)

/-- A resolved notification changes no other incident than the one it is applied to. -/
theorem Resolved.sameIncident {staleAfter : Time} {id other : String}
    (h : Resolved staleAfter v v' id alert) (hne : other ≠ id) : SameIncident other v.db v'.db := by
  obtain ⟨resolvedAt, halerts⟩ := h.alerts
  obtain ⟨resolvedAt', sid, at_, hsignals⟩ := h.signals
  obtain ⟨events, htimeline, hevents⟩ := h.events
  have hfalse : ∀ x : String, x = id → (x == other) = false := fun x hx => by
    rw [hx]
    exact beq_false_of_ne hne.symm
  refine ⟨?_, ?_, ?_, ?_⟩
  · rw [h.incidents]
    exact Table.filter_updateIf (fun i hi => ⟨hfalse i.id hi, hfalse i.id hi⟩) _
  · rw [halerts]
    exact Table.filter_updateIf
      (fun a ha => ⟨hfalse a.incidentID ha.1, hfalse a.incidentID ha.1⟩) _
  · rw [hsignals, List.filter_append]
    simp [resolvedSignal, hne.symm]
  · have hnil : events.filter (·.incidentID == other) = [] := by
      rw [List.filter_eq_nil_iff]
      intro e he
      rw [hfalse e.incidentID (hevents e he).1]
      decide
    rw [htimeline, List.filter_append, hnil, List.append_nil]

/-- In a delivery that starts in `v₀`, the resolved notification is applied in `v` and leaves `v'`. -/
def Resolves (grouping : Grouping) (payload : Webhook) (actor : String) (v₀ : View)
    (alert : NormalizedAlert) (v v' : View) : Prop :=
  ∃ alerts done rest v₁ stats stats',
    (normalizeAlerts payload).Runs Eq v₀ (alerts, done ++ alert :: rest) v₁ ∧
    (done.foldlM (resolveAlert grouping actor) (.start payload alerts)).Runs Eq v₁ stats v ∧
    (resolveAlert grouping actor stats alert).Runs Eq v stats' v'

/-- `ingest` up to the `n`-th group of its firing alerts. -/
def ingestUntil (grouping : Grouping) (payload : Webhook) (actor : String) (n : ℕ) :
    Statement (Graph × List NormalizedAlert × Progress) := do
  let (alerts, resolved) ← normalizeAlerts payload
  let stats ← resolved.foldlM (resolveAlert grouping actor) (IngestionStats.start payload alerts)
  let dependencies ← listServiceDependencies
  let graph := Graph.new dependencies
  let openIncidents ← listOpenIncidents grouping
  let progress ← ((topologyGroupsByEnvironment graph alerts).take n).foldlM
    (ingestGroup grouping graph alerts actor) ⟨[], openIncidents, stats⟩
  return (graph, alerts, progress)

/-- In a delivery that starts in `v₀` with these firing alerts, the loop over the groups comes to `group`
in `v`. -/
def Reached (grouping : Grouping) (payload : Webhook) (actor : String) (v₀ : View) (graph : Graph)
    (alerts : List NormalizedAlert) (group : Group) (progress : Progress) (v : View) : Prop :=
  ∃ n, (topologyGroupsByEnvironment graph alerts)[n]? = some group ∧
    (ingestUntil grouping payload actor n).Runs Eq v₀ (graph, alerts, progress) v

theorem Reached.mem {alerts : List NormalizedAlert} {group : Group} {progress : Progress}
    (h : Reached grouping payload actor v₀ graph alerts group progress v) :
    group ∈ topologyGroupsByEnvironment graph alerts := by
  obtain ⟨n, hn, -⟩ := h
  exact List.mem_of_getElem? hn

theorem Resolves.sameIncident (h : Resolves grouping payload actor v₀ alert v v')
    (hfree : payload.ColonFree) (hrooted : v₀.Rooted graph) (hi : i ∈ v.db.incidents)
    (henv : i.environment ≠ alert.environment) : SameIncident i.id v.db v'.db := by
  obtain ⟨alerts, done, rest, v₁, stats, stats', hnormalize, hdone, hresolve⟩ := h
  obtain ⟨hsame, hsplit⟩ := normalizeAlerts_runs hnormalize
  have hsound := (hsplit.sound hfree).2
  have hrooted' := ((resolveAlerts_runs hdone).rooted
    (fun a ha => hsound a (List.mem_append_left _ ha)) (hsame.rooted hrooted)).1
  rcases resolveAlert_runs hresolve with
    ⟨hdb, -, -, -⟩ | ⟨j, hj, -, hfires, hresolved, -⟩
  · rw [hdb]
    exact ⟨rfl, rfl, rfl, rfl⟩
  · -- the key of the alert names the environment of the incident on which it fires
    obtain ⟨hkeyed, halertFree⟩ := hsound alert (List.mem_append_right _ List.mem_cons_self)
    obtain ⟨service, -, hbelongs⟩ := Rooted.belongs_of_firesOn hrooted' hj hfires
    have hjenv := (hbelongs.unique (hkeyed.belongs halertFree)).2
    refine hresolved.sameIncident fun hid => henv ?_
    rw [hrooted'.eq_of_id_eq hi hj hid]
    exact hjenv

/-- **Environment isolation.** After any history without colons, every alert attached to an incident is
of the incident's environment; and in a further delivery without colons, every resolved notification
leaves the incidents of other environments as they were. -/
theorem environment_isolation (grouping : Grouping) (db : Db) (hnone : db.Untouched)
    (events : List Event) (hfree : ∀ e ∈ events, e.ColonFree) :
    let db' := db.run grouping events
    (∀ s ∈ db'.signals, ∃ i ∈ db'.incidents, i.id = s.incidentID ∧
      i.environment = s.origin.environment) ∧
    (∀ i ∈ db'.incidents, ∀ j ∈ db'.incidents, i.id = j.id → i = j) ∧
    ∀ payload actor now alert v v', payload.ColonFree →
      Resolves grouping payload actor (.start now db') alert v v' →
      ∀ i ∈ v.db.incidents, i.environment ≠ alert.environment → SameIncident i.id v.db v'.db := by
  obtain ⟨hrooted, -⟩ := hnone.rooted.run grouping hfree
  refine ⟨fun s hs => ?_, fun i hi j hj hid => hrooted.eq_of_id_eq hi hj hid, ?_⟩
  · obtain ⟨i, hi, hid, -, -, henv⟩ := hrooted.signal s hs
    exact ⟨i, hi, hid, henv.symm⟩
  · intro payload actor now alert v v' hpayload hresolves i hi henv
    have hview : (View.start now (db.run grouping events)).Rooted
        (Graph.new (db.run grouping events).dependencies) := hrooted
    exact hresolves.sameIncident hpayload hview hi henv

/-- Two environments, each with an alert of the same service. -/
theorem environment_isolation_two :
    let db := emptyDb []
    let events := [
      plainDelivery 1 "a" [plainAlert "firing" "checkout-api" "Slow" "prod" "f"],
      plainDelivery 2 "b" [plainAlert "firing" "checkout-api" "Slow" "staging" "f"]]
    let db' := db.run ⟨100, 100⟩ events
    (db'.incidents.map (·.environment)) = ["prod", "staging"] ∧
      ∀ s ∈ db'.signals, ∃ i ∈ db'.incidents, i.id = s.incidentID ∧
        i.environment = s.origin.environment :=
  ⟨by decide +kernel,
    (environment_isolation ⟨100, 100⟩ (emptyDb []) ⟨rfl, rfl, rfl⟩ _ (by decide +kernel)).1⟩

/-- Colons make the keys of two environments equal: the alert of `e` joins the incident of `e:x`. -/
theorem environment_crossed :
    let db' := (emptyDb []).run ⟨100, 100⟩ [
      plainDelivery 1 "a" [plainAlert "firing" "s" "n" "e:x" "f"],
      plainDelivery 2 "b" [plainAlert "firing" "s" "n" "e" "x:f"]]
    ∃ s ∈ db'.signals, ∃ i ∈ db'.incidents, i.id = s.incidentID ∧ s.origin.environment = "e" ∧
      i.environment = "e:x" := by
  decide +kernel

end Argus.Incidents

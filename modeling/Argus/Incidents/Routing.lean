import Argus.Incidents.FiringOnce

/-!
# Routing keeps every key with one incident

The groups of a delivery bring different keys, so only the state before the delivery matters: a group
that brings a key which an incident holds must go to that incident. It does if the alert with that key
is alone in its environment, since it is then its own root. `Steady` histories are those in which this is
so, without stale alerts; in them a key fires on at most one open incident.
-/

namespace Argus.Incidents

open Sorting Topology

variable {grouping : Grouping} {graph : Graph} {alerts : List NormalizedAlert} {group : Group}
  {first : NormalizedAlert} {rest : List NormalizedAlert} {v v' : View}

/-! ## The keys of a group -/

theorem inferred_iff_of_mem (h : group ∈ topologyGroupsByEnvironment graph alerts) :
    group.inferred = true ↔
      group.root ∉ (alerts.filter (·.environment == group.environment)).map (·.service) := by
  obtain ⟨g, hg, hgroup⟩ := mem_topologyGroupsByEnvironment h
  have hiff := Graph.inferred_iff_of_mem_groups hg
  rw [hgroup]
  exact hiff

theorem root_mem_of_mem (h : group ∈ topologyGroupsByEnvironment graph alerts)
    (hroot : group.inferred = false) : group.root ∈ group.members := by
  obtain ⟨g, hg, hgroup⟩ := mem_topologyGroupsByEnvironment h
  rw [hgroup] at hroot
  have hmem := Graph.root_mem_of_mem_groups hg hroot
  rw [hgroup]
  exact hmem

variable {a : NormalizedAlert}

/-- The service of an alert of a group is one of its environment's alerting services. -/
theorem service_mem_of_mem (ha : a ∈ alertsForGroup alerts group) :
    a.service ∈ (alerts.filter (·.environment == group.environment)).map (·.service) := by
  obtain ⟨hmem, henv, -⟩ := mem_alertsForGroup.mp ha
  exact List.mem_map_of_mem (List.mem_filter.mpr ⟨hmem, beq_iff_eq.mpr henv⟩)

theorem rootAlertForGroup_of_inferred (h : group ∈ topologyGroupsByEnvironment graph alerts)
    (hinferred : group.inferred = true) (hsome : alertsForGroup alerts group = first :: rest) :
    rootAlertForGroup first (first :: rest) group.root =
      inferredRoot first (first :: rest) group.root := by
  have hnone : (first :: rest).find? (·.service == group.root) = none := by
    rw [List.find?_eq_none]
    intro a ha heq
    refine (inferred_iff_of_mem h).mp hinferred ?_
    rw [← beq_iff_eq.mp heq]
    exact service_mem_of_mem (hsome ▸ ha)
  rw [rootAlertForGroup, hnone]
  rfl

/-- An incident behind the root of a group gets the key of the root's alert. -/
theorem rootDedupeKey_eq (h : group ∈ topologyGroupsByEnvironment graph alerts)
    (hsome : alertsForGroup alerts group = first :: rest) :
    rootDedupeKey group (rootAlertForGroup first (first :: rest) group.root) =
      (rootAlertForGroup first (first :: rest) group.root).dedupeKey := by
  unfold rootDedupeKey
  split
  · rename_i hinferred
    rw [rootAlertForGroup_of_inferred h hinferred hsome]
    rfl
  · rfl

variable {key : String}

/-- An alert alone in its environment is the root of its group. -/
theorem rootAlert_of_alone (hsound : Sound alerts)
    (h : group ∈ topologyGroupsByEnvironment graph alerts)
    (hsome : alertsForGroup alerts group = first :: rest)
    (halone : ∀ a ∈ alerts, a.environment = group.environment → a.dedupeKey = key) :
    (rootAlertForGroup first (first :: rest) group.root).dedupeKey = key := by
  have hfirst := mem_alertsForGroup.mp (hsome ▸ List.mem_cons_self (a := first) (l := rest))
  have hservice : ∀ a ∈ alerts, a.environment = group.environment → a.service = first.service :=
    fun a ha henv => by
      have hkeyed := (hsound a ha).1.belongs (hsound a ha).2
      have hkeyed' := (hsound first hfirst.1).1.belongs (hsound first hfirst.1).2
      rw [halone a ha henv] at hkeyed
      rw [halone first hfirst.1 hfirst.2.1] at hkeyed'
      exact (hkeyed.unique hkeyed').1
  have hroot : group.root = first.service := by
    obtain ⟨g, hg, hgroup⟩ := mem_topologyGroupsByEnvironment h
    have hlone := Graph.root_of_alone (hsound first hfirst.1).1.named (fun t ht => by
      obtain ⟨a, ha, rfl⟩ := List.mem_map.mp ht
      obtain ⟨hmem, henv⟩ := List.mem_filter.mp ha
      exact hservice a hmem (beq_iff_eq.mp henv)) hg
    rw [hgroup]
    exact hlone
  have hfind : (first :: rest).find? (·.service == group.root) = some first := by
    rw [hroot]
    simp
  rw [rootAlertForGroup, hfind, Option.getD_some]
  exact halone first hfirst.1 hfirst.2.1

/-- The keys that a group brings: those of its alerts and those of its root. -/
def KeyOf (alerts : List NormalizedAlert) (group : Group) (key : String) : Prop :=
  (∃ a ∈ alertsForGroup alerts group, key = a.dedupeKey) ∨ Belongs key group.root group.environment

/-- Different groups bring different keys of alerts. -/
theorem not_keyOf {other : Group} (hsound : Sound alerts)
    (hother : other ∈ topologyGroupsByEnvironment graph alerts)
    (hdisjoint : other.environment ≠ group.environment ∨ other.members.Disjoint group.members)
    (ha : a ∈ alertsForGroup alerts group) : ¬ KeyOf alerts other a.dedupeKey := by
  obtain ⟨hmem, henv, hmember⟩ := mem_alertsForGroup.mp ha
  have hbelongs := (hsound a hmem).1.belongs (hsound a hmem).2
  rintro (⟨b, hb, hkey⟩ | hroot)
  · obtain ⟨hbmem, hbenv, hbmember⟩ := mem_alertsForGroup.mp hb
    have hbelongs' := (hsound b hbmem).1.belongs (hsound b hbmem).2
    rw [← hkey] at hbelongs'
    obtain ⟨hservice, henvironment⟩ := hbelongs.unique hbelongs'
    rcases hdisjoint with hne | hdisjoint
    · exact hne (hbenv.symm.trans (henvironment.symm.trans henv))
    · exact hdisjoint hbmember (hservice ▸ hmember)
  · obtain ⟨hservice, henvironment⟩ := hbelongs.unique hroot
    rcases hdisjoint with hne | hdisjoint
    · exact hne (henvironment.symm.trans henv)
    · cases hinferred : other.inferred with
      | false => exact hdisjoint (root_mem_of_mem hother hinferred) (hservice ▸ hmember)
      | true =>
        refine (inferred_iff_of_mem hother).mp hinferred ?_
        rw [← hservice, ← henvironment, henv]
        exact service_mem_of_mem ha

/-! ## The loop over the groups -/

/-- An alert whose key is held is alone in its environment. -/
def Alone (grouping : Grouping) (alerts : List NormalizedAlert) (v : View) : Prop :=
  ∀ a ∈ alerts, ∀ b ∈ alerts, a.environment = b.environment →
    (∃ i, v.db.Holds grouping v.now a.dedupeKey i) → b.dedupeKey = a.dedupeKey

/-- What holds after the groups `done`, from the state `v₀` on. -/
structure Routed (grouping : Grouping) (graph : Graph) (alerts : List NormalizedAlert) (v₀ : View)
    (done : List Group) (openIncidents : List IncidentRow) (v : View) : Prop where
  now : v.now = v₀.now
  rooted : v.Rooted graph
  current : Current openIncidents v.db.incidents
  accepting : Accepting grouping openIncidents v
  fresh : v.db.Fresh grouping v.now
  sole : v.db.Sole grouping v.now
  origin : ∀ key j, v.db.Holds grouping v.now key j →
    (∃ i, v₀.db.Holds grouping v₀.now key i) ∨ ∃ g ∈ done, KeyOf alerts g key

variable {result : IngestionResult} {stats' : IngestionStats} {events : List Event}
  {groups : List Group} {progress progress' : Progress} {v₁ v₂ : View}

section

variable {v₀ : View} {done : List Group} {progress progress' : Progress}

/-- The alert of a root is attached where it is held. -/
theorem Found.held {root : NormalizedAlert} {openIncidents : List IncidentRow}
    {incident : IncidentRow} {origin : Origin}
    (h : Found grouping graph group root openIncidents v v' incident origin)
    (hroot : root.service = group.root) (hsole : v.db.Sole grouping v.now) {j : IncidentRow}
    (hj : v.db.Holds grouping v.now root.dedupeKey j) : j.id = incident.id := by
  have hheld : ¬ NoExact grouping group root v := fun hnone => by
    have hnot := hnone hroot j hj.mem hj.active
    rw [hj.carries] at hnot
    cases hnot
  cases h with
  | exact _ hmem hactive hcarries _ => exact hsole _ j _ hj ⟨hmem, hactive, hcarries⟩
  | related hnone | promoted hnone | created hnone => exact absurd hnone hheld

theorem Grouped.routed (hstale : 0 < grouping.alertStaleAfter) (hsound : Sound alerts)
    (halone : Alone grouping alerts v₀)
    (hgroups : ∀ g ∈ done, g ∈ topologyGroupsByEnvironment graph alerts)
    (hgroup : group ∈ topologyGroupsByEnvironment graph alerts)
    (hdisjoint : ∀ g ∈ done, g.environment ≠ group.environment ∨ g.members.Disjoint group.members)
    (h : Routed grouping graph alerts v₀ done progress.openIncidents v)
    (hstep : Grouped grouping graph alerts group progress progress' v v') :
    Routed grouping graph alerts v₀ (done ++ [group]) progress'.openIncidents v' := by
  obtain ⟨hrooted', hcurrent', -⟩ := hstep.rooted hsound hgroup h.rooted h.current
  cases hstep with
  | empty _ hprogress hview =>
    rw [hprogress, hview]
    refine ⟨h.now, h.rooted, h.current, h.accepting, h.fresh, h.sole, fun key j hj => ?_⟩
    exact (h.origin key j hj).imp_right fun ⟨g, hg, hkey⟩ => ⟨g, List.mem_append_left _ hg, hkey⟩
  | @attached first rest incident origin rootInferred v₁ v₂ ht =>
    have hsettled := (ht.found.settled h.rooted h.accepting).of_sameRows ht.same
    have htouched := ht.attached.touched
    have hroot := rootAlertForGroup_service first (first :: rest) group.root
    -- nobody else holds a key of the group's alerts
    have hkeys : ∀ k j, (∃ a ∈ first :: rest, k = a.dedupeKey) →
        v.db.Holds grouping v.now k j → j.id = incident.id := by
      rintro k j ⟨a, ha, rfl⟩ hj
      have hmem : a ∈ alertsForGroup alerts group := ht.some ▸ ha
      rcases h.origin _ j hj with hheld | ⟨g, hg, hkey⟩
      · have hkey := rootAlert_of_alone hsound hgroup ht.some fun b hb henv =>
          halone a (mem_alertsForGroup.mp hmem).1 b hb
            ((mem_alertsForGroup.mp hmem).2.1.trans henv.symm) hheld
        exact ht.found.held hroot h.sole (by rw [hkey]; exact hj)
      · exact absurd hkey (not_keyOf hsound (hgroups g hg) (hdisjoint g hg) hmem)
    have hmoved : ∀ j, origin ≠ .existing → v.db.Holds grouping v.now
        (rootDedupeKey group (rootAlertForGroup first (first :: rest) group.root)) j →
        j.id = incident.id := fun j _ hj => by
      rw [rootDedupeKey_eq hgroup ht.some] at hj
      exact ht.found.held hroot h.sole hj
    refine ⟨(htouched.now.trans hsettled.now).trans h.now, hrooted', hcurrent', ?_,
      hsettled.fresh htouched hstale h.fresh,
      hsettled.sole htouched h.sole hkeys hmoved, fun key j' hj' => ?_⟩
    · rw [ht.openIncidents]
      exact hsettled.accepting htouched hstale (ht.attached.seen (.inl (List.cons_ne_nil _ _)))
        h.current.unique h.accepting
    · rcases hsettled.holds htouched hj' with ⟨j, hj, -⟩ | ⟨-, hkey⟩
      · exact (h.origin key j hj).imp_right fun ⟨g, hg, hkey⟩ =>
          ⟨g, List.mem_append_left _ hg, hkey⟩
      · refine .inr ⟨group, List.mem_append_right _ (List.mem_singleton_self _), ?_⟩
        rcases hkey with ⟨a, ha, hkey⟩ | ⟨-, hkey⟩
        · exact .inl ⟨a, ht.some ▸ ha, hkey⟩
        · exact .inr (hkey ▸ rootDedupeKey_belongs hsound ht.some)

theorem GroupedAll.routed (hstale : 0 < grouping.alertStaleAfter) (hsound : Sound alerts)
    (halone : Alone grouping alerts v₀)
    (hgroups : done ++ groups = topologyGroupsByEnvironment graph alerts)
    (h : Routed grouping graph alerts v₀ done progress.openIncidents v)
    (hrun : GroupedAll grouping graph alerts groups progress progress' v v') :
    Routed grouping graph alerts v₀ (topologyGroupsByEnvironment graph alerts)
      progress'.openIncidents v' := by
  induction hrun generalizing done with
  | nil =>
    rw [← hgroups, List.append_nil]
    exact h
  | @cons group groups progress progress₁ progress' v v₁ v' hfirst _ ih =>
    have hmem : ∀ g ∈ done ++ group :: groups,
        g ∈ topologyGroupsByEnvironment graph alerts := fun g hg => hgroups ▸ hg
    have hpairwise := topologyGroupsByEnvironment_disjoint graph alerts
    rw [← hgroups, List.pairwise_append] at hpairwise
    refine ih ?_ (hfirst.routed hstale hsound halone (fun g hg => hmem g (List.mem_append_left _ hg))
      (hmem group (List.mem_append_right _ List.mem_cons_self))
      (fun g hg => hpairwise.2.2 g hg group List.mem_cons_self) h)
    rw [List.append_assoc]
    exact hgroups

end

/-! ## A delivery -/

/-- In the payload, a firing alert whose key is held is alone in its environment. -/
def Db.Alone (grouping : Grouping) (now : Time) (db : Db) (payload : Webhook) : Prop :=
  ∀ a ∈ payload.alerts, ∀ b ∈ payload.alerts,
    isResolved payload a = false → isResolved payload b = false →
    (identityOf payload a).environment = (identityOf payload b).environment →
    (∃ i ∈ db.incidents, db.active grouping now i = true ∧
      db.carries (identityOf payload a).key i = true) →
    (identityOf payload b).key = (identityOf payload a).key

instance (grouping : Grouping) (now : Time) (db : Db) (payload : Webhook) :
    Decidable (db.Alone grouping now payload) :=
  inferInstanceAs (Decidable (∀ a ∈ payload.alerts, ∀ b ∈ payload.alerts, _))

variable {resolved : List NormalizedAlert} {payload : Webhook}

/-- A firing alert of a delivery comes from an alert of the payload with its identity. -/
theorem Splits.exists_identity (h : Splits payload alerts resolved) (ha : a ∈ alerts) :
    ∃ alert ∈ payload.alerts, isResolved payload alert = false ∧
      a.dedupeKey = (identityOf payload alert).key ∧
      a.service = (identityOf payload alert).service ∧
      a.environment = (identityOf payload alert).environment := by
  obtain ⟨l, hl, hperm⟩ := h.firing
  obtain ⟨alert, halert, t, rfl, -⟩ := Table.exists_of_forall₂ hl (hperm.mem_iff.mp ha)
  obtain ⟨hmem, hfiring⟩ := List.mem_filter.mp halert
  refine ⟨alert, hmem, by simpa using hfiring, ?_, ?_⟩
  · rw [(keyed_normalize payload alert t).key, identity_normalize]
  · rw [← identity_normalize payload alert t, NormalizedAlert.identity]
    exact ⟨rfl, rfl⟩

variable {stats : IngestionStats}

theorem Ingested.sole (h : Ingested grouping payload v v' result alerts resolved v₁ v₂ stats)
    (hstale : 0 < grouping.alertStaleAfter) (hfree : payload.ColonFree) (hrooted : v.db.Rooted)
    (hfresh : v.db.Fresh grouping v.now) (halone : v.db.Alone grouping v.now payload)
    (hsole : v.db.Sole grouping v.now) :
    v'.db.Sole grouping v.now ∧ v'.db.Fresh grouping v.now := by
  obtain ⟨hsound, hsoundResolved, hrooted₁, hrooted₂, hdeps₂, hrest⟩ := h.parts hfree hrooted
  obtain ⟨hnow₂, hcalm₂, hfresh₂⟩ :=
    h.resolution.calm hsoundResolved hrooted₁ (h.registered.fresh hfresh)
  rw [h.registered.now] at hnow₂ hcalm₂ hfresh₂
  -- what holds a key after the resolved notifications held it before the delivery
  have hcalm : v.db.Calm grouping v.now v₂.db := fun key i hi => by
    obtain ⟨j, hj, hid⟩ := hcalm₂ key i hi
    rw [← h.registered.now] at hj
    exact ⟨j, h.registered.holds_iff.mp hj, hid⟩
  have hsole₂ := hsole.of_calm hcalm
  rcases hrest with ⟨rfl, -⟩ |
    ⟨openIncidents, v₃, progress, hsame, hopen, hrooted₃, hcurrent, hall, -⟩
  · exact ⟨hsole₂, hfresh₂⟩
  · rw [← hnow₂] at hsole₂ hfresh₂ hcalm
    have halone₃ : Incidents.Alone grouping alerts v₃ := fun a ha b hb henv hheld => by
      obtain ⟨x, hx, hxfiring, hxkey, -, hxenv⟩ := h.split.exists_identity ha
      obtain ⟨y, hy, hyfiring, hykey, -, hyenv⟩ := h.split.exists_identity hb
      rw [hxenv, hyenv] at henv
      rw [hxkey] at hheld ⊢
      rw [hykey]
      obtain ⟨i, hi⟩ := hheld
      obtain ⟨j, hj, -⟩ := hcalm _ i (hsame.holds_iff.mp hi)
      rw [hnow₂] at hj
      exact halone x hx y hy hxfiring hyfiring henv ⟨j, hj.mem, hj.active, hj.carries⟩
    have hstart : Routed grouping (Graph.new v.db.dependencies) alerts v₃ [] openIncidents v₃ := by
      refine ⟨rfl, hrooted₃, hcurrent, fun i hi => ?_, hsame.fresh hfresh₂,
        fun key i j hi hj => ?_, fun key j hj => .inl ⟨j, hj⟩⟩
      · obtain ⟨hmem, hactive⟩ := List.mem_filter.mp (hopen.mem_iff.mp hi)
        refine ⟨i, hsame.incidents.symm ▸ hmem, rfl, ?_⟩
        rw [Db.active, hsame.alerts, hsame.now]
        exact hactive
      · exact hsole₂ key i j (hsame.holds_iff.mp hi) (hsame.holds_iff.mp hj)
    have hrouted := hall.routed hstale hsound halone₃ (List.nil_append _) hstart
    have hnow : v'.now = v.now := (hrouted.now.trans hsame.now).trans hnow₂
    rw [← hnow]
    exact ⟨hrouted.sole, hrouted.fresh⟩

/-! ## Histories -/

/-- In a delivery, a firing alert whose key is held is alone in its environment. -/
def Event.Alone (grouping : Grouping) (db : Db) : Event → Prop
  | .delivery payload _ now _ => db.Alone grouping now payload
  | .transition _ _ _ => True

instance (grouping : Grouping) (db : Db) : DecidablePred (Event.Alone grouping db)
  | .delivery payload _ now _ => inferInstanceAs (Decidable (db.Alone grouping now payload))
  | .transition _ _ _ => inferInstanceAs (Decidable True)

/-- A history without colons and stale alerts, in which time does not go back and an alert whose key is
held comes alone. -/
def Steady (grouping : Grouping) : Db → List Event → Prop
  | _, [] => True
  | db, e :: events =>
    e.ColonFree ∧ db.Fresh grouping e.now ∧ e.Alone grouping db ∧
      (∀ e' ∈ events, e.now ≤ e'.now) ∧ Steady grouping (db.step grouping e) events

/-- A key fires on at most one open incident. -/
def Db.FiresOnce (db : Db) : Prop :=
  ∀ key, ∀ i ∈ db.incidents, ∀ j ∈ db.incidents, i.status.isClosed = false →
    j.status.isClosed = false → db.FiresOn key i.id → db.FiresOn key j.id → i.id = j.id

variable {db : Db}

theorem Db.Sole.firesOnce {now : Time} (hsole : db.Sole grouping now)
    (hfresh : db.Fresh grouping now) : db.FiresOnce :=
  fun key i hi j hj hopen hopen' hfires hfires' =>
    hsole key i j (hfresh.holds hi hopen hfires) (hfresh.holds hj hopen' hfires')

theorem Db.fresh_transitionIncident {now t : Time} (h : db.Fresh grouping now) (id : String)
    (status : Status) : (db.transitionIncident t id status).Fresh grouping now := by
  rintro a ha hfiring ⟨i', hi', hid, hopen⟩
  obtain ⟨i, hi, ⟨rfl, -⟩ | ⟨rfl, hmove⟩⟩ := Table.mem_updateIf hi'
  · exact h a ha hfiring ⟨_, hi, hid, hopen⟩
  · refine h a ha hfiring ⟨i, hi, hid, ?_⟩
    by_contra hclosed
    have hnot := Status.canTransition_of_isClosed (t := status) (by simpa using hclosed)
    rw [hmove.2] at hnot
    cases hnot

/-- One event of a steady history. -/
theorem Steady.step {e : Event} (hstale : 0 < grouping.alertStaleAfter)
    (h : Steady grouping db (e :: events)) (hrooted : db.Rooted) (hsole : db.Sole grouping e.now) :
    (db.step grouping e).Sole grouping e.now ∧ (db.step grouping e).Fresh grouping e.now := by
  obtain ⟨hfree, hfresh, halone, -, -⟩ := h
  cases e with
  | delivery payload actor now oracle =>
    show (db.deliver grouping payload actor now oracle).2.Sole grouping now ∧
      (db.deliver grouping payload actor now oracle).2.Fresh grouping now
    rcases db.deliver_cases grouping payload actor now oracle with
      heq | ⟨v', result, alerts, resolved, v₁, v₂, stats, hdb, hingested⟩
    · rw [heq]
      exact ⟨hsole, hfresh⟩
    · rw [← hdb]
      exact hingested.sole hstale hfree hrooted hfresh halone hsole
  | transition id status now =>
    exact ⟨hsole.of_calm (db.calm_transitionIncident grouping now now id status),
      Db.fresh_transitionIncident hfresh id status⟩

theorem Steady.run (hstale : 0 < grouping.alertStaleAfter) (h : Steady grouping db events)
    (hrooted : db.Rooted) (hsole : ∀ e ∈ events, db.Sole grouping e.now) (honce : db.FiresOnce) :
    (db.run grouping events).Rooted ∧ (db.run grouping events).FiresOnce := by
  induction events generalizing db with
  | nil => exact ⟨hrooted, honce⟩
  | cons e events ih =>
    obtain ⟨hsole', hfresh'⟩ := h.step hstale hrooted (hsole e List.mem_cons_self)
    obtain ⟨hfree, -, -, hlater, hrest⟩ := h
    refine ih hrest (hrooted.step grouping hfree).1 (fun e' he' => ?_) (hsole'.firesOnce hfresh')
    exact hsole'.later (hlater e' he')

/-! ## Resolved alerts -/

/-- The key fires on no open incident. -/
def Db.Quiet (db : Db) (key : String) : Prop :=
  ∀ i ∈ db.incidents, i.status.isClosed = false → ¬ db.FiresOn key i.id

variable {staleAfter : Time}

theorem Resolved.quiet {i : IncidentRow} {alert : NormalizedAlert}
    (h : Resolved staleAfter v v' i.id alert) (hquiet : ∀ j ∈ v.db.incidents, j.status.isClosed = false → v.db.FiresOn key j.id → j.id = i.id
      ∧ key = alert.dedupeKey) : v'.db.Quiet key := by
  intro j' hj' hopen hfires
  obtain ⟨hfires, hnot⟩ := h.firesOn hfires
  rw [h.incidents] at hj'
  obtain ⟨j, hj, hid, -, hstatus, -⟩ := mem_touchRows hj'
  obtain ⟨hid', hkey⟩ := hquiet j hj (hstatus ▸ hopen) (hid ▸ hfires)
  exact hnot ⟨hid.symm.trans hid', hkey⟩

theorem ResolvedAll.quiet_of_quiet (h : ResolvedAll staleAfter resolved stats stats' v v')
    (hquiet : v.db.Quiet key) : v'.db.Quiet key := by
  induction h with
  | nil => exact hquiet
  | unmatched hdb _ _ _ ih => exact ih (hdb.symm ▸ hquiet)
  | matched _ _ _ hresolved _ ih =>
    exact ih (hresolved.quiet fun j hj hopen hfires => absurd hfires (hquiet j hj hopen))

/-- A resolved notification for a key that fires on at most one open incident silences it. -/
theorem ResolvedAll.quiet (h : ResolvedAll staleAfter resolved stats stats' v v')
    (honce : v.db.FiresOnce) (hmem : ∃ a ∈ resolved, a.dedupeKey = key) : v'.db.Quiet key := by
  induction h with
  | nil =>
    obtain ⟨a, ha, -⟩ := hmem
    cases ha
  | unmatched hdb _ hnone hrest ih =>
    obtain ⟨a, ha, rfl⟩ := hmem
    rcases List.mem_cons.mp ha with rfl | ha
    · exact hrest.quiet_of_quiet (hdb.symm ▸ hnone)
    · exact ih (hdb.symm ▸ honce) ⟨a, ha, rfl⟩
  | @matched alert alerts stats stats' v v₁ v' i hi hopen hfires hresolved hrest ih =>
    obtain ⟨a, ha, rfl⟩ := hmem
    rcases List.mem_cons.mp ha with rfl | ha
    · refine hrest.quiet_of_quiet (hresolved.quiet fun j hj hopen' hfires' => ⟨?_, rfl⟩)
      exact honce _ j hj i hi hopen' hopen hfires' hfires
    · refine ih (fun key j' hj' k' hk' hopenj hopenk hfiresj hfiresk => ?_) ⟨a, ha, rfl⟩
      rw [hresolved.incidents] at hj' hk'
      obtain ⟨j, hj, hjid, -, hjstatus, -⟩ := mem_touchRows hj'
      obtain ⟨k, hk, hkid, -, hkstatus, -⟩ := mem_touchRows hk'
      rw [← hjid, ← hkid]
      exact honce key j hj k hk (hjstatus ▸ hopenj) (hkstatus ▸ hopenk)
        (hjid ▸ (hresolved.firesOn hfiresj).1) (hkid ▸ (hresolved.firesOn hfiresk).1)

theorem Grouped.quiet (h : Grouped grouping graph alerts group progress progress' v v')
    (hrooted : v.Rooted graph) (hkey : ∀ a ∈ alerts, a.dedupeKey ≠ key) (hquiet : v.db.Quiet key) :
    v'.db.Quiet key := by
  cases h with
  | empty _ _ hview => exact hview ▸ hquiet
  | attached ht =>
    have hothers := ht.found.others.trans ht.same.toSameOthers
    have htouched := ht.attached.touched
    rintro j' hj' hopen ⟨a, ha, hid, rfl, hfiring⟩
    rcases htouched.alert a ha with hold | ⟨-, ⟨b, hb, hbkey⟩, -⟩
    · rw [hothers.alerts] at hold
      obtain ⟨j₂, hj₂, hid₂, -, hstatus₂, -⟩ := htouched.incident j' hj'
      rcases ht.found.rows.2 j₂ (ht.same.incidents ▸ hj₂) with
        ⟨j, hj, hjid, hjstatus, -⟩ | ⟨hfresh, -⟩
      · refine hquiet j hj (hjstatus ▸ hstatus₂ ▸ hopen) ⟨a, hold, ?_, rfl, hfiring⟩
        exact hid.trans (hid₂.symm.trans hjid.symm)
      · -- a new incident has no rows
        obtain ⟨i, hi, hiid, -⟩ := hrooted.alert a hold
        exact Db.ne_of_hasIncident hfresh hi (hiid.trans (hid.trans hid₂.symm))
    · exact hkey b (mem_alertsForGroup.mp (ht.some ▸ hb)).1 hbkey.symm

theorem GroupedAll.quiet (hsound : Sound alerts)
    (hgroups : ∀ g ∈ groups, g ∈ topologyGroupsByEnvironment graph alerts)
    (hcurrent : Current progress.openIncidents v.db.incidents)
    (h : GroupedAll grouping graph alerts groups progress progress' v v') (hrooted : v.Rooted graph)
    (hkey : ∀ a ∈ alerts, a.dedupeKey ≠ key) (hquiet : v.db.Quiet key) : v'.db.Quiet key := by
  induction h with
  | nil => exact hquiet
  | cons hfirst _ ih =>
    obtain ⟨hrooted₁, hcurrent₁, -⟩ :=
      hfirst.rooted hsound (hgroups _ List.mem_cons_self) hrooted hcurrent
    exact ih (fun g hg => hgroups g (List.mem_cons_of_mem _ hg)) hcurrent₁ hrooted₁
      (hfirst.quiet hrooted hkey hquiet)

/-- The entries of a payload for a key are resolved notifications. -/
structure Webhook.Resolves (payload : Webhook) (key : String) : Prop where
  entry : ∃ a ∈ payload.alerts, (identityOf payload a).key = key
  resolved : ∀ a ∈ payload.alerts, (identityOf payload a).key = key → isResolved payload a = true

theorem Ingested.quiet (h : Ingested grouping payload v v' result alerts resolved v₁ v₂ stats)
    (hfree : payload.ColonFree) (hrooted : v.db.Rooted) (honce : v.db.FiresOnce)
    (hresolves : payload.Resolves key) : v'.db.Quiet key := by
  obtain ⟨hsound, -, -, -, -, hrest⟩ := h.parts hfree hrooted
  have honce₁ : v₁.db.FiresOnce := by
    unfold Db.FiresOnce Db.FiresOn
    rw [h.registered.incidents, h.registered.alerts]
    exact honce
  have hmem : ∃ a ∈ resolved, a.dedupeKey = key := by
    obtain ⟨alert, halert, hkey⟩ := hresolves.entry
    obtain ⟨l, hl, hperm⟩ := h.split.resolving
    obtain ⟨a, ha, t, rfl, -⟩ := Table.exists_of_forall₂ hl.flip (List.mem_filter.mpr
      ⟨halert, hresolves.resolved alert halert hkey⟩)
    refine ⟨_, hperm.mem_iff.mpr ha, ?_⟩
    rw [(keyed_normalize payload alert t).key, identity_normalize]
    exact hkey
  have hquiet₂ := h.resolution.quiet honce₁ hmem
  have hnot : ∀ a ∈ alerts, a.dedupeKey ≠ key := fun a ha heq => by
    obtain ⟨alert, halert, hfiring, hkey, -⟩ := h.split.exists_identity ha
    have hresolved := hresolves.resolved alert halert (hkey.symm.trans heq)
    rw [hfiring] at hresolved
    cases hresolved
  rcases hrest with ⟨rfl, -⟩ |
    ⟨openIncidents, v₃, progress, hsame, hopen, hrooted₃, hcurrent, hall, -⟩
  · exact hquiet₂
  · refine hall.quiet hsound (fun _ hg => hg) hcurrent hrooted₃ hnot ?_
    unfold Db.Quiet Db.FiresOn
    rw [hsame.incidents, hsame.alerts]
    exact hquiet₂

/-! ## The result -/

/-- **An alert fires on at most one open incident.** In every steady history each key fires on at most
one open incident; and a further delivery without colons whose entries for a key are resolved
notifications leaves that key firing on no open incident. -/
theorem fires_on_one (grouping : Grouping) (hstale : 0 < grouping.alertStaleAfter) (db : Db)
    (hnone : db.Untouched) (events : List Event) (hsteady : Steady grouping db events) :
    let db' := db.run grouping events
    (∀ key, ∀ i ∈ db'.incidents, ∀ j ∈ db'.incidents, i.status.isClosed = false →
      j.status.isClosed = false → db'.FiresOn key i.id → db'.FiresOn key j.id → i = j) ∧
    ∀ payload actor now oracle key result, payload.ColonFree → payload.Resolves key →
      (db'.deliver grouping payload actor now oracle).1 = .ok result →
      ∀ i ∈ (db'.deliver grouping payload actor now oracle).2.incidents,
        i.status.isClosed = false →
        ¬ (db'.deliver grouping payload actor now oracle).2.FiresOn key i.id := by
  have hempty : ∀ now, db.Sole grouping now := fun now key i j hi _ => by
    have hmem := hi.mem
    rw [hnone.incidents] at hmem
    cases hmem
  have honce : db.FiresOnce := fun key i hi => by
    rw [hnone.incidents] at hi
    cases hi
  obtain ⟨hrooted, honce'⟩ :=
    hsteady.run hstale hnone.rooted (fun e _ => hempty e.now) honce
  refine ⟨fun key i hi j hj hopen hopen' hfires hfires' => ?_, ?_⟩
  · exact hrooted.eq_of_id_eq hi hj (honce' key i hi j hj hopen hopen' hfires hfires')
  · intro payload actor now oracle key result hfree hresolves hok
    unfold Db.deliver at hok ⊢
    split at hok
    · cases hok
    · rename_i result' db'' hdelivered
      obtain ⟨v', rfl, alerts, resolved, v₁, v₂, stats, hingested⟩ :=
        ingested_of_ingestAlertmanager hdelivered
      exact hingested.quiet hfree hrooted honce' hresolves

/-- An alert and its root fire together; then the alert fires again, alone. -/
theorem fires_on_one_again :
    let db := emptyDb [⟨"checkout-api", "payments-api"⟩, ⟨"checkout-api", "search-api"⟩]
    let events := [
      plainDelivery 1 "a" [plainAlert "firing" "payments-api" "Down" "prod" "f1",
        plainAlert "firing" "checkout-api" "Slow" "prod" "f2"],
      plainDelivery 2 "b" [plainAlert "firing" "checkout-api" "Slow" "prod" "f2"]]
    let db' := db.run ⟨100, 100⟩ events
    (db'.alerts.map fun a => (a.incidentID, a.service, a.lastSeenAt)) =
        [("a11", "checkout-api", 2), ("a11", "payments-api", 1)] ∧
      ∀ key, ∀ i ∈ db'.incidents, ∀ j ∈ db'.incidents, i.status.isClosed = false →
        j.status.isClosed = false → db'.FiresOn key i.id → db'.FiresOn key j.id → i = j := by
  intro db events db'
  have hsteady : Steady ⟨100, 100⟩ db events :=
    ⟨by decide +kernel, by decide +kernel, by decide +kernel, by decide +kernel,
      by decide +kernel, by decide +kernel, by decide +kernel, by decide +kernel, trivial⟩
  exact ⟨by decide +kernel,
    (fires_on_one ⟨100, 100⟩ (by decide) db ⟨rfl, rfl, rfl⟩ events hsteady).1⟩

/-- An alert that fires on the incident of one dependency comes with the alert of another: the group is
routed to a new incident behind the second, and the alert fires on both. -/
theorem fires_on_two :
    let db := emptyDb [⟨"checkout-api", "payments-api"⟩, ⟨"checkout-api", "search-api"⟩]
    let events := [
      plainDelivery 1 "a" [plainAlert "firing" "payments-api" "Down" "prod" "f1",
        plainAlert "firing" "checkout-api" "Slow" "prod" "f2"],
      plainDelivery 2 "b" [plainAlert "firing" "search-api" "Down" "prod" "f3",
        plainAlert "firing" "checkout-api" "Slow" "prod" "f2"]]
    let db' := db.run ⟨100, 100⟩ events
    (∀ e ∈ events, e.ColonFree) ∧ db'.Fresh ⟨100, 100⟩ 2 ∧
      ∃ i ∈ db'.incidents, ∃ j ∈ db'.incidents, i.id ≠ j.id ∧ i.status.isClosed = false ∧
        j.status.isClosed = false ∧ db'.FiresOn "checkout-api:Slow:prod:f2" i.id ∧
        db'.FiresOn "checkout-api:Slow:prod:f2" j.id := by
  decide +kernel

end Argus.Incidents

import Argus.Incidents.Rooted

/-!
# Deliveries keep alerts behind the root of their incident

The steps of a delivery, one after the other, keep `Rooted`. The list of open incidents that a delivery
reads at its start stays current: it is replaced where the delivery itself moves a root, and nobody else
moves one.
-/

namespace Argus.Incidents

open Sorting Topology

variable {graph : Graph} {v v' : View} {staleAfter : Time}

/-- The invariant, of what a transaction sees. -/
abbrev View.Rooted (graph : Graph) (v : View) : Prop :=
  Incidents.Rooted graph v.db.incidents v.db.alerts v.db.signals

theorem SameRows.rooted (h : SameRows v v') (hrooted : v.Rooted graph) : v'.Rooted graph := by
  unfold View.Rooted
  rw [h.incidents, h.alerts, h.signals]
  exact hrooted

/-! ## Resolved alerts -/

variable {i : IncidentRow}

theorem Rooted.belongs_of_firesOn (hrooted : v.Rooted graph) (hi : i ∈ v.db.incidents)
    {key : String} (h : v.db.FiresOn key i.id) :
    ∃ service, graph.Reaches service i.service ∧ Belongs key service i.environment := by
  obtain ⟨a, ha, hid, hkey, -⟩ := h
  obtain ⟨j, hj, hjid, hreach, hbelongs⟩ := hrooted.alert a ha
  obtain rfl := hrooted.eq_of_id_eq hj hi (hjid.trans hid)
  exact ⟨a.service, hreach, hkey ▸ hbelongs⟩

variable {rootInferred : Bool} {incident : IncidentRow} {items rows' : List IncidentRow}
  {alert : NormalizedAlert}

theorem Resolved.rooted (h : Resolved staleAfter v v' i.id alert) (hi : i ∈ v.db.incidents)
    (hfires : v.db.FiresOn alert.dedupeKey i.id) (hkeyed : alert.Keyed)
    (hfree : alert.identity.ColonFree) (hrooted : v.Rooted graph) : v'.Rooted graph := by
  obtain ⟨service, hreach, hbelongs⟩ := Rooted.belongs_of_firesOn hrooted hi hfires
  -- the key of the row on which the alert fires is the alert's own
  obtain ⟨rfl, henv⟩ := hbelongs.unique (hkeyed.belongs hfree)
  obtain ⟨resolvedAt, halerts⟩ := h.alerts
  obtain ⟨resolvedAt', id, at_, hsignals⟩ := h.signals
  unfold View.Rooted
  rw [h.incidents, halerts, hsignals]
  refine Rooted.of_places ?_ (place_touchRows ..)
  exact (hrooted.resolveRows ..).addSignal hi rfl hreach hkeyed.named henv.symm
    (fun t ht => by cases ht)

variable {alerts : List NormalizedAlert}

theorem ResolvedAll.rooted {stats stats' : IngestionStats}
    (h : ResolvedAll staleAfter alerts stats stats' v v') (hsound : Sound alerts) (hrooted : v.Rooted graph) :
    v'.Rooted graph ∧ v'.db.dependencies = v.db.dependencies := by
  induction h with
  | nil => exact ⟨hrooted, rfl⟩
  | unmatched hdb hnow _ _ ih =>
    have hrest := ih (fun a ha => hsound a (List.mem_cons_of_mem _ ha))
      ((SameRows.of_db hdb hnow).rooted hrooted)
    exact ⟨hrest.1, hrest.2.trans (by rw [hdb])⟩
  | matched hmem _ hfires hresolved _ ih =>
    obtain ⟨hkeyed, hfree⟩ := hsound _ List.mem_cons_self
    have hrest := ih (fun a ha => hsound a (List.mem_cons_of_mem _ ha))
      (hresolved.rooted hmem hfires hkeyed hfree hrooted)
    exact ⟨hrest.1, hrest.2.trans hresolved.dependencies⟩

/-! ## Firing alerts -/

/-- Where an attached alert belongs: the incident has a row, in the alert's environment, behind a root
that the alert's service reaches. -/
structure Fits (graph : Graph) (incidents : List IncidentRow) (incident : IncidentRow)
    (alert : NormalizedAlert) : Prop where
  row : ∃ j ∈ incidents, j.place = incident.place
  environment : alert.environment = incident.environment
  reaches : graph.Reaches alert.service incident.service

theorem Attached.rooted
    (h : Attached v v' incident.id alert (observe graph incident rootInferred alert))
    (hfits : Fits graph v.db.incidents incident alert) (hkeyed : alert.Keyed)
    (hfree : alert.identity.ColonFree) (hrooted : v.Rooted graph) : v'.Rooted graph := by
  obtain ⟨j, hj, hplace⟩ := hfits.row
  obtain ⟨hid, hservice, henv, -⟩ := IncidentRow.place_eq_iff.mp hplace
  have hreach : graph.Reaches alert.service j.service := hservice ▸ hfits.reaches
  have halertEnv : alert.environment = j.environment := hfits.environment.trans henv.symm
  have hbelongs : Belongs alert.dedupeKey alert.service j.environment :=
    halertEnv ▸ hkeyed.belongs hfree
  -- the path from the alert's service to the root is found
  have hroot : incident.service ≠ "" := hservice ▸ (hrooted.incident j hj).1
  obtain ⟨p, hp⟩ := Option.isSome_iff_exists.mp
    (Graph.path_isSome_iff.mpr ⟨hkeyed.named, hroot, hfits.reaches⟩)
  obtain ⟨sid, at_, hsignals⟩ := h.signals
  unfold View.Rooted
  rw [h.incidents, h.alerts, hsignals, ← hid]
  refine Rooted.of_places ?_ (place_touchRows ..)
  refine (hrooted.fireRows hj hreach hbelongs _).addSignal hj ?_ hreach hkeyed.named halertEnv
    fun t ht => ?_
  · rfl
  · obtain rfl := Option.some.inj ht
    refine ⟨p, hp, ?_⟩
    simp only [observe, observedPath, hp, Option.getD_some]

theorem AttachedAll.rooted
    (h : AttachedAll incident.id (observe graph incident rootInferred) alerts v v')
    (hfits : ∀ a ∈ alerts, Fits graph v.db.incidents incident a) (hsound : Sound alerts)
    (hrooted : v.Rooted graph) :
    v'.Rooted graph ∧ v'.db.incidents.map (·.place) = v.db.incidents.map (·.place) ∧
      v'.db.dependencies = v.db.dependencies := by
  induction h with
  | nil => exact ⟨hrooted, rfl, rfl⟩
  | @cons alert alerts v v₁ v' hattached _ ih =>
    obtain ⟨hkeyed, hfree⟩ := hsound _ List.mem_cons_self
    have hplaces : v₁.db.incidents.map (·.place) = v.db.incidents.map (·.place) := by
      rw [hattached.incidents]
      exact place_touchRows ..
    have hfits' : ∀ a ∈ alerts, Fits graph v₁.db.incidents incident a := fun a ha => by
      obtain ⟨⟨j, hj, hplace⟩, henv, hreach⟩ := hfits a (List.mem_cons_of_mem _ ha)
      obtain ⟨j', hj', hplace'⟩ := exists_place_of_map_eq hplaces hj
      exact ⟨⟨j', hj', hplace'.trans hplace⟩, henv, hreach⟩
    obtain ⟨hrest, hplaces', hdeps⟩ := ih hfits'
      (fun a ha => hsound a (List.mem_cons_of_mem _ ha))
      (hattached.rooted (hfits alert List.mem_cons_self) hkeyed hfree hrooted)
    exact ⟨hrest, hplaces'.trans hplaces, hdeps.trans hattached.dependencies⟩

/-! ## The list of open incidents -/

/-- The incidents that a delivery remembers are where the store has them. -/
structure Current (openIncidents incidents : List IncidentRow) : Prop where
  unique : (openIncidents.map (·.id)).Nodup
  row : ∀ i ∈ openIncidents, ∃ j ∈ incidents, j.place = i.place

variable {openIncidents rows : List IncidentRow}

/-- Right after they were read. -/
theorem Current.of_perm {p : IncidentRow → Bool} (hunique : (rows.map (·.id)).Nodup)
    (h : openIncidents.Perm (rows.filter p)) : Current openIncidents rows := by
  refine ⟨(h.map _).nodup_iff.mpr (hunique.sublist (List.filter_sublist.map _)), fun i hi => ?_⟩
  exact ⟨i, List.mem_of_mem_filter (h.mem_iff.mp hi), rfl⟩

theorem Current.of_places (h : Current openIncidents rows)
    (hplaces : rows'.map (·.place) = rows.map (·.place)) : Current openIncidents rows' := by
  refine ⟨h.unique, fun i hi => ?_⟩
  obtain ⟨j, hj, hplace⟩ := h.row i hi
  obtain ⟨j', hj', hplace'⟩ := exists_place_of_map_eq hplaces hj
  exact ⟨j', hj', hplace'.trans hplace⟩

theorem mem_appendOrReplaceIncident {x : IncidentRow} (hunique : (items.map (·.id)).Nodup)
    (h : x ∈ appendOrReplaceIncident items i) : x = i ∨ x ∈ items ∧ x.id ≠ i.id := by
  induction items with
  | nil => exact .inl (List.mem_singleton.mp h)
  | cons item items ih =>
    rw [List.map_cons, List.nodup_cons] at hunique
    unfold appendOrReplaceIncident at h
    split at h
    · rename_i hid
      rcases List.mem_cons.mp h with rfl | hx
      · exact .inl rfl
      · refine .inr ⟨List.mem_cons_of_mem _ hx, fun heq => hunique.1 ?_⟩
        exact List.mem_map.mpr ⟨x, hx, heq.trans hid.symm⟩
    · rename_i hid
      rcases List.mem_cons.mp h with rfl | hx
      · exact .inr ⟨List.mem_cons_self, hid⟩
      · rcases ih hunique.2 hx with hnew | ⟨hold, hne⟩
        · exact .inl hnew
        · exact .inr ⟨List.mem_cons_of_mem _ hold, hne⟩

theorem nodup_appendOrReplaceIncident (i : IncidentRow) (hunique : (items.map (·.id)).Nodup) :
    ((appendOrReplaceIncident items i).map (·.id)).Nodup := by
  induction items with
  | nil => simp [appendOrReplaceIncident]
  | cons item items ih =>
    rw [List.map_cons, List.nodup_cons] at hunique
    unfold appendOrReplaceIncident
    split
    · rename_i hid
      rw [List.map_cons, List.nodup_cons]
      exact ⟨hid ▸ hunique.1, hunique.2⟩
    · rename_i hid
      rw [List.map_cons, List.nodup_cons]
      refine ⟨fun hmem => ?_, ih hunique.2⟩
      obtain ⟨x, hx, hxid⟩ := List.mem_map.mp hmem
      rcases mem_appendOrReplaceIncident hunique.2 hx with rfl | ⟨hold, -⟩
      · exact hid hxid.symm
      · exact hunique.1 (List.mem_map.mpr ⟨x, hold, hxid⟩)

/-- The list after a group: its incident as it is now, and the others as they were. -/
theorem Current.replace (h : Current openIncidents rows) (hnew : ∃ j ∈ rows', j.place = i.place)
    (hothers : ∀ j ∈ rows, j.id ≠ i.id → ∃ j' ∈ rows', j'.place = j.place) :
    Current (appendOrReplaceIncident openIncidents i) rows' := by
  refine ⟨nodup_appendOrReplaceIncident i h.unique, fun x hx => ?_⟩
  rcases mem_appendOrReplaceIncident h.unique hx with rfl | ⟨hold, hne⟩
  · exact hnew
  · obtain ⟨j, hj, hplace⟩ := h.row x hold
    obtain ⟨hid, -⟩ := IncidentRow.place_eq_iff.mp hplace
    obtain ⟨j', hj', hplace'⟩ := hothers j hj (hid ▸ hne)
    exact ⟨j', hj', hplace'.trans hplace⟩

/-! ## The incident of a group -/

/-- What is known once a group has its incident. -/
structure Housed (graph : Graph) (group : Group) (openIncidents : List IncidentRow) (v' : View)
    (incident : IncidentRow) : Prop where
  rooted : v'.Rooted graph
  row : ∃ j ∈ v'.db.incidents, j.place = incident.place
  environment : incident.environment = group.environment
  reaches : graph.Reaches group.root incident.service
  current : Current (appendOrReplaceIncident openIncidents incident) v'.db.incidents

section

variable {grouping : Grouping} {alerts : List NormalizedAlert} {group : Group}
  {openIncidents : List IncidentRow} {incident : IncidentRow} {origin : Origin}
  {first : NormalizedAlert} {rest : List NormalizedAlert}

/-- An incident that carries the alert of the root: its own root is reached by the group's. -/
theorem Rooted.reaches_of_carries (hrooted : v.Rooted graph) {i : IncidentRow}
    (hi : i ∈ v.db.incidents) {key root environment : String}
    (hcarries : v.db.carries key i = true) (hbelongs : Belongs key root environment) :
    i.environment = environment ∧ graph.Reaches root i.service := by
  rcases Bool.or_eq_true_iff.mp hcarries with hkey | hany
  · have hown := (hrooted.incident i hi).2
    rw [beq_iff_eq.mp hkey] at hown
    obtain ⟨hservice, henv⟩ := hown.unique hbelongs
    exact ⟨henv, hservice ▸ .refl⟩
  · obtain ⟨a, ha, hmatch⟩ := List.any_eq_true.mp hany
    obtain ⟨hid, hkey⟩ := Bool.and_eq_true_iff.mp hmatch
    obtain ⟨j, hj, hjid, hreach, hrow⟩ := hrooted.alert a ha
    obtain rfl := hrooted.eq_of_id_eq hj hi (hjid.trans (beq_iff_eq.mp hid))
    rw [beq_iff_eq.mp hkey] at hrow
    obtain ⟨hservice, henv⟩ := hrow.unique hbelongs
    exact ⟨henv, hservice ▸ hreach⟩

theorem Found.housed (hsound : Sound alerts)
    (hgroup : group ∈ topologyGroupsByEnvironment graph alerts)
    (hsome : alertsForGroup alerts group = first :: rest)
    (hrooted : v.Rooted graph) (hcurrent : Current openIncidents v.db.incidents)
    (h : Found grouping graph group (rootAlertForGroup first (first :: rest) group.root)
      openIncidents v v' incident origin) :
    Housed graph group openIncidents v' incident := by
  have hroot := root_ne_empty_of_mem hgroup
  cases h with
  | exact _ hmem _ hcarries hsame =>
    obtain ⟨henv, hreach⟩ :=
      hrooted.reaches_of_carries hmem hcarries (rootAlert_belongs hsound hsome)
    refine ⟨hsame.rooted hrooted, ⟨incident, hsame.incidents ▸ hmem, rfl⟩, henv, hreach, ?_⟩
    rw [hsame.incidents]
    exact hcurrent.replace ⟨incident, hmem, rfl⟩ fun j hj _ => ⟨j, hj, rfl⟩
  | related _ hmem henv hpath hsame =>
    have hrow := hcurrent.row incident hmem
    have hreach : graph.Reaches group.root incident.service := by
      rcases hpath with heq | hpath
      · exact heq ▸ .refl
      · exact (Graph.path_isSome_iff.mp hpath).2.2
    refine ⟨hsame.rooted hrooted, hsame.incidents ▸ hrow, henv, hreach, ?_⟩
    rw [hsame.incidents]
    exact hcurrent.replace hrow fun j hj _ => ⟨j, hj, rfl⟩
  | @promoted old _ _ hmem henv hpath _ hothers hincidents hfind =>
    obtain ⟨j, hj, hplace⟩ := hcurrent.row old hmem
    obtain ⟨hid, hservice, hjenv, -⟩ := IncidentRow.place_eq_iff.mp hplace
    have hreach : graph.Reaches j.service group.root :=
      hservice ▸ (Graph.path_isSome_iff.mp hpath).2.2
    have hbelongs : Belongs (rootOf group (rootAlertForGroup first (first :: rest)
        group.root)).dedupeKey group.root j.environment := by
      rw [hjenv, henv]
      exact rootDedupeKey_belongs hsound hsome
    have hpromoted := hrooted.promote hj (rootOf group
      (rootAlertForGroup first (first :: rest) group.root)) hreach hroot hbelongs v.now
    rw [hid, ← hincidents, ← hothers.alerts, ← hothers.signals] at hpromoted
    -- the row that was read back is the promoted one
    have hin := List.mem_of_find?_eq_some hfind
    have hidin := id_eq_of_find? hfind
    obtain rfl : incident = IncidentRow.promote v.now (rootOf group
        (rootAlertForGroup first (first :: rest) group.root)) j := by
      rw [hincidents] at hin
      obtain ⟨k, hk, ⟨rfl, hne⟩ | ⟨rfl, heq⟩⟩ := Table.mem_updateIf hin
      · exact absurd hidin hne
      · rw [hrooted.eq_of_id_eq hk hj (heq.trans hid.symm)]
    refine ⟨hpromoted, ⟨_, hin, rfl⟩, hjenv.trans henv, .refl,
      hcurrent.replace ⟨_, hin, rfl⟩ fun k hk hne => ?_⟩
    obtain ⟨k', hk', ⟨rfl, -⟩ | ⟨-, heq⟩⟩ := Table.exists_mem_updateIf
      (p := fun i => i.id = old.id) (f := IncidentRow.promote v.now (rootOf group
        (rootAlertForGroup first (first :: rest) group.root))) hk
    · exact ⟨_, hincidents ▸ hk', rfl⟩
    · exact absurd (heq.trans hidin.symm) hne
  | @created id clock _ hfresh hothers hincidents =>
    have hcreated := hrooted.create (i := newIncident id clock group.environment
      (rootOf group (rootAlertForGroup first (first :: rest) group.root)))
      (fun j hj => Db.ne_of_hasIncident hfresh hj) hroot (rootDedupeKey_belongs hsound hsome)
    have hmem := hincidents ▸ List.mem_append_right _ (List.mem_singleton_self _)
    refine ⟨?_, ⟨_, hmem, rfl⟩, rfl, .refl, hcurrent.replace ⟨_, hmem, rfl⟩
      fun j hj _ => ⟨j, hincidents ▸ List.mem_append_left _ hj, rfl⟩⟩
    unfold View.Rooted
    rw [hincidents, hothers.alerts, hothers.signals]
    exact hcreated

variable {progress progress' : Progress}

/-- The incident of a group, and where its alerts are attached. -/
theorem Turn.housed {v₁ v₂ : View}
    (h : Turn grouping graph alerts group progress progress' v v' first rest incident origin
      rootInferred v₁ v₂) (hsound : Sound alerts)
    (hgroup : group ∈ topologyGroupsByEnvironment graph alerts) (hrooted : v.Rooted graph)
    (hcurrent : Current progress.openIncidents v.db.incidents) :
    Housed graph group progress.openIncidents v₁ incident ∧ v'.Rooted graph ∧
      v'.db.incidents.map (·.place) = v₁.db.incidents.map (·.place) ∧
      v'.db.dependencies = v.db.dependencies := by
  have hhoused := h.found.housed hsound hgroup h.some hrooted hcurrent
  have hmem : ∀ a ∈ first :: rest, a ∈ alertsForGroup alerts group := fun a ha => h.some ▸ ha
  have hfits : ∀ a ∈ first :: rest, Fits graph v₂.db.incidents incident a := fun a ha => by
    refine ⟨h.same.incidents ▸ hhoused.row, ?_,
      (reaches_root_of_mem hgroup (hmem a ha)).trans hhoused.reaches⟩
    exact (mem_alertsForGroup.mp (hmem a ha)).2.1.trans hhoused.environment.symm
  obtain ⟨hrooted', hplaces, hdeps⟩ := h.attached.rooted hfits
    (fun a ha => hsound a (mem_alertsForGroup.mp (hmem a ha)).1) (h.same.rooted hhoused.rooted)
  exact ⟨hhoused, hrooted', hplaces.trans (by rw [h.same.incidents]),
    hdeps.trans (h.same.dependencies.trans h.found.others.dependencies)⟩

/-- One group keeps the invariant and the list of open incidents current. -/
theorem Grouped.rooted (hsound : Sound alerts)
    (hgroup : group ∈ topologyGroupsByEnvironment graph alerts) (hrooted : v.Rooted graph)
    (hcurrent : Current progress.openIncidents v.db.incidents)
    (h : Grouped grouping graph alerts group progress progress' v v') :
    v'.Rooted graph ∧ Current progress'.openIncidents v'.db.incidents ∧
      v'.db.dependencies = v.db.dependencies := by
  cases h with
  | empty _ hprogress hview =>
    rw [hprogress, hview]
    exact ⟨hrooted, hcurrent, rfl⟩
  | attached h =>
    obtain ⟨hhoused, hrooted', hplaces, hdeps⟩ := h.housed hsound hgroup hrooted hcurrent
    refine ⟨hrooted', ?_, hdeps⟩
    rw [h.openIncidents]
    exact hhoused.current.of_places hplaces

theorem GroupedAll.rooted {groups : List Group}
    (hsound : Sound alerts) (hgroups : ∀ g ∈ groups, g ∈ topologyGroupsByEnvironment graph alerts)
    (hrooted : v.Rooted graph) (hcurrent : Current progress.openIncidents v.db.incidents)
    (h : GroupedAll grouping graph alerts groups progress progress' v v') :
    v'.Rooted graph ∧ v'.db.dependencies = v.db.dependencies := by
  induction h with
  | nil => exact ⟨hrooted, rfl⟩
  | cons hfirst _ ih =>
    obtain ⟨hrooted₁, hcurrent₁, hdeps₁⟩ :=
      hfirst.rooted hsound (hgroups _ List.mem_cons_self) hrooted hcurrent
    obtain ⟨hrooted', hdeps'⟩ :=
      ih (fun g hg => hgroups g (List.mem_cons_of_mem _ hg)) hrooted₁ hcurrent₁
    exact ⟨hrooted', hdeps'.trans hdeps₁⟩

end

/-! ## The whole delivery -/

/-- The labels of a delivery have no colon where they enter a dedupe key. -/
def Webhook.ColonFree (payload : Webhook) : Prop :=
  ∀ alert ∈ payload.alerts, (identityOf payload alert).ColonFree

instance (payload : Webhook) : Decidable payload.ColonFree :=
  inferInstanceAs (Decidable (∀ alert ∈ payload.alerts, _))

variable {payload : Webhook}

theorem sound_of_forall₂ {raw : List Alert} {l : List NormalizedAlert}
    (h : List.Forall₂ (NormalizedFrom payload) raw l) (hsub : ∀ a ∈ raw, a ∈ payload.alerts)
    (hfree : payload.ColonFree) : Sound l := by
  intro a ha
  obtain ⟨alert, halert, t, rfl, -⟩ := Table.exists_of_forall₂ h ha
  refine ⟨keyed_normalize payload alert t, ?_⟩
  rw [identity_normalize]
  exact hfree alert (hsub alert halert)

theorem Splits.sound {resolved : List NormalizedAlert} (h : Splits payload alerts resolved)
    (hfree : payload.ColonFree) : Sound alerts ∧ Sound resolved := by
  obtain ⟨l, hl, hperm⟩ := h.firing
  obtain ⟨l', hl', hperm'⟩ := h.resolving
  constructor
  · intro a ha
    exact sound_of_forall₂ hl (fun _ => List.mem_of_mem_filter) hfree a (hperm.mem_iff.mp ha)
  · intro a ha
    exact sound_of_forall₂ hl' (fun _ => List.mem_of_mem_filter) hfree a (hperm'.mem_iff.mp ha)

/-- The invariant, of a store and its own dependency graph. -/
def Db.Rooted (db : Db) : Prop :=
  Incidents.Rooted (Graph.new db.dependencies) db.incidents db.alerts db.signals

variable {grouping : Grouping} {result : IngestionResult} {resolved : List NormalizedAlert}
  {v₁ v₂ : View} {stats : IngestionStats}

/-- The parts of a delivery without colons, on the dependencies that it finds. -/
theorem Ingested.parts (h : Ingested grouping payload v v' result alerts resolved v₁ v₂ stats)
    (hfree : payload.ColonFree) (hrooted : v.db.Rooted) :
    Sound alerts ∧ Sound resolved ∧ v₁.Rooted (Graph.new v.db.dependencies) ∧
      v₂.Rooted (Graph.new v.db.dependencies) ∧ v₂.db.dependencies = v.db.dependencies ∧
      ((v' = v₂ ∧ result = ⟨[], stats⟩) ∨ ∃ openIncidents v₃ progress, SameRows v₂ v₃ ∧
        openIncidents.Perm (v₂.db.incidents.filter (v₂.db.active grouping v₂.now)) ∧
        v₃.Rooted (Graph.new v.db.dependencies) ∧ Current openIncidents v₃.db.incidents ∧
        GroupedAll grouping (Graph.new v.db.dependencies) alerts
          (topologyGroupsByEnvironment (Graph.new v.db.dependencies) alerts)
          ⟨[], openIncidents, stats⟩ progress v₃ v' ∧
        result = ⟨progress.incidents, progress.stats⟩) := by
  obtain ⟨hsound, hsoundResolved⟩ := h.split.sound hfree
  have hrooted₁ : v₁.Rooted (Graph.new v.db.dependencies) := h.registered.rooted hrooted
  obtain ⟨hrooted₂, hdeps₂⟩ := h.resolution.rooted hsoundResolved hrooted₁
  rw [h.registered.dependencies] at hdeps₂
  refine ⟨hsound, hsoundResolved, hrooted₁, hrooted₂, hdeps₂, h.attachment.imp And.right ?_⟩
  rintro ⟨openIncidents, v₃, progress, hsame, hopen, hall, hresult⟩
  rw [hdeps₂] at hall
  refine ⟨openIncidents, v₃, progress, hsame, hopen, hsame.rooted hrooted₂, ?_, hall, hresult⟩
  rw [hsame.incidents]
  exact .of_perm hrooted₂.unique hopen

theorem Ingested.rooted (h : Ingested grouping payload v v' result alerts resolved v₁ v₂ stats)
    (hfree : payload.ColonFree) (hrooted : v.db.Rooted) :
    v'.db.Rooted ∧ v'.db.dependencies = v.db.dependencies := by
  obtain ⟨hsound, -, -, hrooted₂, hdeps₂,
    ⟨rfl, -⟩ | ⟨openIncidents, v₃, progress, hsame, -, hrooted₃, hcurrent, hall, -⟩⟩ :=
    h.parts hfree hrooted
  · refine ⟨?_, hdeps₂⟩
    unfold Db.Rooted
    rw [hdeps₂]
    exact hrooted₂
  · obtain ⟨hrooted', hdeps'⟩ := hall.rooted hsound (fun _ hg => hg) hrooted₃ hcurrent
    have hdeps : v'.db.dependencies = v.db.dependencies :=
      hdeps'.trans (hsame.dependencies.trans hdeps₂)
    refine ⟨?_, hdeps⟩
    unfold Db.Rooted
    rw [hdeps]
    exact hrooted'

end Argus.Incidents

import Argus.Incidents.Clearing

/-!
# What a history never takes back

A delivery opens, promotes and touches incidents, and writes signals, timeline events and audit entries;
an operator moves a status. Nothing that was recorded is removed or rewritten, and a status is where the
operators' transitions left it: no delivery moves one.
-/

namespace Argus.Incidents

open Relation (ReflTransGen)

/-- The same incident later. A promotion may have given it another root. -/
structure IncidentRow.Continued (i i' : IncidentRow) : Prop where
  id : i'.id = i.id
  environment : i'.environment = i.environment
  status : i'.status = i.status

/-- What is in the records stays there. -/
structure Db.Logged (db db' : Db) : Prop where
  signals : db.signals <+: db'.signals
  timeline : db.timeline <+: db'.timeline
  audit : db.audit <+: db'.audit

theorem Db.Logged.refl (db : Db) : db.Logged db :=
  ⟨List.prefix_refl _, List.prefix_refl _, List.prefix_refl _⟩

theorem Db.Logged.trans {db db₁ db' : Db} (h : db.Logged db₁) (h' : db₁.Logged db') :
    db.Logged db' :=
  ⟨h.signals.trans h'.signals, h.timeline.trans h'.timeline, h.audit.trans h'.audit⟩

/-- What a delivery keeps. -/
structure Kept (v w : View) : Prop where
  incidents : ∀ i ∈ v.db.incidents, ∃ i' ∈ w.db.incidents, i.Continued i'
  logged : v.db.Logged w.db

/-! ## The writes of a delivery -/

variable {v v₁ w : View} {id : String} {alert : NormalizedAlert}

theorem Kept.refl (v : View) : Kept v v := ⟨fun i hi => ⟨i, hi, rfl, rfl, rfl⟩, .refl _⟩

theorem Kept.trans (h : Kept v v₁) (h' : Kept v₁ w) : Kept v w := by
  refine ⟨fun i hi => ?_, h.logged.trans h'.logged⟩
  obtain ⟨i₁, hi₁, hsame⟩ := h.incidents i hi
  obtain ⟨i', hi', hsame'⟩ := h'.incidents i₁ hi₁
  exact ⟨i', hi', hsame'.id.trans hsame.id, hsame'.environment.trans hsame.environment,
    hsame'.status.trans hsame.status⟩

theorem exists_continued {p : IncidentRow → Prop} [DecidablePred p] {f : IncidentRow → IncidentRow}
    (hf : ∀ i, IncidentRow.Continued i (f i)) {rows : List IncidentRow} {i : IncidentRow}
    (hi : i ∈ rows) : ∃ i' ∈ Table.updateIf p f rows, i.Continued i' := by
  obtain ⟨i', hi', ⟨rfl, -⟩ | ⟨rfl, -⟩⟩ := Table.exists_mem_updateIf (p := p) (f := f) hi
  · exact ⟨i', hi', rfl, rfl, rfl⟩
  · exact ⟨_, hi', hf i⟩

theorem exists_continued_touchRows {now : Time} {cleared : IncidentRow → Option Time}
    {rows : List IncidentRow} {i : IncidentRow} (hi : i ∈ rows) :
    ∃ i' ∈ touchRows now id cleared rows, i.Continued i' := by
  unfold touchRows
  exact exists_continued (by exact fun _ => ⟨rfl, rfl, rfl⟩) hi

theorem SameOthers.logged (h : SameOthers v w) : v.db.Logged w.db := by
  obtain ⟨entries, haudit, -⟩ := h.quiet
  exact ⟨by rw [h.signals], by rw [h.timeline], entries, haudit.symm⟩

theorem SameRows.kept (h : SameRows v w) : Kept v w :=
  ⟨h.incidents ▸ (Kept.refl v).incidents, h.toSameOthers.logged⟩

theorem Found.kept {grouping : Grouping} {graph : Topology.Graph} {group : Topology.Group}
    {root : NormalizedAlert} {openIncidents : List IncidentRow} {i : IncidentRow} {origin : Origin}
    (h : Found grouping graph group root openIncidents v w i origin) : Kept v w := by
  cases h with
  | exact _ _ _ _ hsame | related _ _ _ _ hsame => exact hsame.kept
  | promoted _ _ _ _ _ hothers hincidents _ =>
    refine ⟨fun i hi => ?_, hothers.logged⟩
    rw [hincidents]
    exact exists_continued (by exact fun _ => ⟨rfl, rfl, rfl⟩) hi
  | created _ _ hothers hincidents =>
    refine ⟨fun i hi => ⟨i, ?_, rfl, rfl, rfl⟩, hothers.logged⟩
    rw [hincidents]
    exact List.mem_append_left _ hi

theorem Attached.kept {observation : Observation} (h : Attached v w id alert observation) :
    Kept v w := by
  obtain ⟨_, _, hsignals⟩ := h.signals
  obtain ⟨_, _, _, htimeline, -⟩ := h.timeline
  obtain ⟨_, haudit, -⟩ := h.quiet
  exact ⟨fun i hi => h.incidents ▸ exists_continued_touchRows hi,
    ⟨_, hsignals.symm⟩, ⟨_, htimeline.symm⟩, _, haudit.symm⟩

theorem Resolved.kept {staleAfter : Time} (h : Resolved staleAfter v w id alert) : Kept v w := by
  obtain ⟨_, _, _, hsignals⟩ := h.signals
  obtain ⟨_, htimeline, -⟩ := h.events
  obtain ⟨_, haudit, -⟩ := h.audit
  exact ⟨fun i hi => h.incidents ▸ exists_continued_touchRows hi,
    ⟨_, hsignals.symm⟩, ⟨_, htimeline.symm⟩, _, haudit.symm⟩

theorem ResolvedAll.kept {staleAfter : Time} {resolved : List NormalizedAlert}
    {stats stats' : IngestionStats} (h : ResolvedAll staleAfter resolved stats stats' v w) :
    Kept v w := by
  induction h with
  | nil => exact .refl _
  | unmatched hdb hnow _ _ ih => exact (SameRows.of_db hdb hnow).kept.trans ih
  | matched _ _ _ hresolved _ ih => exact hresolved.kept.trans ih

theorem Ingested.kept {grouping : Grouping} {payload : Webhook} {result : IngestionResult}
    {alerts resolved : List NormalizedAlert} {v₂ : View} {stats : IngestionStats}
    (h : Ingested grouping payload v w result alerts resolved v₁ v₂ stats) : Kept v w := by
  have hsteps : ReflTransGen Kept v₂ w := h.steps ⟨SameRows.kept, Found.kept, Attached.kept⟩
  refine h.registered.kept.trans (h.resolution.kept.trans ?_)
  clear h
  induction hsteps with
  | refl => exact .refl _
  | tail _ hstep ih => exact ih.trans hstep

/-! ## Histories -/

/-- The status of an incident after an event. -/
def Event.moves (id : String) (s : Status) : Event → Status
  | .delivery .. => s
  | .transition id' status _ => if id = id' ∧ s.canTransition status = true then status else s

theorem Db.step_kept (grouping : Grouping) (db : Db) (e : Event) :
    db.Logged (db.step grouping e) ∧
      ∀ i ∈ db.incidents, ∃ i' ∈ (db.step grouping e).incidents, i'.id = i.id ∧
        i'.environment = i.environment ∧ i'.status = e.moves i.id i.status := by
  cases e with
  | delivery payload actor now oracle =>
    have hkept : ∃ w, w.db = db.step grouping (.delivery payload actor now oracle) ∧
        Kept (.start now db) w := by
      rcases db.deliver_cases grouping payload actor now oracle with
        heq | ⟨w, result, alerts, resolved, v₁, v₂, stats, hdb, hingested⟩
      · exact ⟨.start now db, heq.symm, .refl _⟩
      · exact ⟨w, hdb, hingested.kept⟩
    obtain ⟨w, hdb, hkept⟩ := hkept
    rw [← hdb]
    refine ⟨hkept.logged, fun i hi => ?_⟩
    obtain ⟨i', hi', hsame⟩ := hkept.incidents i hi
    exact ⟨i', hi', hsame.id, hsame.environment, hsame.status⟩
  | transition id status now =>
    refine ⟨⟨List.prefix_refl _, List.prefix_refl _, List.prefix_refl _⟩, fun i hi => ?_⟩
    refine ⟨_, List.mem_map_of_mem hi, ?_⟩
    dsimp only [Event.moves]
    split <;> exact ⟨rfl, rfl, rfl⟩

/-- **A history only adds.** Signals, timeline events and audit entries are appended to, and every
incident keeps its environment and has the status that the operators' transitions, and nothing else,
led to; so a closed one stays as it was closed. -/
theorem history_kept (grouping : Grouping) (db : Db) (events : List Event) :
    let db' := db.run grouping events
    (db.signals <+: db'.signals ∧ db.timeline <+: db'.timeline ∧ db.audit <+: db'.audit) ∧
    ∀ i ∈ db.incidents, ∃ i' ∈ db'.incidents, i'.id = i.id ∧ i'.environment = i.environment ∧
      i'.status = events.foldl (Event.moves i.id) i.status ∧
      (i.status.isClosed = true → i'.status = i.status) := by
  induction events generalizing db with
  | nil => exact ⟨⟨List.prefix_refl _, List.prefix_refl _, List.prefix_refl _⟩,
      fun i hi => ⟨i, hi, rfl, rfl, rfl, fun _ => rfl⟩⟩
  | cons e events ih =>
    obtain ⟨hlogged, hrows⟩ := db.step_kept grouping e
    obtain ⟨⟨hsignals, htimeline, haudit⟩, hrest⟩ := ih (db.step grouping e)
    refine ⟨⟨hlogged.signals.trans hsignals, hlogged.timeline.trans htimeline,
      hlogged.audit.trans haudit⟩, fun i hi => ?_⟩
    obtain ⟨i₁, hi₁, hid, henv, hstatus⟩ := hrows i hi
    obtain ⟨i', hi', hid', henv', hstatus', hclosed⟩ := hrest i₁ hi₁
    rw [hid, hstatus] at hstatus'
    refine ⟨i', hi', hid'.trans hid, henv'.trans henv, hstatus', fun hs => ?_⟩
    -- no transition leaves a closed status
    have hsame : e.moves i.id i.status = i.status := by
      cases e with
      | delivery => rfl
      | transition => simp [Event.moves, Status.canTransition_of_isClosed hs]
    rw [hsame] at hstatus
    rw [hclosed (hstatus ▸ hs), hstatus]

end Argus.Incidents

import Argus.Incidents.Exactness

/-!
# On how many incidents an alert fires

An incident that still accepts alerts and carries the key of an alert `Holds` it. A delivery routes a
group by the alert of its root, so an alert that comes with others can be attached to another incident
than the one that holds it. As long as an alert that is held comes with no other alert of its
environment, every key is held by at most one incident (`Sole`): a group that is not the alert itself
brings only keys that nobody holds.
-/

namespace Argus.Incidents

open Sorting Topology

/-! ## Who holds a key -/

variable {graph : Graph} {i j' : IncidentRow} {alerts : List NormalizedAlert}
  {observation : NormalizedAlert → Observation} {key : String} {now now' : Time} {v v' v₁ : View}

theorem Db.active_iff {db : Db} {grouping : Grouping} :
    db.active grouping now i = true ↔ i.status.isClosed = false ∧
      ((∃ a ∈ db.alerts, a.incidentID = i.id ∧ a.status = .firing ∧
          now - grouping.alertStaleAfter ≤ a.lastSeenAt) ∨
        now - grouping.window ≤ i.lastSeenAt) := by
  simp [Db.active, and_assoc]

theorem Db.carries_iff {db : Db} :
    db.carries key i = true ↔
      i.dedupeKey = key ∨ ∃ a ∈ db.alerts, a.incidentID = i.id ∧ a.dedupeKey = key := by
  simp [Db.carries]

/-- The incident accepts alerts and carries the key. -/
structure Db.Holds (grouping : Grouping) (now : Time) (db : Db) (key : String) (i : IncidentRow) :
    Prop where
  mem : i ∈ db.incidents
  active : db.active grouping now i = true
  carries : db.carries key i = true

/-- Every key is held by at most one incident. -/
def Db.Sole (grouping : Grouping) (now : Time) (db : Db) : Prop :=
  ∀ key i j, db.Holds grouping now key i → db.Holds grouping now key j → i.id = j.id

/-- No alert that fires on an open incident is stale. -/
def Db.Fresh (grouping : Grouping) (now : Time) (db : Db) : Prop :=
  ∀ a ∈ db.alerts, a.status = .firing →
    (∃ i ∈ db.incidents, i.id = a.incidentID ∧ i.status.isClosed = false) →
    now - grouping.alertStaleAfter ≤ a.lastSeenAt

instance (grouping : Grouping) (now : Time) (db : Db) : Decidable (db.Fresh grouping now) :=
  inferInstanceAs (Decidable (∀ a ∈ db.alerts, _))

/-- What holds a key afterwards held it before. -/
def Db.Calm (grouping : Grouping) (now : Time) (db db' : Db) : Prop :=
  ∀ key i', db'.Holds grouping now key i' → ∃ i, db.Holds grouping now key i ∧ i.id = i'.id

section

variable {grouping : Grouping} {now : Time} {db db' : Db}

theorem Db.Calm.refl (grouping : Grouping) (now : Time) (db : Db) : db.Calm grouping now db :=
  fun _ i h => ⟨i, h, rfl⟩

theorem Db.Calm.trans {db'' : Db} (h : db.Calm grouping now db')
    (h' : db'.Calm grouping now db'') : db.Calm grouping now db'' := by
  intro key i'' hi''
  obtain ⟨i', hi', hid'⟩ := h' key i'' hi''
  obtain ⟨i, hi, hid⟩ := h key i' hi'
  exact ⟨i, hi, hid.trans hid'⟩

theorem Db.Sole.of_calm (h : db.Sole grouping now) (hcalm : db.Calm grouping now db') :
    db'.Sole grouping now := by
  intro key i' j' hi' hj'
  obtain ⟨i, hi, hid⟩ := hcalm key i' hi'
  obtain ⟨j, hj, hjd⟩ := hcalm key j' hj'
  rw [← hid, ← hjd]
  exact h key i j hi hj

variable {i : IncidentRow} {key : String}

/-- A key that fires on an open incident is held by it. -/
theorem Db.Fresh.holds (h : db.Fresh grouping now) (hi : i ∈ db.incidents)
    (hopen : i.status.isClosed = false) (hfires : db.FiresOn key i.id) :
    db.Holds grouping now key i := by
  obtain ⟨a, ha, hid, hkey, hfiring⟩ := hfires
  have hfresh := h a ha hfiring ⟨i, hi, hid.symm, hopen⟩
  exact ⟨hi, Db.active_iff.mpr ⟨hopen, .inl ⟨a, ha, hid, hfiring, hfresh⟩⟩,
    Db.carries_iff.mpr (.inr ⟨a, ha, hid, hkey⟩)⟩

/-- As time passes, incidents stop accepting alerts. -/
theorem Db.Holds.earlier (hle : now ≤ now') (h : db.Holds grouping now' key i) :
    db.Holds grouping now key i := by
  refine ⟨h.mem, ?_, h.carries⟩
  obtain ⟨hopen, hactive⟩ := Db.active_iff.mp h.active
  refine Db.active_iff.mpr ⟨hopen, ?_⟩
  rcases hactive with ⟨a, ha, hid, hfiring, hseen⟩ | hseen
  · exact .inl ⟨a, ha, hid, hfiring, (Int.sub_le_sub_right hle _).trans hseen⟩
  · exact .inr ((Int.sub_le_sub_right hle _).trans hseen)

theorem Db.Sole.later (hle : now ≤ now') (h : db.Sole grouping now) : db.Sole grouping now' :=
  fun key i j hi hj => h key i j (hi.earlier hle) (hj.earlier hle)

theorem Db.calm_transitionIncident (db : Db) (grouping : Grouping) (now : Time) (t : Time)
    (id : String) (status : Status) :
    db.Calm grouping now (db.transitionIncident t id status) := by
  intro key i' hi'
  obtain ⟨hopen, hactive⟩ := Db.active_iff.mp hi'.active
  obtain ⟨i, hi, ⟨rfl, -⟩ | ⟨rfl, hmove⟩⟩ := Table.mem_updateIf hi'.mem
  · exact ⟨_, ⟨hi, hi'.active, hi'.carries⟩, rfl⟩
  · refine ⟨i, ⟨hi, Db.active_iff.mpr ⟨?_, hactive⟩, hi'.carries⟩, rfl⟩
    by_contra hclosed
    have hnot := Status.canTransition_of_isClosed (t := status) (by simpa using hclosed)
    rw [hmove.2] at hnot
    cases hnot

theorem SameRows.holds_iff (h : SameRows v v') :
    v'.db.Holds grouping v'.now key i ↔ v.db.Holds grouping v.now key i := by
  have hactive : v'.db.active grouping v'.now i = v.db.active grouping v.now i := by
    rw [Db.active, Db.active, h.alerts, h.now]
  have hcarries : v'.db.carries key i = v.db.carries key i := by
    rw [Db.carries, Db.carries, h.alerts]
  constructor
  · intro hi
    exact ⟨h.incidents ▸ hi.mem, hactive ▸ hi.active, hcarries ▸ hi.carries⟩
  · intro hi
    exact ⟨h.incidents.symm ▸ hi.mem, hactive.symm ▸ hi.active, hcarries.symm ▸ hi.carries⟩

theorem SameRows.fresh (h : SameRows v v') (hfresh : v.db.Fresh grouping v.now) :
    v'.db.Fresh grouping v'.now := by
  unfold Db.Fresh
  rw [h.alerts, h.incidents, h.now]
  exact hfresh

end

/-! ## Resolved notifications -/

section

variable {grouping : Grouping} {v v' : View} {id : String} {staleAfter : Time}

theorem mem_resolveRows {resolvedAt : Time} {rows : List AlertRow} {a' : AlertRow}
    (h : a' ∈ resolveRows now id key resolvedAt rows) :
    (a' ∈ rows ∧ ¬ (a'.incidentID = id ∧ a'.dedupeKey = key)) ∨
      (a'.status = .resolved ∧ a'.incidentID = id ∧ a'.dedupeKey = key ∧
        ∃ a ∈ rows, a.incidentID = id ∧ a.dedupeKey = key) := by
  obtain ⟨a, ha, ⟨rfl, hnot⟩ | ⟨rfl, hmatch⟩⟩ := Table.mem_updateIf h
  · exact .inl ⟨ha, hnot⟩
  · exact .inr ⟨rfl, hmatch.1, hmatch.2, a, ha, hmatch.1, hmatch.2⟩

theorem mem_touchRows {cleared : IncidentRow → Option Time} {rows : List IncidentRow}
    (h : j' ∈ touchRows now id cleared rows) :
    ∃ j ∈ rows, j.id = j'.id ∧ j.dedupeKey = j'.dedupeKey ∧ j.status = j'.status ∧
      (j.id ≠ id → j' = j) := by
  obtain ⟨j, hj, ⟨rfl, -⟩ | ⟨rfl, hid⟩⟩ := Table.mem_updateIf h
  · exact ⟨_, hj, rfl, rfl, rfl, fun _ => rfl⟩
  · exact ⟨j, hj, rfl, rfl, rfl, fun hne => absurd hid hne⟩

variable {alert : NormalizedAlert}

/-- A resolved notification takes firing rows away and adds none. -/
theorem Resolved.firesOn (h : Resolved staleAfter v v' id alert) {other : String}
    (hfires : v'.db.FiresOn key other) :
    v.db.FiresOn key other ∧ ¬ (other = id ∧ key = alert.dedupeKey) := by
  obtain ⟨resolvedAt, halerts⟩ := h.alerts
  obtain ⟨a, ha, hid, hkey, hfiring⟩ := hfires
  rw [halerts] at ha
  rcases mem_resolveRows ha with ⟨ha, hnot⟩ | ⟨hresolved, -⟩
  · exact ⟨⟨a, ha, hid, hkey, hfiring⟩, fun heq => hnot ⟨hid.trans heq.1, hkey.trans heq.2⟩⟩
  · rw [hfiring] at hresolved
    cases hresolved

theorem Resolved.calm (h : Resolved staleAfter v v' i.id alert) (hi : i ∈ v.db.incidents)
    (hopen : i.status.isClosed = false) (hfires : v.db.FiresOn alert.dedupeKey i.id)
    (hrooted : v.Rooted graph) (hfresh : v.db.Fresh grouping v.now) :
    v.db.Calm grouping v.now v'.db := by
  obtain ⟨resolvedAt, halerts⟩ := h.alerts
  intro key j' hj'
  have hmem := hj'.mem
  rw [h.incidents] at hmem
  obtain ⟨j, hj, hid, hkey, hstatus, hsame⟩ := mem_touchRows hmem
  -- the keys that the incident carries are those it carried before
  have hcarries : v.db.carries key j = true := by
    rcases Db.carries_iff.mp hj'.carries with hroot | ⟨a', ha', haid, hakey⟩
    · exact Db.carries_iff.mpr (.inl (hkey.trans hroot))
    · rw [halerts] at ha'
      rcases mem_resolveRows ha' with ⟨ha, -⟩ | ⟨-, hid', hkey', a, ha, haid', hakey'⟩
      · exact Db.carries_iff.mpr (.inr ⟨a', ha, haid.trans hid.symm, hakey⟩)
      · refine Db.carries_iff.mpr (.inr ⟨a, ha, ?_, ?_⟩)
        · exact haid'.trans (hid'.symm.trans (haid.trans hid.symm))
        · exact hakey'.trans (hkey'.symm.trans hakey)
  by_cases hne : j.id = i.id
  · -- the incident on which the alert fires accepts alerts already
    have hji : j = i := hrooted.eq_of_id_eq hj hi hne
    have hactive := (hfresh.holds hi hopen hfires).active
    exact ⟨j, ⟨hj, hji ▸ hactive, hcarries⟩, hid⟩
  · obtain rfl := hsame hne
    refine ⟨j', ⟨hj, ?_, hcarries⟩, rfl⟩
    obtain ⟨hopen', hactive⟩ := Db.active_iff.mp hj'.active
    refine Db.active_iff.mpr ⟨hopen', hactive.imp_left ?_⟩
    rintro ⟨a', ha', haid, hfiring, hseen⟩
    rw [halerts] at ha'
    rcases mem_resolveRows ha' with ⟨ha, -⟩ | ⟨hresolved, -⟩
    · exact ⟨a', ha, haid, hfiring, hseen⟩
    · rw [hfiring] at hresolved
      cases hresolved

theorem Resolved.fresh (h : Resolved staleAfter v v' id alert) (hfresh : v.db.Fresh grouping v.now) :
    v'.db.Fresh grouping v.now := by
  obtain ⟨resolvedAt, halerts⟩ := h.alerts
  rintro a' ha' hfiring ⟨j', hj', hid', hopen⟩
  rw [halerts] at ha'
  rw [h.incidents] at hj'
  obtain ⟨j, hj, hid, -, hstatus, -⟩ := mem_touchRows hj'
  rcases mem_resolveRows ha' with ⟨ha, -⟩ | ⟨hresolved, -⟩
  · exact hfresh a' ha hfiring ⟨j, hj, hid.trans hid', hstatus ▸ hopen⟩
  · rw [hfiring] at hresolved
    cases hresolved

theorem ResolvedAll.calm {stats stats' : IngestionStats}
    (h : ResolvedAll staleAfter alerts stats stats' v v') (hsound : Sound alerts)
    (hrooted : v.Rooted graph) (hfresh : v.db.Fresh grouping v.now) :
    v'.now = v.now ∧ v.db.Calm grouping v.now v'.db ∧ v'.db.Fresh grouping v.now := by
  induction h with
  | nil => exact ⟨rfl, .refl _ _ _, hfresh⟩
  | unmatched hdb hnow _ _ ih =>
    obtain ⟨hnow', hcalm, hfresh'⟩ := ih (fun a ha => hsound a (List.mem_cons_of_mem _ ha))
      ((SameRows.of_db hdb hnow).rooted hrooted) ((SameRows.of_db hdb hnow).fresh hfresh)
    rw [hdb, hnow] at hcalm
    rw [hnow] at hfresh'
    exact ⟨hnow'.trans hnow, hcalm, hfresh'⟩
  | matched hmem hopen hfires hresolved _ ih =>
    obtain ⟨hkeyed, hfree⟩ := hsound _ List.mem_cons_self
    have hfresh₁ := hresolved.fresh hfresh
    obtain ⟨hnow', hcalm, hfresh'⟩ := ih (fun a ha => hsound a (List.mem_cons_of_mem _ ha))
      (hresolved.rooted hmem hfires hkeyed hfree hrooted) (by rw [hresolved.now]; exact hfresh₁)
    rw [hresolved.now] at hcalm hfresh'
    exact ⟨hnow'.trans hresolved.now,
      (hresolved.calm hmem hopen hfires hrooted hfresh).trans hcalm, hfresh'⟩

end

/-! ## Attached alerts -/

/-- What attaching alerts to an incident does to rows. -/
structure Touched (id : String) (keys : String → Prop) (v v' : View) : Prop where
  now : v'.now = v.now
  alert : ∀ a' ∈ v'.db.alerts, a' ∈ v.db.alerts ∨
    (a'.incidentID = id ∧ keys a'.dedupeKey ∧ a'.lastSeenAt = v.now)
  others : ∀ a ∈ v.db.alerts, a.incidentID ≠ id → a ∈ v'.db.alerts
  incident : ∀ j' ∈ v'.db.incidents, ∃ j ∈ v.db.incidents, j.id = j'.id ∧
    j.dedupeKey = j'.dedupeKey ∧ j.status = j'.status ∧ (j.id ≠ id → j' = j)
  row : ∀ j ∈ v.db.incidents, ∃ j' ∈ v'.db.incidents, j'.id = j.id ∧ j'.status = j.status ∧
    (j.id ≠ id → j' = j)

section

variable {v v' : View}

variable {id : String}

theorem Attached.touched {alert : NormalizedAlert} {observation : Observation}
    (h : Attached v v' id alert observation) : Touched id (· = alert.dedupeKey) v v' := by
  refine ⟨h.now, fun a' ha' => ?_, fun a ha hne => ?_, fun j' hj' => ?_, fun j hj => ?_⟩
  · rw [h.alerts] at ha'
    unfold fireRows at ha'
    split at ha'
    · obtain ⟨a, ha, ⟨rfl, -⟩ | ⟨rfl, hmatch⟩⟩ := Table.mem_updateIf ha'
      · exact .inl ha
      · exact .inr ⟨hmatch.1, hmatch.2, rfl⟩
    · rcases List.mem_append.mp ha' with ha | hnew
      · exact .inl ha
      · rw [List.mem_singleton.mp hnew]
        exact .inr ⟨rfl, rfl, rfl⟩
  · rw [h.alerts]
    unfold fireRows
    split
    · obtain ⟨a', ha', ⟨rfl, -⟩ | ⟨-, hmatch⟩⟩ := Table.exists_mem_updateIf
        (p := fun a : AlertRow => a.incidentID = id ∧ a.dedupeKey = alert.dedupeKey)
        (f := fun a => { a with status := .firing, lastSeenAt := v.now, resolvedAt := none }) ha
      · exact ha'
      · exact absurd hmatch.1 hne
    · exact List.mem_append_left _ ha
  · rw [h.incidents] at hj'
    exact mem_touchRows hj'
  · rw [h.incidents]
    obtain ⟨j', hj', ⟨rfl, -⟩ | ⟨rfl, hid⟩⟩ := Table.exists_mem_updateIf
      (p := fun i : IncidentRow => i.id = id)
      (f := fun i => { i with lastSeenAt := v.now, alertsClearedAt := none }) hj
    · exact ⟨_, hj', rfl, rfl, fun _ => rfl⟩
    · exact ⟨_, hj', rfl, rfl, fun hne => absurd hid hne⟩

theorem Touched.trans {keys keys' keys'' : String → Prop} (h : Touched id keys v v₁)
    (h' : Touched id keys' v₁ v') (hkeys : ∀ key, keys key → keys'' key)
    (hkeys' : ∀ key, keys' key → keys'' key) : Touched id keys'' v v' := by
  refine ⟨h'.now.trans h.now, fun a' ha' => ?_, fun a ha hne => ?_, fun j' hj' => ?_,
    fun j hj => ?_⟩
  · rcases h'.alert a' ha' with ha | ⟨hid, hkey, hseen⟩
    · rcases h.alert a' ha with ha | ⟨hid, hkey, hseen⟩
      · exact .inl ha
      · exact .inr ⟨hid, hkeys _ hkey, hseen⟩
    · exact .inr ⟨hid, hkeys' _ hkey, hseen.trans h.now⟩
  · exact h'.others a (h.others a ha hne) hne
  · obtain ⟨j₁, hj₁, hid, hkey, hstatus, hsame⟩ := h'.incident j' hj'
    obtain ⟨j, hj, hid₁, hkey₁, hstatus₁, hsame₁⟩ := h.incident j₁ hj₁
    refine ⟨j, hj, hid₁.trans hid, hkey₁.trans hkey, hstatus₁.trans hstatus, fun hne => ?_⟩
    exact (hsame (hid₁ ▸ hne)).trans (hsame₁ hne)
  · obtain ⟨j₁, hj₁, hid, hstatus, hsame⟩ := h.row j hj
    obtain ⟨j', hj', hid', hstatus', hsame'⟩ := h'.row j₁ hj₁
    refine ⟨j', hj', hid'.trans hid, hstatus'.trans hstatus, fun hne => ?_⟩
    exact (hsame' (hid.symm ▸ hne)).trans (hsame hne)

theorem AttachedAll.touched (h : AttachedAll id observation alerts v v') :
    Touched id (fun key => ∃ a ∈ alerts, key = a.dedupeKey) v v' := by
  induction h with
  | nil =>
    exact ⟨rfl, fun _ h => .inl h, fun _ h _ => h, fun j hj => ⟨j, hj, rfl, rfl, rfl, fun _ => rfl⟩,
      fun j hj => ⟨j, hj, rfl, rfl, fun _ => rfl⟩⟩
  | cons hfirst _ ih =>
    refine hfirst.touched.trans ih (fun key hkey => ⟨_, List.mem_cons_self, hkey⟩) fun key => ?_
    rintro ⟨a, ha, hkey⟩
    exact ⟨a, List.mem_cons_of_mem _ ha, hkey⟩

/-- The last attached alert has just been seen firing. -/
theorem AttachedAll.seen (h : AttachedAll id observation alerts v v')
    (hseen : alerts ≠ [] ∨ ∃ a ∈ v.db.alerts, a.incidentID = id ∧ a.status = .firing ∧
      a.lastSeenAt = v.now) :
    ∃ a ∈ v'.db.alerts, a.incidentID = id ∧ a.status = .firing ∧ a.lastSeenAt = v'.now := by
  induction h with
  | nil => exact hseen.resolve_left fun hne => hne rfl
  | @cons alert alerts v v₁ v' hfirst _ ih =>
    refine ih (.inr ?_)
    rw [hfirst.alerts, hfirst.now]
    obtain ⟨a, ha, hid, -, hrest⟩ := fireRows_fires v.now id alert v.db.alerts
    exact ⟨a, ha, hid, hrest⟩

end

/-! ## The incident of a group -/

/-- What finding the incident of a group does to rows: the incident accepted alerts before, or it is new
and has none; if its root moved there, its key is now that of the root. -/
structure Settled (grouping : Grouping) (v v' : View) (id key : String) (moved : Prop) : Prop where
  now : v'.now = v.now
  alerts : v'.db.alerts = v.db.alerts
  others : ∀ j, j.id ≠ id → (j ∈ v'.db.incidents ↔ j ∈ v.db.incidents)
  row : ∃ j ∈ v'.db.incidents, j.id = id
  own : ∀ j' ∈ v'.db.incidents, j'.id = id →
    (∃ j ∈ v.db.incidents, j.id = id ∧ v.db.active grouping v.now j = true ∧
        j'.status = j.status ∧ (j'.dedupeKey = j.dedupeKey ∨ moved ∧ j'.dedupeKey = key)) ∨
      ((∀ a ∈ v.db.alerts, a.incidentID ≠ id) ∧ j'.status.isClosed = false ∧ moved ∧
        j'.dedupeKey = key)

/-- The list of open incidents accepts alerts. -/
def Accepting (grouping : Grouping) (openIncidents : List IncidentRow) (v : View) : Prop :=
  ∀ i ∈ openIncidents, ∃ j ∈ v.db.incidents, j.id = i.id ∧ v.db.active grouping v.now j = true

section

variable {grouping : Grouping} {graph : Graph} {group : Group} {root : NormalizedAlert}
  {openIncidents : List IncidentRow} {v v' : View} {incident : IncidentRow} {origin : Origin}

/-- An incident that accepts alerts, unchanged. -/
theorem settled_of_sameRows (hrooted : v.Rooted graph) (hsame : SameRows v v') {j : IncidentRow}
    (hj : j ∈ v.db.incidents) (hactive : v.db.active grouping v.now j = true) (key : String)
    (moved : Prop) : Settled grouping v v' j.id key moved := by
  refine ⟨hsame.now, hsame.alerts, fun _ _ => by rw [hsame.incidents],
    ⟨j, hsame.incidents.symm ▸ hj, rfl⟩, fun j' hj' hid => .inl ?_⟩
  rw [hsame.incidents] at hj'
  obtain rfl := hrooted.eq_of_id_eq hj' hj hid
  exact ⟨j', hj, rfl, hactive, rfl, .inl rfl⟩

theorem Found.settled (h : Found grouping graph group root openIncidents v v' incident origin)
    (hrooted : v.Rooted graph) (haccepting : Accepting grouping openIncidents v) :
    Settled grouping v v' incident.id (rootDedupeKey group root) (origin ≠ .existing) := by
  have hkept : ∀ j, j.id ≠ incident.id → (j ∈ v'.db.incidents ↔ j ∈ v.db.incidents) := by
    intro j hne
    constructor
    · intro hj
      rcases h.rows.2 j hj with ⟨k, hk, -, -, -, heq⟩ | ⟨-, -, hid⟩
      · exact heq hne ▸ hk
      · exact absurd hid hne
    · intro hj
      obtain ⟨j', hj', -, -, heq⟩ := h.rows.1 j hj
      exact heq hne ▸ hj'
  cases h with
  | exact _ hmem hactive _ hsame =>
    exact settled_of_sameRows hrooted hsame hmem hactive _ _
  | related _ hmem _ _ hsame =>
    obtain ⟨j, hj, hid, hactive⟩ := haccepting incident hmem
    rw [← hid]
    exact settled_of_sameRows hrooted hsame hj hactive _ _
  | promoted _ hmem _ _ _ hothers hincidents hfind =>
    obtain ⟨j, hj, hid, hactive⟩ := haccepting _ hmem
    have hidin := id_eq_of_find? hfind
    refine ⟨hothers.now, hothers.alerts, hkept,
      ⟨incident, List.mem_of_find?_eq_some hfind, rfl⟩, fun j' hj' hid' => .inl ?_⟩
    rw [hincidents] at hj'
    obtain ⟨k, hk, ⟨rfl, hne⟩ | ⟨rfl, heq⟩⟩ := Table.mem_updateIf hj'
    · exact absurd (hid'.trans hidin) hne
    · obtain rfl := hrooted.eq_of_id_eq hk hj (heq.trans hid.symm)
      exact ⟨k, hj, hid.trans hidin.symm, hactive, rfl, .inr ⟨by decide, rfl⟩⟩
  | created _ hfresh hothers hincidents =>
    refine ⟨hothers.now, hothers.alerts, hkept,
      ⟨_, hincidents ▸ List.mem_append_right _ (List.mem_singleton_self _), rfl⟩,
      fun j' hj' hid' => .inr ?_⟩
    rw [hincidents] at hj'
    rcases List.mem_append.mp hj' with hj' | hj'
    · exact absurd hid' (Db.ne_of_hasIncident hfresh hj')
    · rw [List.mem_singleton.mp hj']
      refine ⟨fun a ha heq => ?_, rfl, by decide, rfl⟩
      obtain ⟨i, hi, hid, -⟩ := hrooted.alert a ha
      exact Db.ne_of_hasIncident hfresh hi (hid.trans heq)

theorem Settled.of_sameRows {id : String} {moved : Prop} (h : Settled grouping v v₁ id key moved)
    (hsame : SameRows v₁ v') : Settled grouping v v' id key moved := by
  refine ⟨hsame.now.trans h.now, hsame.alerts.trans h.alerts, ?_, ?_, ?_⟩
  · rw [hsame.incidents]
    exact h.others
  · rw [hsame.incidents]
    exact h.row
  · rw [hsame.incidents]
    exact h.own

/-! ## A group -/

variable {v₁ : View} {id key : String} {moved : Prop} {keys : String → Prop}

section

variable (hsettled : Settled grouping v v₁ id key moved) (htouched : Touched id keys v₁ v')

include hsettled htouched

/-- Whoever holds a key after a group held it before, or it is the group's incident with a key of the
group. -/
theorem Settled.holds {k : String} (h : v'.db.Holds grouping v'.now k j') :
    (∃ j, v.db.Holds grouping v.now k j ∧ j.id = j'.id) ∨
      j'.id = id ∧ (keys k ∨ moved ∧ k = key) := by
  obtain ⟨j₁, hj₁, hid, hkey, hstatus, hsame⟩ := htouched.incident j' h.mem
  by_cases hne : j₁.id = id
  · -- the group's incident: a key it carried, the key of its root, or a key of the group
    have hown : (∃ a ∈ v.db.alerts, a.incidentID = id ∧ a.dedupeKey = k) ∨ j₁.dedupeKey = k ∨
        keys k := by
      rcases Db.carries_iff.mp h.carries with hroot | ⟨a, ha, haid, hakey⟩
      · exact .inr (.inl (hkey.trans hroot))
      · rcases htouched.alert a ha with hold | ⟨-, hnew, -⟩
        · exact .inl ⟨a, hsettled.alerts ▸ hold, haid.trans (hid.symm.trans hne), hakey⟩
        · exact .inr (.inr (hakey ▸ hnew))
    rcases hsettled.own j₁ hj₁ hne with
      ⟨j, hj, hjid, hactive, -, hroot⟩ | ⟨hnone, -, hmoved, hroot⟩
    · rcases hown with ⟨a, ha, haid, hakey⟩ | hcarried | hnew
      · exact .inl ⟨j, ⟨hj, hactive, Db.carries_iff.mpr (.inr ⟨a, ha, haid.trans hjid.symm,
          hakey⟩)⟩, hjid.trans (hne.symm.trans hid)⟩
      · rcases hroot with hroot | ⟨hmoved, hroot⟩
        · exact .inl ⟨j, ⟨hj, hactive, Db.carries_iff.mpr (.inl (hroot.symm.trans hcarried))⟩,
            hjid.trans (hne.symm.trans hid)⟩
        · exact .inr ⟨hid.symm.trans hne, .inr ⟨hmoved, hcarried.symm.trans hroot⟩⟩
      · exact .inr ⟨hid.symm.trans hne, .inl hnew⟩
    · rcases hown with ⟨a, ha, haid, -⟩ | hcarried | hnew
      · exact absurd haid (hnone a ha)
      · exact .inr ⟨hid.symm.trans hne, .inr ⟨hmoved, hcarried.symm.trans hroot⟩⟩
      · exact .inr ⟨hid.symm.trans hne, .inl hnew⟩
  · -- another incident: none of its rows changed
    obtain rfl := hsame hne
    have hback : ∀ a ∈ v'.db.alerts, a.incidentID = j'.id → a ∈ v.db.alerts := fun a ha haid => by
      rcases htouched.alert a ha with hold | ⟨hid', -⟩
      · exact hsettled.alerts ▸ hold
      · exact absurd (haid.symm.trans hid') hne
    refine .inl ⟨j', ⟨(hsettled.others j' hne).mp hj₁, ?_, ?_⟩, rfl⟩
    · obtain ⟨hopen, hactive⟩ := Db.active_iff.mp h.active
      rw [htouched.now, hsettled.now] at hactive
      refine Db.active_iff.mpr ⟨hopen, hactive.imp_left ?_⟩
      rintro ⟨a, ha, haid, hfiring, hseen⟩
      exact ⟨a, hback a ha haid, haid, hfiring, hseen⟩
    · refine Db.carries_iff.mpr ((Db.carries_iff.mp h.carries).imp_right ?_)
      rintro ⟨a, ha, haid, hakey⟩
      exact ⟨a, hback a ha haid, haid, hakey⟩

/-- A group keeps every key with one incident if nobody else holds a key that it brings. -/
theorem Settled.sole (hsole : v.db.Sole grouping v.now)
    (hkeys : ∀ k j, keys k → v.db.Holds grouping v.now k j → j.id = id)
    (hmoved : ∀ j, moved → v.db.Holds grouping v.now key j → j.id = id) :
    v'.db.Sole grouping v'.now := by
  have hbrought : ∀ k j, (keys k ∨ moved ∧ k = key) → v.db.Holds grouping v.now k j → j.id = id := by
    rintro k j (hk | ⟨hm, rfl⟩) hj
    · exact hkeys k j hk hj
    · exact hmoved j hm hj
  intro k i' j' hi' hj'
  rcases hsettled.holds htouched hi' with ⟨i, hi, hid⟩ | ⟨hid, hk⟩
  · rcases hsettled.holds htouched hj' with ⟨j, hj, hjd⟩ | ⟨hjd, hk⟩
    · rw [← hid, ← hjd]
      exact hsole k i j hi hj
    · rw [← hid, hjd]
      exact hbrought k i hk hi
  · rcases hsettled.holds htouched hj' with ⟨j, hj, hjd⟩ | ⟨hjd, -⟩
    · rw [hid, ← hjd]
      exact (hbrought k j hk hj).symm
    · rw [hid, hjd]

theorem Settled.fresh (hstale : 0 < grouping.alertStaleAfter) (hfresh : v.db.Fresh grouping v.now) :
    v'.db.Fresh grouping v'.now := by
  rintro a ha hfiring ⟨j', hj', hid', hopen⟩
  rw [htouched.now, hsettled.now]
  rcases htouched.alert a ha with hold | ⟨-, -, hseen⟩
  · rw [hsettled.alerts] at hold
    obtain ⟨j₁, hj₁, hid₁, -, hstatus₁, -⟩ := htouched.incident j' hj'
    by_cases hne : j₁.id = id
    · rcases hsettled.own j₁ hj₁ hne with ⟨j, hj, hjid, -, hstatus, -⟩ | ⟨hnone, -⟩
      · refine hfresh a hold hfiring ⟨j, hj, ?_, hstatus ▸ hstatus₁ ▸ hopen⟩
        exact hjid.trans (hne.symm.trans (hid₁.trans hid'))
      · exact absurd (hid'.symm.trans (hid₁.symm.trans hne)) (hnone a hold)
    · exact hfresh a hold hfiring
        ⟨j₁, (hsettled.others j₁ hne).mp hj₁, hid₁.trans hid', hstatus₁ ▸ hopen⟩
  · rw [hseen, hsettled.now]
    exact Int.sub_le_self _ hstale.le

end

/-- The list of open incidents after a group. -/
theorem Settled.accepting (hsettled : Settled grouping v v₁ incident.id key moved)
    (htouched : Touched incident.id keys v₁ v') (hstale : 0 < grouping.alertStaleAfter)
    (hseen : ∃ a ∈ v'.db.alerts, a.incidentID = incident.id ∧ a.status = .firing ∧
      a.lastSeenAt = v'.now)
    (hunique : (openIncidents.map (·.id)).Nodup) (haccepting : Accepting grouping openIncidents v) :
    Accepting grouping (appendOrReplaceIncident openIncidents incident) v' := by
  intro x hx
  rcases mem_appendOrReplaceIncident hunique hx with rfl | ⟨hold, hne⟩
  · obtain ⟨j₁, hj₁, hid₁⟩ := hsettled.row
    obtain ⟨j', hj', hid', hstatus', -⟩ := htouched.row j₁ hj₁
    obtain ⟨a, ha, haid, hfiring, haseen⟩ := hseen
    refine ⟨j', hj', hid'.trans hid₁, Db.active_iff.mpr ⟨?_, .inl ⟨a, ha, ?_, hfiring, ?_⟩⟩⟩
    · rw [hstatus']
      rcases hsettled.own j₁ hj₁ hid₁ with ⟨j, -, -, hactive, hstatus, -⟩ | ⟨-, hopen, -⟩
      · rw [hstatus]
        exact (Db.active_iff.mp hactive).1
      · exact hopen
    · exact haid.trans (hid₁.symm.trans hid'.symm)
    · rw [haseen]
      exact Int.sub_le_self _ hstale.le
  · obtain ⟨j, hj, hid, hactive⟩ := haccepting x hold
    have hjne : j.id ≠ incident.id := hid ▸ hne
    obtain ⟨j', hj', -, -, hsame⟩ := htouched.row j ((hsettled.others j hjne).mpr hj)
    obtain rfl := hsame hjne
    refine ⟨j', hj', hid, ?_⟩
    obtain ⟨hopen, hcause⟩ := Db.active_iff.mp hactive
    rw [← hsettled.now, ← htouched.now] at hcause
    refine Db.active_iff.mpr ⟨hopen, hcause.imp_left ?_⟩
    rintro ⟨a, ha, haid, hfiring, haseen⟩
    exact ⟨a, htouched.others a (hsettled.alerts.symm ▸ ha) (haid ▸ hjne), haid, hfiring, haseen⟩

end

end Argus.Incidents

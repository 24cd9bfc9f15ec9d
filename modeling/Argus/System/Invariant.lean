import Argus.System.Exclusive

/-!
# The invariant of the system

Everything that holds in every state of every run, and what a discipline adds to it. Every step keeps it,
and so do crashes and the environment; only incidents may be closed at any time, so that what is assumed
of them has to be assumed of the environment.
-/

namespace Argus.System

open Remediation (Time RemediationAction Result Status Write SameProposal)
open Helios (Workflow WorkflowState)

section

variable {cfg : Config} {d : Discipline} {i : ℕ} {l : Label} {o : Oracle} {s s' : Shared}

/-! ## Incidents -/

/-- With the local executor, what is queued or running belongs to an open incident. -/
def Attended (cfg : Config) (s : Shared) : Prop :=
  cfg.executor = .localQueue → ∀ r ∈ s.db.remediations, r.status.isDispatchable = true →
    IncidentOpen s r.incidentID

theorem IncidentOpen.congr {id : String} (h : IncidentOpen s id)
    (heq : s'.db.incidents = s.db.incidents) : IncidentOpen s' id := by
  obtain ⟨x, hx, hopen⟩ := h
  refine ⟨x, ?_, hopen⟩
  rwa [Db.incident, heq]

theorem Db.incidents_applyOne {db db' : Db} {now : Time} {u : Db.Update}
    (h : db.applyOne now u = .ok db') : db'.incidents = db.incidents := by
  obtain rfl := Db.applyOne_eq h
  exact (Db.sameOthers_writeAll db now u.id u.writes).1.incidents

theorem Db.incidents_reconciles {db db' : Db} {cfg : Outbox.Config} {now : Time} {fresh : String}
    {x : Db.Stuck} (h : Db.Reconciles cfg now fresh x db db') : db'.incidents = db.incidents := by
  cases h with
  | none | exhausted => rfl
  | redispatched _ _ h =>
    obtain ⟨_, -, -, -, -, -, rfl⟩ := Db.redispatch_eq_ok h
    rfl

/-- No call closes an incident. -/
theorem Step.incidentOpen (h : Step cfg d i l o s s') {id : String} (hopen : IncidentOpen s id) :
    IncidentOpen s' id := by
  cases h with
  | quiet h _ => exact h.incidents id hopen
  | insert h _ =>
    obtain ⟨rows, -, rfl⟩ := Db.insertRemediation_eq_ok h
    exact hopen.congr rfl
  | settle h =>
    obtain ⟨⟩ := h
    exact hopen.congr rfl
  | reserve h _ _ _ =>
    obtain ⟨-, dispatches, -, rfl⟩ := Db.reserve_eq_ok h
    exact hopen.congr rfl
  | replay h =>
    obtain ⟨_, -, -, -, -, -, rfl⟩ := Db.redispatch_eq_ok h
    exact hopen.congr rfl
  | reconcile _ h =>
    let R (a b : Bool × Db) : Prop := b.2.incidents = a.2.incidents
    refine hopen.congr (rel_of_foldlM (R := R) (fun _ => rfl) (fun h h' => h'.trans h) ?_ h)
    intro acc x _ acc' hone
    exact Db.incidents_reconciles (Db.reconciles_of_reconcileOne hone)
  | outcome _ _ _ _ h => exact hopen.congr (Db.incidents_applyOne h)
  | commit _ _ h =>
    let R (a b : Db) : Prop := b.incidents = a.incidents
    refine hopen.congr (rel_of_foldlM (R := R) (fun _ => rfl) (fun h h' => h'.trans h) ?_ h)
    intro db u _ db' hone
    exact Db.incidents_applyOne hone
  | _ => exact hopen.congr rfl

/-- Where no row is inserted, the rows stay where they are. -/
theorem Changes.map {s' : Shared} (h : Changes cfg d .read s s') :
    ∃ f, (∀ r, SameProposal r (f r)) ∧ s'.db.remediations = s.db.remediations.map f := by
  induction h with
  | refl => exact ⟨id, fun r => .refl r, (List.map_id _).symm⟩
  | tail _ hstep ih =>
    obtain ⟨f, hf, hrows⟩ := ih
    rcases hstep.updates with ⟨g, hg, hrows'⟩ | ⟨_, _, _, _, _, _, _, _, hl, -⟩
    · refine ⟨g ∘ f, fun r => (hf r).trans (hg.same (f r)), ?_⟩
      rw [hrows', hrows, List.map_map]
    · cases hl

theorem Attended.step (h : Attended cfg s) (hd : d.incidents)
    (hids : s.db.Distinct) (hids' : s'.db.Distinct)
    (hstep : Step cfg d i l o s s') : Attended cfg s' := by
  intro hlocal
  -- a row that was there before
  have hold {r r' : RemediationAction} (hr : r ∈ s.db.remediations) (hr' : r' ∈ s'.db.remediations)
      (hsame : SameProposal r r') (hstatus' : r'.status.isDispatchable = true) :
      IncidentOpen s' r'.incidentID := by
    refine hstep.incidentOpen ?_
    rw [hsame.incidentID]
    obtain ⟨status', hst, htransition⟩ := hstep.transition (Db.statusOf_of_mem hids hr)
    rw [← hsame.id, Db.statusOf_of_mem hids' hr'] at hst
    rw [Option.some.inj hst] at hstatus'
    cases htransition with
    | advance hadvance =>
      cases hadvance with
      | same => exact h hlocal r hr hstatus'
      | run hsource _ => exact h hlocal r hr hsource
      | abandon _ => cases hstatus'
    | settle _ htarget =>
      rcases htarget with heq | heq | heq | heq <;> simp [heq, Status.isDispatchable] at hstatus'
    | cancel _ _ => cases hstatus'
    | reserve _ hopen => exact hopen hd r hr rfl
    | release _ _ _ _ => cases hstatus'
  intro r' hr' hstatus'
  rcases hstep.changes_or_inserts with hchanges | ⟨⟨_, _, _, _, _, _, _, _, -, hins, -⟩, -⟩
  · obtain ⟨f, hf, hrows⟩ := hchanges.map
    have hmem := hr'
    rw [hrows] at hmem
    obtain ⟨r, hr, rfl⟩ := List.mem_map.mp hmem
    exact hold hr hr' (hf r) hstatus'
  · have hmem := hr'
    rw [hins.eq, List.mem_append, List.mem_singleton] at hmem
    rcases hmem with hmem | rfl
    · exact hold hmem hr' (.refl r') hstatus'
    · rw [not_isDispatchable_newRemediation] at hstatus'
      cases hstatus'

/-! ## The invariant -/

/-- The invariant of the system. -/
structure Invariant (cfg : Config) (d : Discipline) (s : Shared) : Prop where
  tables : Tables cfg d s
  locks : Locks s
  proposals : d.proposals → Proposals s
  incidents : d.incidents → Attended cfg s
  exclusive : d.exclusive → Exclusive s

theorem Invariant.ids (h : Invariant cfg d s) : s.db.Distinct :=
  h.tables.coupling.ids

/-- Every step keeps the invariant. -/
theorem Invariant.step (h : Invariant cfg d s) (hstep : Step cfg d i l o s s') :
    Invariant cfg d s' := by
  obtain ⟨l', hchanges⟩ := hstep.changes
  have htables := h.tables.changes hchanges
  have hids' := htables.coupling.ids
  exact
    { tables := htables
      locks := h.locks.step h.ids hids' hstep
      proposals := fun hd => (h.proposals hd).step hd hstep
      incidents := fun hd => (h.incidents hd).step hd h.ids hids' hstep
      exclusive := fun hd => (h.exclusive hd).step hd h.tables.following h.locks hids' hstep }

theorem Invariant.crash (h : Invariant cfg d s) (i : ℕ) : Invariant cfg d (crash i s) := by
  have hdb : (System.crash i s).db = s.db := by
    unfold System.crash
    dsimp only
    split <;> rfl
  refine
    { tables := h.tables.change (crash_change (l := .read) i s)
      locks := h.locks.crash i
      proposals := fun hd => ?_
      incidents := fun hd hlocal r hr hstatus => ?_
      exclusive := fun hd => (h.exclusive hd).crash i }
  · have hchange : Change cfg d .read s (System.crash i s) := crash_change i s
    exact (h.proposals hd).change hchange
  · rw [hdb] at hr
    exact (h.incidents hd hlocal r hr hstatus).congr (congrArg Db.incidents hdb)

theorem Exclusive.environment (h : Exclusive s) {e : Environment}
    (henv : environment e s = some s') : Exclusive s' := by
  cases e with
  | incident _ | heartbeat _ =>
    obtain rfl := Option.some.inj henv
    exact ⟨fun id w hw => h.newest id w ⟨hw.mem, hw.remediationID, hw.active⟩,
      fun id w hw r hr hid =>
        (h.follows id w ⟨hw.mem, hw.remediationID, hw.active⟩ r hr hid).mono rfl
          (List.Subset.refl _), h.held⟩
  | workflow workflowID state =>
    obtain rfl := Option.some.inj henv
    refine ⟨fun id w' hw' => ?_, fun id w' hw' r hr hid => ?_, h.held⟩
    · obtain ⟨w, hw, -, hnewest⟩ := live_of_move (s := s) rfl hw'
      exact hnewest (h.newest id w hw)
    · obtain ⟨w, hw, hwid, -⟩ := live_of_move (s := s) rfl hw'
      exact (h.follows id w hw r hr hid).mono hwid (List.Subset.refl _)
  | submission workflowID state =>
    simp only [System.environment] at henv
    split at henv
    · cases henv
    · obtain rfl := Option.some.inj henv
      -- somebody else's workflow is nobody's remediation
      have hold {id : String} {w : Workflow} (hw : Live { s with
          workflows := ⟨workflowID, none, false, state, 0⟩ :: s.workflows } id w) : Live s id w := by
        refine ⟨(List.mem_cons.mp hw.mem).resolve_left ?_, hw.remediationID, hw.active⟩
        rintro rfl
        cases hw.remediationID
      exact ⟨fun id w hw => h.newest id w (hold hw),
        fun id w hw r hr hid => (h.follows id w (hold hw) r hr hid).mono rfl
          (List.Subset.refl _), h.held⟩

/-- The environment keeps the invariant, if it closes no incident that matters. -/
theorem Invariant.environment (h : Invariant cfg d s) {e : Environment}
    (henv : environment e s = some s') (hopen : d.incidents → Attended cfg s') :
    Invariant cfg d s' where
  tables := h.tables.change (environment_change (l := .read) henv)
  locks := h.locks.environment henv
  proposals hd := by
    have hchange : Change cfg d .read s s' := environment_change henv
    exact (h.proposals hd).change hchange
  incidents := hopen
  exclusive hd := (h.exclusive hd).environment henv

end

end Argus.System

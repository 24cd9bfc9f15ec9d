import Argus.System.Invariant

/-!
# What a process owns

A process that holds a reservation, or the rows of a reconciliation, can rely on them while the others
run: the reservation stays the current one in its mode, rows that are locked stay as they are, and nobody
submits a workflow for what it owns. `Undisturbed` collects this; what Helios told a process stays
right as long as it is undisturbed.
-/

namespace Argus.System

open Remediation (Time RemediationAction Result Status Write)
open Helios (Workflow)

/-- The remediation is in a mode. -/
def InMode (s : Shared) (id : String) (dryRun : Bool) : Prop :=
  ∃ r ∈ s.db.remediations, r.id = id ∧ r.dryRun = dryRun

/-- What process `i` owns is as it left it, apart from workflows of one remediation. -/
structure Undisturbed (d : Discipline) (i : ℕ) (exempt : Option String) (s s' : Shared) : Prop where
  holders : ∀ id, (i, id) ∈ s.holders → (i, id) ∈ s'.holders
  locks : s.reconciler = some i → s'.reconciler = some i ∧ s'.rowLocks = s.rowLocks
  rows : s.reconciler = some i → ∀ r : RemediationAction, r.id ∈ s.rowLocks →
    (r ∈ s'.db.remediations ↔ r ∈ s.db.remediations)
  modes : ∀ id, Owned i id s → ∀ dryRun, InMode s id dryRun → InMode s' id dryRun
  reservations : ∀ id, Owned i id s → s'.reservationsOf id = s.reservationsOf id
  workflows : ∀ w ∈ s.workflows, ∃ w' ∈ s'.workflows, Moved w w'
  cancelAttempts : s.cancelAttempts ⊆ s'.cancelAttempts
  live : d.exclusive → ∀ id, Owned i id s → some id ≠ exempt → ∀ w', Live s' id w' →
    ∃ w, Live s id w ∧ w'.id = w.id

/-! ## The others do not disturb -/

variable {u : Db.Update} {updates : List Db.Update} {exempt : Option String} {r : RemediationAction}
  {status : Status} {id workflowID : String} {w : Workflow}

theorem Moved.trans {w' w'' : Workflow} (h : Moved w w') (h' : Moved w' w'') : Moved w w'' where
  id := h'.id.trans h.id
  remediationID := h'.remediationID.trans h.remediationID
  dryRun := h'.dryRun.trans h.dryRun
  reservation := h'.reservation.trans h.reservation
  state hended := by
    have hstate := h.state hended
    rw [h'.state (hstate ▸ hended), hstate]

section

variable {cfg : Config} {d : Discipline} {i j : ℕ} {l : Label} {o : Oracle} {s s' : Shared}

theorem Changes.workflow (h : Changes cfg d l s s') (hw : w ∈ s.workflows) :
    ∃ w' ∈ s'.workflows, Moved w w' := by
  induction h with
  | refl => exact ⟨w, hw, .refl w⟩
  | tail _ hstep ih =>
    obtain ⟨w₁, hw₁, hmoved₁⟩ := ih
    obtain ⟨w₂, hw₂, hmoved₂⟩ := hstep.workflow hw₁
    exact ⟨w₂, hw₂, hmoved₁.trans hmoved₂⟩

/-- The mode of a row changes only with its reservation. -/
theorem Change.mode (h : Change cfg d l s s') (hr : r ∈ s.db.remediations) :
    ∃ r' ∈ s'.db.remediations, r'.id = r.id ∧
      (r'.dryRun = r.dryRun ∨ s.reservationsOf r.id < s'.reservationsOf r.id) := by
  cases h with
  | reserve now pid id dryRun dispatches haffects _ =>
    obtain ⟨r', hr', ⟨rfl, -⟩ | ⟨rfl, hid, -⟩⟩ :=
      Remediation.exists_mem_updateWhere now id (.markQueued dryRun) hr
    · exact ⟨r', hr', rfl, .inl rfl⟩
    · refine ⟨_, hr', rfl, .inr (Nat.lt_of_lt_of_eq (Nat.lt_succ_self _) (Eq.symm ?_))⟩
      refine (reservationsOf_append s ⟨pid, id, dryRun⟩ _ rfl r.id).trans ?_
      rw [if_pos hid.symm]
  | write now id w hlicensed =>
    obtain ⟨r', hr', ⟨rfl, -⟩ | ⟨rfl, -, -⟩⟩ := Remediation.exists_mem_updateWhere now id w hr
    · exact ⟨r', hr', rfl, .inl rfl⟩
    · exact ⟨_, hr', (w.sameProposal_set now r).id, .inl (hlicensed.dryRun_set now r)⟩
  | settle now q aw w _ _ hsettles =>
    obtain ⟨r', hr', ⟨rfl, -⟩ | ⟨rfl, -, -⟩⟩ :=
      Remediation.exists_mem_updateWhere now q.remediationID w hr
    · exact ⟨r', hr', rfl, .inl rfl⟩
    · exact ⟨_, hr', (w.sameProposal_set now r).id, .inl (by cases hsettles <;> rfl)⟩
  | frame hrows _ => exact ⟨r, hrows ▸ hr, rfl, .inl rfl⟩
  | insert hins _ => exact ⟨r, by rw [hins.eq]; exact List.mem_append_left _ hr, rfl, .inl rfl⟩
  | _ => exact ⟨r, hr, rfl, .inl rfl⟩

theorem Change.reservationsOf_le (h : Change cfg d l s s') (id : String) :
    s.reservationsOf id ≤ s'.reservationsOf id := by
  rcases h.reservationsOf id with heq | ⟨heq, -⟩ <;> omega

theorem Changes.mode (h : Changes cfg d l s s') (hr : r ∈ s.db.remediations) :
    s.reservationsOf r.id ≤ s'.reservationsOf r.id ∧ ∃ r' ∈ s'.db.remediations, r'.id = r.id ∧
      (r'.dryRun = r.dryRun ∨ s.reservationsOf r.id < s'.reservationsOf r.id) := by
  induction h with
  | refl => exact ⟨le_refl _, r, hr, rfl, .inl rfl⟩
  | @tail s₁ s₂ _ hstep ih =>
    obtain ⟨hle, r₁, hr₁, hid₁, hmode₁⟩ := ih
    obtain ⟨r₂, hr₂, hid₂, hmode₂⟩ := hstep.mode hr₁
    have hle' := hstep.reservationsOf_le r.id
    rw [hid₁] at hid₂ hmode₂
    refine ⟨hle.trans hle', r₂, hr₂, hid₂, ?_⟩
    rcases hmode₁ with hmode₁ | hlt
    · rcases hmode₂ with hmode₂ | hlt
      · exact .inl (hmode₂.trans hmode₁)
      · exact .inr (lt_of_le_of_lt hle hlt)
    · exact .inr (lt_of_lt_of_le hlt hle')

/-- Only a reservation of an approved row that nobody holds counts as one. -/
theorem Step.reservationsOf (h : Step cfg d i l o s s') (id : String) :
    s'.reservationsOf id = s.reservationsOf id ∨
      id ∉ s.rowLocks ∧ ∃ r ∈ s.db.remediations, r.id = id ∧ r.status = .approved := by
  cases h with
  | quiet h _ =>
    left
    rw [Shared.reservationsOf, Shared.reservationsOf, h.reservations]
  | @reserve _ _ remediation dryRun actor dispatchID db h _ hfree _ =>
    rw [reservationsOf_append s ⟨i, remediation.id, dryRun⟩ _ rfl]
    by_cases hid : remediation.id = id
    · right
      obtain ⟨haffects, -⟩ := Db.reserve_eq_ok h
      obtain ⟨r, hr, hrid, hguard⟩ := Remediation.affects_iff.mp haffects
      exact ⟨hid ▸ hfree, r, hr, hrid.trans hid, by simpa [Write.guard] using hguard⟩
    · left
      rw [if_neg hid]
      rfl
  | _ => exact .inl rfl

/-- What a process owns is reserved once. -/
theorem Step.reservationsOf_owned (h : Step cfg d j l o s s') (hinv : Invariant cfg d s)
    (howned : Owned i id s) : s'.reservationsOf id = s.reservationsOf id := by
  rcases h.reservationsOf id with heq | ⟨hfree, r, hr, hid, happroved⟩
  · exact heq
  · rcases howned with hheld | ⟨-, hlocked⟩
    · exact absurd happroved (hinv.locks.not_approved hinv.ids hheld hr hid)
    · exact absurd hlocked hfree

/-- Two processes do not own the same remediation. -/
theorem owner_unique (hinv : Invariant cfg d s) (hd : d.exclusive) (hi : Owned i id s)
    (hj : Owned j id s) : i = j := by
  have hexclusive := hinv.exclusive hd
  rcases hi with hi | ⟨hi, hlocked⟩ <;> rcases hj with hj | ⟨hj, hlocked'⟩
  · exact hinv.locks.holder_unique hi hj
  · exact absurd hlocked' (hexclusive.held _ hi).2
  · exact absurd hlocked (hexclusive.held _ hj).2
  · exact Option.some.inj (hi.symm.trans hj)

theorem Step.undisturbed (h : Step cfg d j l o s s') (hinv : Invariant cfg d s) (hj : j ≠ i) :
    Undisturbed d i none s s' := by
  obtain ⟨l', hchanges⟩ := h.changes
  have hlocks (hreconciler : s.reconciler = some i) :
      s'.reconciler = some i ∧ s'.rowLocks = s.rowLocks := by
    cases h.lockStep with
    | same hsame heq => exact ⟨hsame.trans hreconciler, heq⟩
    | first hnone _ _ _ _ => simp [hreconciler] at hnone
    | more hsome _ _ _ _ _ _ =>
      exact absurd (Option.some.inj (hsome.symm.trans hreconciler)) hj
    | last hsome _ _ _ => exact absurd (Option.some.inj (hsome.symm.trans hreconciler)) hj
  refine
    { holders := fun id hid => ?_
      locks := hlocks
      rows := fun hreconciler r hr =>
        h.untouched hinv.locks hinv.ids hr ((hlocks hreconciler).2 ▸ hr)
      modes := fun id howned dryRun hmode => ?_
      reservations := fun id howned => h.reservationsOf_owned hinv howned
      workflows := fun w hw => hchanges.workflow hw
      cancelAttempts := h.cancelAttempts
      live := fun hd id howned _ w' hw' => ?_ }
  · cases h.holdStep with
    | same heq => exact heq ▸ hid
    | reserve heq _ _ _ =>
      rw [heq]
      exact List.mem_append_left _ hid
    | last heq =>
      rw [heq]
      exact List.mem_filter.mpr ⟨hid, by simpa using hj.symm⟩
  · obtain ⟨r, hr, rfl, rfl⟩ := hmode
    obtain ⟨-, r', hr', hid, hdry | hlt⟩ := hchanges.mode hr
    · exact ⟨r', hr', hid, hdry⟩
    · rw [h.reservationsOf_owned hinv howned] at hlt
      exact absurd hlt (lt_irrefl _)
  · rcases h.live hd hw' with ⟨w, hw, hwid, -⟩ | ⟨howned', -⟩
    · exact ⟨w, hw, hwid⟩
    · exact absurd (owner_unique hinv hd howned' howned) hj

theorem environment_undisturbed {e : Environment} (h : environment e s = some s') (i : ℕ) :
    Undisturbed d i none s s' := by
  have hsame (w : Workflow) (hw : w ∈ s.workflows) : ∃ w' ∈ s.workflows, Moved w w' :=
    ⟨w, hw, .refl w⟩
  cases e with
  | incident _ | heartbeat _ =>
    obtain rfl := Option.some.inj h
    exact ⟨fun _ h => h, fun h => ⟨h, rfl⟩, fun _ _ _ => Iff.rfl, fun _ _ _ h => h,
      fun _ _ => rfl, hsame, List.Subset.refl _,
      fun _ _ _ _ w hw => ⟨w, ⟨hw.mem, hw.remediationID, hw.active⟩, rfl⟩⟩
  | workflow id state =>
    obtain rfl := Option.some.inj h
    refine ⟨fun _ h => h, fun h => ⟨h, rfl⟩, fun _ _ _ => Iff.rfl, fun _ _ _ h => h,
      fun _ _ => rfl, (WorkflowsMove.move id state s.workflows).kept, List.Subset.refl _, ?_⟩
    intro _ id' _ _ w' hw'
    obtain ⟨w, hw, hid, -⟩ := live_of_move (s := s) rfl hw'
    exact ⟨w, hw, hid⟩
  | submission id state =>
    simp only [environment] at h
    split at h
    · cases h
    · obtain rfl := Option.some.inj h
      refine ⟨fun _ h => h, fun h => ⟨h, rfl⟩, fun _ _ _ => Iff.rfl, fun _ _ _ h => h,
        fun _ _ => rfl, fun w hw => ⟨w, List.mem_cons_of_mem _ hw, .refl w⟩,
        List.Subset.refl _, ?_⟩
      intro _ id' _ _ w' hw'
      refine ⟨w', ⟨(List.mem_cons.mp hw'.mem).resolve_left ?_, hw'.remediationID, hw'.active⟩, rfl⟩
      rintro rfl
      cases hw'.remediationID

theorem crash_undisturbed (s : Shared) (hj : j ≠ i) : Undisturbed d i none s (crash j s) := by
  have hdrop : Undisturbed d i none s ((s.endHold j).dropDispatches j) :=
    ⟨fun id hid => List.mem_filter.mpr ⟨hid, by simpa using hj.symm⟩, fun h => ⟨h, rfl⟩,
      fun _ _ _ => Iff.rfl, fun _ _ _ h => h, fun _ _ => rfl, fun w hw => ⟨w, hw, .refl w⟩,
      List.Subset.refl _, fun _ _ _ _ w hw => ⟨w, ⟨hw.mem, hw.remediationID, hw.active⟩, rfl⟩⟩
  unfold crash
  dsimp only
  split
  · rename_i hreconciler
    refine { hdrop with
      locks := fun h => absurd (Option.some.inj (hreconciler.symm.trans h)) hj
      live := fun _ _ _ _ w hw => ⟨w, ⟨hw.mem, hw.remediationID, hw.active⟩, rfl⟩ }
  · exact hdrop

theorem Moves.undisturbed (h : Moves cfg d i s s') (hinv : Invariant cfg d s) :
    Undisturbed d i none s s' := by
  cases h with
  | step hj h => exact h.undisturbed hinv hj
  | environment h => exact environment_undisturbed h i
  | crash hj => exact crash_undisturbed s hj

/-! ## Steps of its own -/

/-- A submission adds a workflow of one remediation. -/
theorem undisturbed_addWorkflow (d : Discipline) (i : ℕ) (s : Shared) (workflowID id : String)
    (dryRun : Bool) : Undisturbed d i (some id) s (s.addWorkflow workflowID id dryRun) := by
  refine ⟨fun _ h => h, fun h => ⟨h, rfl⟩, fun _ _ _ => Iff.rfl, fun _ _ _ h => h,
    fun _ _ => rfl, fun w hw => ⟨w, List.mem_cons_of_mem _ hw, .refl w⟩, List.Subset.refl _, ?_⟩
  intro _ id' _ hne w' hw'
  refine ⟨w', ⟨(List.mem_cons.mp hw'.mem).resolve_left ?_, hw'.remediationID, hw'.active⟩, rfl⟩
  rintro rfl
  exact hne hw'.remediationID.symm

/-- An attempt to cancel a workflow. -/
theorem undisturbed_cancelWorkflow (d : Discipline) (i : ℕ) (s : Shared) {workflows : List Workflow}
    (h : workflows = s.workflows ∨ workflows = Helios.move workflowID .cancelled s.workflows) :
    Undisturbed d i none s { s with
      workflows := workflows, cancelAttempts := s.cancelAttempts ++ [workflowID] } := by
  rcases h with rfl | rfl
  · exact ⟨fun _ h => h, fun h => ⟨h, rfl⟩, fun _ _ _ => Iff.rfl, fun _ _ _ h => h,
      fun _ _ => rfl, fun w hw => ⟨w, hw, .refl w⟩, List.subset_append_left _ _,
      fun _ _ _ _ w hw => ⟨w, ⟨hw.mem, hw.remediationID, hw.active⟩, rfl⟩⟩
  · refine ⟨fun _ h => h, fun h => ⟨h, rfl⟩, fun _ _ _ => Iff.rfl, fun _ _ _ h => h,
      fun _ _ => rfl, (WorkflowsMove.move workflowID .cancelled s.workflows).kept,
      List.subset_append_left _ _, ?_⟩
    intro _ id' _ _ w' hw'
    obtain ⟨w, hw, hid, -⟩ := live_of_move (s := s) rfl hw'
    exact ⟨w, hw, hid⟩

/-! ## What stays right -/

namespace Undisturbed

variable {exempt : Option String}

section

variable (h : Undisturbed d i exempt s s')

include h

theorem noLive (hd : d.exclusive) (howned : Owned i id s) (hne : some id ≠ exempt)
    (hno : NoLive s id) : NoLive s' id := by
  intro w' hw'
  obtain ⟨w, hw, -⟩ := h.live hd id howned hne w' hw'
  exact hno w hw

theorem onlyLive (hd : d.exclusive) (howned : Owned i id s) (hne : some id ≠ exempt)
    (honly : OnlyLive s id workflowID) : OnlyLive s' id workflowID := by
  intro w' hw'
  obtain ⟨w, hw, hid⟩ := h.live hd id howned hne w' hw'
  exact hid.trans (honly w hw)

theorem submitted (howned : Owned i id s) (hw : Submitted d s id w) :
    ∃ w', Moved w w' ∧ Submitted d s' id w' := by
  obtain ⟨w', hw', hmoved⟩ := h.workflows w hw.mem
  exact ⟨w', hmoved, hw.moved hw' hmoved (h.reservations id howned)⟩

theorem reports (howned : Owned i id s) {result : Result} (hreports : Reports d s id status result) :
    Reports d s' id status result := by
  intro workflowID name hresult
  obtain ⟨w, hid, hw, hstate⟩ := hreports workflowID name hresult
  obtain ⟨w', hmoved, hw'⟩ := h.submitted howned hw
  exact ⟨w', hmoved.id.trans hid, hw', finalState_of_moved hmoved hstate⟩

end

/-- A locked row keeps its status. -/
theorem statusOf (h : Undisturbed d i exempt s s') (hids' : s'.db.Distinct)
    (hreconciler : s.reconciler = some i) (hlocked : id ∈ s.rowLocks)
    (hstatus : s.db.statusOf id = some status) : s'.db.statusOf id = some status := by
  obtain ⟨r, hr, rfl, rfl⟩ := Db.exists_of_statusOf hstatus
  exact Db.statusOf_of_mem hids' ((h.rows hreconciler r hlocked).mpr hr)

end Undisturbed

/-- What Helios told about a remediation that the process owns. -/
theorem HeliosUpdate.undisturbed (h : Undisturbed d i exempt s s') (htold : HeliosUpdate d s u)
    (howned : Owned i u.id s) (hne : some u.id ≠ exempt) : HeliosUpdate d s' u := by
  cases htold with
  | running hreports honly =>
    exact .running (h.reports howned hreports) fun hd => h.onlyLive hd howned hne (honly hd)
  | succeeded hreports hno =>
    exact .succeeded (h.reports howned hreports) fun hd => h.noLive hd howned hne (hno hd)
  | ended hstatus hreports hno =>
    exact .ended hstatus (h.reports howned hreports) fun hd => h.noLive hd howned hne (hno hd)
  | overdue hreports honly =>
    exact .overdue (h.reports howned hreports) fun hd =>
      ⟨h.onlyLive hd howned hne (honly hd).1, h.cancelAttempts (honly hd).2⟩
  | abandoned hno => exact .abandoned fun hd => h.noLive hd howned hne (hno hd)

theorem Consistent.statusOf_isSome {statuses : String → Option Status}
    (h : Consistent statuses updates) (hu : u ∈ updates) :
    ∃ status, statuses u.id = some status := by
  induction updates generalizing statuses with
  | nil => cases hu
  | cons v updates ih =>
    obtain ⟨-, hsource, hrest⟩ := h
    by_cases hid : u.id = v.id
    · exact ⟨v.source, hid ▸ hsource⟩
    · rcases List.mem_cons.mp hu with rfl | hu
      · exact absurd rfl hid
      · obtain ⟨status, hstatus⟩ := ih hrest hu
        exact ⟨status, by rwa [Function.update_of_ne hid] at hstatus⟩

/-- A plan stays right as long as the rows are locked. -/
theorem Planned.undisturbed (h : Undisturbed d i exempt s s') (hids' : s'.db.Distinct)
    (hplanned : Planned d i updates s) (hne : ∀ u ∈ updates, some u.id ≠ exempt) :
    Planned d i updates s' := by
  obtain ⟨hreconciler', hlocks⟩ := h.locks hplanned.reconciler
  refine ⟨hreconciler', hplanned.consistent.congr fun u hu => ?_, fun u hu => ?_, fun u hu => ?_⟩
  · obtain ⟨status, hstatus⟩ := hplanned.consistent.statusOf_isSome hu
    rw [hstatus]
    exact h.statusOf hids' hplanned.reconciler (hplanned.locked u hu) hstatus
  · exact hlocks ▸ hplanned.locked u hu
  · exact (hplanned.told u hu).undisturbed h
      (.inr ⟨hplanned.reconciler, hplanned.locked u hu⟩) (hne u hu)

end

end Argus.System

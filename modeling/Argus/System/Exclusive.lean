import Argus.System.Tables

/-!
# Workflows that nobody interferes with

The invariant of Helios under the assumption that nobody interferes with a reservation it works on: a
remediation has at most one workflow that has not ended, its newest one, and the remediation is queued, or
running and follows it, or timed out after an attempt to cancel it.
-/

namespace Argus.System

open Remediation (Time RemediationAction Result Status Write)
open Helios (Workflow WorkflowState)

/-- Where a workflow that has not ended leaves its remediation. -/
inductive Follows (s : Shared) (w : Workflow) (r : RemediationAction) : Prop
  | queued (h : r.status = .queued)
  | running {name : String} (h : r.status = .running) (hresult : r.result = .helios w.id name)
  | timedOut (h : r.status = .timedOut) (hattempt : w.id ∈ s.cancelAttempts)

/-- The most recent workflow of a remediation. -/
def newest (workflows : List Workflow) (id : String) : Option Workflow :=
  workflows.find? fun w => w.remediationID == some id

/-- The invariant. -/
structure Exclusive (s : Shared) : Prop where
  newest : ∀ id w, Live s id w → newest s.workflows id = some w
  follows : ∀ id w, Live s id w → ∀ r ∈ s.db.remediations, r.id = id → Follows s w r
  held : ∀ x ∈ s.holders, s.db.statusOf x.2 = some .queued ∧ x.2 ∉ s.rowLocks

/-! ## Workflows that move -/

theorem newest_move (id : String) (workflowID : String) (state : WorkflowState)
    (workflows : List Workflow) :
    newest (Helios.move workflowID state workflows) id =
      (newest workflows id).map fun w =>
        if w.id = workflowID ∧ w.state.isActive = true then { w with state := state } else w := by
  rw [newest, Helios.move, List.find?_map, newest]
  refine congrArg _ (congrFun (congrArg _ (funext fun w => ?_)) workflows)
  dsimp only [Function.comp_apply]
  split <;> rfl

section

variable {cfg : Config} {d : Discipline} {i : ℕ} {l : Label} {o : Oracle} {s s' : Shared}

variable {id : String} {w' : Workflow}

/-- What is live after a move was live before. -/
theorem live_of_move {workflowID : String} {state : WorkflowState}
    (h : s'.workflows = Helios.move workflowID state s.workflows) (hw' : Live s' id w') :
    ∃ w, Live s id w ∧ w'.id = w.id ∧
      (newest s.workflows id = some w → newest s'.workflows id = some w') := by
  have hmem := hw'.mem
  rw [h] at hmem
  obtain ⟨w, hw, rfl⟩ := List.mem_map.mp hmem
  have hid := hw'.remediationID
  have hactive := hw'.active
  refine ⟨w, ?_, by split <;> rfl, fun hnewest => by rw [h, newest_move, hnewest]; rfl⟩
  split at hid
  · rename_i hmatch
    exact ⟨hw, hid, hmatch.2⟩
  · rename_i hno
    rw [if_neg hno] at hactive
    exact ⟨hw, hid, hactive⟩

/-- How a step changes workflows. -/
inductive WorkflowStep (d : Discipline) (i : ℕ) (s s' : Shared) : Prop
  | same (h : s'.workflows = s.workflows)
  | submit {id : String} {w : Workflow} (h : s'.workflows = w :: s.workflows)
      (hid : w.remediationID = some id) (hreservation : w.reservation = s.reservationsOf id)
      (howned : Owned i id s) (hdb : s'.db = s.db)
      (hlive : d.exclusive → NoLive s id ∧ s.db.statusOf id = some .queued)
  | cancel {workflowID : String}
      (h : s'.workflows = Helios.move workflowID .cancelled s.workflows)

theorem Step.workflowStep (h : Step cfg d i l o s s') : WorkflowStep d i s s' := by
  cases h with
  | quiet h _ => exact .same h.workflows
  | submit _ _ howned hlive => exact .submit rfl rfl rfl howned rfl hlive
  | cancelWorkflow h =>
    rcases h with rfl | rfl
    · exact .same rfl
    · exact .cancel rfl
  | _ => exact .same rfl

theorem Step.cancelAttempts (h : Step cfg d i l o s s') :
    s.cancelAttempts ⊆ s'.cancelAttempts := by
  cases h with
  | quiet h _ => rw [h.cancelAttempts]; exact List.Subset.refl _
  | cancelWorkflow => exact List.subset_append_left _ _
  | _ => exact List.Subset.refl _

/-- A workflow that is live after a step was live before, or was submitted by the step. -/
theorem Step.live (h : Step cfg d i l o s s') (hd : d.exclusive) (hw' : Live s' id w') :
    (∃ w, Live s id w ∧ w'.id = w.id ∧
      (System.newest s.workflows id = some w → System.newest s'.workflows id = some w')) ∨
      Owned i id s ∧ s'.db = s.db ∧ System.newest s'.workflows id = some w' ∧
        s.db.statusOf id = some .queued := by
  cases h.workflowStep with
  | same heq => exact .inl ⟨w', ⟨heq ▸ hw'.mem, hw'.remediationID, hw'.active⟩, rfl, fun h => heq ▸ h⟩
  | @submit id₀ w heq hid _ howned hdb hlive =>
    have hmem := hw'.mem
    rw [heq, List.mem_cons] at hmem
    rcases hmem with rfl | hmem
    · obtain rfl := Option.some.inj (hw'.remediationID.symm.trans hid)
      refine .inr ⟨howned, hdb, ?_, (hlive hd).2⟩
      rw [heq, System.newest, List.find?_cons_of_pos (by simp [hid])]
    · by_cases hsame : id = id₀
      · subst hsame
        exact absurd ⟨hmem, hw'.remediationID, hw'.active⟩ ((hlive hd).1 w')
      · refine .inl ⟨w', ⟨hmem, hw'.remediationID, hw'.active⟩, rfl, fun hnewest => ?_⟩
        rw [heq, System.newest, List.find?_cons_of_neg (by simp [hid, Ne.symm hsame])]
        exact hnewest
  | cancel heq => exact .inl (live_of_move heq hw')

/-! ## Rows under a live workflow -/

variable {w : Workflow}

theorem Follows.mono {r : RemediationAction} (h : Follows s w r) (hid : w'.id = w.id)
    (hattempts : s.cancelAttempts ⊆ s'.cancelAttempts) : Follows s' w' r := by
  cases h with
  | queued h => exact .queued h
  | running h hresult => exact .running h (hid ▸ hresult)
  | timedOut h hattempt => exact .timedOut h (hid ▸ hattempts hattempt)

/-- The statuses under a live workflow. -/
theorem Follows.status {r : RemediationAction} (h : Follows s w r) :
    r.status = .queued ∨ r.status = .running ∨ r.status = .timedOut := by
  cases h with
  | queued h => exact .inl h
  | running h _ => exact .inr (.inl h)
  | timedOut h _ => exact .inr (.inr h)

variable {db : Db}

/-- What a write does to the rows under a live workflow, if it keeps them following where it applies. -/
theorem follows_write (now : Time) {id₀ : String} {wr : Write}
    (hrows : ∀ r ∈ db.remediations, r.id = id → Follows s w r)
    (hwrite : ∀ r, r.id = id → id = id₀ → Follows s w r → wr.guard r.status = true → Follows s w
      (wr.set now r)) : ∀ r ∈ (db.write now id₀ wr).remediations, r.id = id → Follows s w r := by
  intro r' hr' hid
  obtain ⟨r, hr, rfl | ⟨rfl, hid₀, hguard⟩⟩ := Remediation.mem_updateWhere hr'
  · exact hrows r' hr hid
  · have hrid : r.id = id := (wr.sameProposal_set now r).id.symm.trans hid
    exact hwrite r hrid (hrid.symm.trans hid₀) (hrows r hr hrid) hguard

variable {db' : Db} {now : Time}

/-- What Helios told keeps rows following. -/
theorem follows_applyOne (hd : d.exclusive) {u : Db.Update} (htold : HeliosUpdate d s u)
    (h : db.applyOne now u = .ok db') (hlive : Live s id w)
    (hrows : ∀ r ∈ db.remediations, r.id = id → Follows s w r) :
    ∀ r ∈ db'.remediations, r.id = id → Follows s w r := by
  obtain rfl := Db.applyOne_eq h
  by_cases hid : id = u.id
  · subst hid
    cases htold with
    | @running _ _ _ _ workflowID name _ honly =>
      have hresult : Result.helios workflowID name = .helios w.id name := by
        rw [honly hd w hlive]
      exact follows_write now hrows fun r _ _ _ _ => .running rfl hresult
    | overdue _ honly =>
      refine follows_write now hrows fun r _ _ _ _ => .timedOut rfl ?_
      rw [(honly hd).1 w hlive]
      exact (honly hd).2
    | succeeded _ hno | ended _ _ hno | abandoned hno => exact absurd hlive (hno hd w)
  · intro r hr hrid
    exact hrows r ((Db.mem_writeAll_of_ne (hrid ▸ hid) now u.writes).mp hr) hrid

theorem follows_applyAll (hd : d.exclusive) {updates : List Db.Update}
    (htold : ∀ u ∈ updates, HeliosUpdate d s u) (h : db.applyAll now updates = .ok db')
    (hlive : Live s id w) (hrows : ∀ r ∈ db.remediations, r.id = id → Follows s w r) :
    ∀ r ∈ db'.remediations, r.id = id → Follows s w r := by
  let R (a b : Db) : Prop := (∀ r ∈ a.remediations, r.id = id → Follows s w r) →
    ∀ r ∈ b.remediations, r.id = id → Follows s w r
  refine rel_of_foldlM (R := R) (fun _ h => h) (fun h h' hs => h' (h hs)) ?_ h hrows
  intro db u hu db' hone
  exact follows_applyOne hd (htold u hu) hone hlive

/-- Every step leaves the remediation of a live workflow following it. -/
theorem Step.follows (hstep : Step cfg d i l o s s') (hd : d.exclusive) (hlive : Live s id w)
    (hknown : ∃ r ∈ s.db.remediations, r.id = id)
    (hrows : ∀ r ∈ s.db.remediations, r.id = id → Follows s w r) :
    ∀ r ∈ s'.db.remediations, r.id = id → Follows s w r := by
  cases hstep with
  | quiet h _ => rwa [h.remediations]
  | insert h _ =>
    obtain ⟨rows, hins, rfl⟩ := Db.insertRemediation_eq_ok h
    intro r hr hid
    have hmem : r ∈ rows := hr
    rw [hins.eq, List.mem_append, List.mem_singleton] at hmem
    rcases hmem with hmem | rfl
    · exact hrows r hmem hid
    · obtain ⟨r₀, hr₀, hid₀⟩ := hknown
      exact absurd (hid₀.trans hid.symm) (hins.id r₀ hr₀)
  | settle h =>
    obtain ⟨now, q, aw, wr, -, -, hsettles, -⟩ := h
    refine follows_write now hrows fun r _ _ hfollows hguard => ?_
    have hawaiting := (hsettles.guard_iff _).mp hguard
    rcases hfollows.status with h | h | h <;> simp [hawaiting] at h
  | @cancel _ _ id₀ actor expected _ hcan _ _ hclear =>
    refine follows_write o.now hrows fun r _ hid hfollows hguard => ?_
    obtain rfl : r.status = expected := by simpa [Write.guard] using hguard
    rcases hfollows.status with h | h | h
    · exact absurd (hid ▸ hlive) ((hclear hd h).1 w)
    · simp [h, Status.canTransition, Status.allowed] at hcan
    · simp [h, Status.canTransition, Status.allowed] at hcan
  | reserve h _ _ _ =>
    obtain ⟨-, dispatches, -, rfl⟩ := Db.reserve_eq_ok h
    refine follows_write o.now hrows fun r _ _ hfollows hguard => ?_
    have happroved : r.status = .approved := by simpa [Write.guard] using hguard
    rcases hfollows.status with h | h | h <;> simp [happroved] at h
  | replay h =>
    obtain ⟨_, -, -, -, -, -, rfl⟩ := Db.redispatch_eq_ok h
    exact hrows
  | release _ _ _ hno =>
    exact follows_write o.now hrows fun r _ hid _ _ => absurd (hid ▸ hlive) (hno hd w)
  | outcome _ _ _ htold h => exact follows_applyOne hd htold h hlive hrows
  | commit _ hplanned h => exact follows_applyAll hd hplanned.told h hlive hrows
  | reconcile hshared _ | claim hshared _ | finish hshared _ _ _ _ => exact absurd hd hshared
  | _ => exact hrows

/-! ## Reservations that are held -/

theorem statusOf_applyAll_of_not_mem {updates : List Db.Update}
    (h : db.applyAll now updates = .ok db') (hid : ∀ u ∈ updates, u.id ≠ id) :
    db'.statusOf id = db.statusOf id := by
  let R (a b : Db) : Prop := b.statusOf id = a.statusOf id
  refine rel_of_foldlM (R := R) (fun _ => rfl) (fun h h' => h'.trans h) ?_ h
  intro db u hu db' hone
  obtain rfl := Db.applyOne_eq hone
  exact Db.statusOf_writeAll_ne (hid u hu).symm db now u.writes

/-- The reservation that somebody still holds after a step is queued, as it was. -/
theorem Step.queued_of_held (hstep : Step cfg d i l o s s') (hd : d.exclusive) (hlocks : Locks s)
    {x : ℕ × String} (hx : x ∈ s.holders) (hx' : x ∈ s'.holders)
    (hqueued : s.db.statusOf x.2 = some .queued) (hfree : x.2 ∉ s.rowLocks) :
    s'.db.statusOf x.2 = some .queued := by
  -- a write that applies to no queued row, or to another one
  have hwrite (now : Time) {id : String} {wr : Write}
      (hno : x.2 = id → wr.guard .queued = false) :
      (s.db.write now id wr).statusOf x.2 = some .queued := by
    obtain ⟨status', h', rfl | ⟨hid, hguard, -⟩⟩ := Db.exists_statusOf_write hqueued now id wr
    · exact h'
    · rw [hno hid] at hguard
      cases hguard
  -- whoever ends a hold held another reservation
  have hother {id : String} (hheld : (i, id) ∈ s.holders)
      (hends : x.1 ≠ i) : x.2 ≠ id := by
    intro hid
    have heq : x = (i, id) := Table.eq_of_key_eq hlocks.holders hx hheld hid
    exact hends (congrArg Prod.fst heq)
  cases hstep with
  | quiet h _ => exact (Db.statusOf_congr h.remediations x.2).trans hqueued
  | insert h _ =>
    obtain ⟨rows, hins, rfl⟩ := Db.insertRemediation_eq_ok h
    exact Db.statusOf_inserted hins rfl hqueued
  | settle h =>
    obtain ⟨now, q, aw, wr, -, -, hsettles, -⟩ := h
    refine hwrite now fun _ => ?_
    cases hsettles <;> rfl
  | @cancel _ _ id₀ actor expected _ _ _ _ hclear =>
    refine hwrite o.now fun hid => ?_
    by_contra hguard
    have hexpected : Status.queued = expected := by simpa [Write.guard] using hguard
    exact (hclear hd hexpected.symm).2 x.1 (hid ▸ hx)
  | reserve h _ _ _ =>
    obtain ⟨-, dispatches, -, rfl⟩ := Db.reserve_eq_ok h
    exact hwrite o.now fun _ => rfl
  | replay h =>
    obtain ⟨_, -, -, -, -, -, rfl⟩ := Db.redispatch_eq_ok h
    exact hqueued
  | release _ hheld _ _ =>
    have hends : x.1 ≠ i := by simpa using (List.mem_filter.mp hx').2
    exact hwrite o.now fun hid => absurd hid (hother hheld hends)
  | @outcome _ _ id actor outcome db _ hheld _ _ h =>
    have hends : x.1 ≠ i := by simpa using (List.mem_filter.mp hx').2
    obtain rfl := Db.applyOne_eq h
    have hid : (outcome.update id actor).id = id := by cases outcome <;> rfl
    refine (Db.statusOf_writeAll_ne (fun heq => ?_) s.db o.now _).trans hqueued
    exact hother hheld hends (heq.trans hid)
  | commit _ hplanned h =>
    refine (statusOf_applyAll_of_not_mem h fun u hu heq => ?_).trans hqueued
    exact hfree (heq ▸ hplanned.locked u hu)
  | reconcile hshared _ | claim hshared _ | finish hshared _ _ _ _ => exact absurd hd hshared
  | _ => exact hqueued

namespace Exclusive

private theorem held' (h : Exclusive s) (hd : d.exclusive) (hlocks : Locks s)
    (hids' : s'.db.Distinct) (hstep : Step cfg d i l o s s') :
    ∀ x ∈ s'.holders, s'.db.statusOf x.2 = some .queued ∧ x.2 ∉ s'.rowLocks := by
  have hold {x : ℕ × String} (hx : x ∈ s.holders) (hx' : x ∈ s'.holders) :
      s'.db.statusOf x.2 = some .queued ∧ x.2 ∉ s'.rowLocks := by
    obtain ⟨hqueued, hfree⟩ := h.held x hx
    refine ⟨hstep.queued_of_held hd hlocks hx hx' hqueued hfree, ?_⟩
    cases hstep.lockStep with
    | same _ heq => exact heq ▸ hfree
    | first _ _ hids _ _ =>
      intro hmem
      rw [hids x.2 hmem] at hqueued
      cases hqueued
    | more _ _ heq _ _ _ hunheld =>
      rw [heq, List.mem_append, not_or]
      exact ⟨hfree, fun hmem => hunheld hd x.2 hmem x.1 hx⟩
    | last _ _ heq _ =>
      rw [heq]
      exact List.not_mem_nil
  intro x hx'
  have hmem := hx'
  cases hstep.holdStep with
  | same heq => exact hold (heq ▸ hmem) hx'
  | reserve heq _ hqueued hfree =>
    rw [heq, List.mem_append, List.mem_singleton] at hmem
    rcases hmem with hmem | rfl
    · exact hold hmem hx'
    · obtain ⟨r, hr, rfl, hstatus⟩ := hqueued
      exact ⟨hstatus ▸ Db.statusOf_of_mem hids' hr, hfree⟩
  | last heq =>
    rw [heq, List.mem_filter] at hmem
    exact hold hmem.1 hx'

/-- Every step keeps the invariant. -/
theorem step (h : Exclusive s) (hd : d.exclusive) (hfollowing : Following d s) (hlocks : Locks s)
    (hids' : s'.db.Distinct) (hstep : Step cfg d i l o s s') :
    Exclusive s' where
  newest id w' hw' := by
    rcases hstep.live hd hw' with ⟨w, hw, -, hnewest⟩ | ⟨-, -, hnewest, -⟩
    · exact hnewest (h.newest id w hw)
    · exact hnewest
  follows id w' hw' r hr hid := by
    rcases hstep.live hd hw' with ⟨w, hw, hwid, -⟩ | ⟨-, hdb, -, hqueued⟩
    · have hrows := hstep.follows hd hw (hfollowing.rows w hw.mem id hw.remediationID)
        (h.follows id w hw)
      exact (hrows r hr hid).mono hwid hstep.cancelAttempts
    · have hstatus := Db.statusOf_of_mem hids' hr
      rw [hid, hdb, hqueued] at hstatus
      exact .queued (Option.some.inj hstatus).symm
  held := h.held' hd hlocks hids' hstep

/-- The death of a call ends what it held. -/
theorem crash (h : Exclusive s) (i : ℕ) : Exclusive (crash i s) := by
  have hdrop : Exclusive ((s.endHold i).dropDispatches i) :=
    ⟨fun id w hw => h.newest id w ⟨hw.mem, hw.remediationID, hw.active⟩,
      fun id w hw r hr hid =>
        (h.follows id w ⟨hw.mem, hw.remediationID, hw.active⟩ r hr hid).mono rfl
          (List.Subset.refl _),
      fun x hx => h.held x (List.mem_filter.mp hx).1⟩
  unfold System.crash
  dsimp only
  split
  · exact ⟨fun id w hw => hdrop.newest id w ⟨hw.mem, hw.remediationID, hw.active⟩,
      fun id w hw r hr hid =>
        (hdrop.follows id w ⟨hw.mem, hw.remediationID, hw.active⟩ r hr hid).mono rfl
          (List.Subset.refl _),
      fun x hx => ⟨(hdrop.held x hx).1, List.not_mem_nil⟩⟩
  · exact hdrop

end Exclusive

end

end Argus.System

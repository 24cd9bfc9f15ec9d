import Argus.System.Runs

/-!
# Workflows and reservations

An `Execute` call that submitted a workflow and then lost touch with Helios releases its reservation while
the workflow goes on. Two things follow: the remediation can be executed again behind a workflow that is
still running, and a later recovery can take the old workflow for one of the new reservation. Neither
happens where reservations are only released, cancelled and recovered once Helios is done with them.
-/

namespace Argus.System

open Remediation (Time RemediationAction Status Write)
open Helios (Workflow)

variable {cfg : Config} {d : Discipline} {i : ℕ} {l : Label} {o : Oracle} {s s' : Shared}
  {w w' : World}

/-! ## Outcomes belong to reservations -/

/-- A reservation is released only if Helios holds no workflow of the remediation. -/
def ReleasesUnsubmitted (w : World) (e : Event) : Prop :=
  ∀ i o id, e = .act i o → w.waiting i = some (.release id) →
    ∀ x ∈ w.shared.workflows, x.remediationID ≠ some id

/-- Every workflow was submitted for the current reservation of its remediation, which was not released. -/
def Current (s : Shared) : Prop :=
  ∀ x ∈ s.workflows, ∀ id, x.remediationID = some id →
    x.reservation = s.reservationsOf id ∧
      ∃ status, s.db.statusOf id = some status ∧ isReserved status = true

variable {u : Db.Update} {r' : RemediationAction} {status : Status} {id : String} {now : Time}

/-- A remediation that is reserved is not reserved again. -/
theorem Step.reservationsOf_reserved (h : Step cfg d i l o s s') (hinv : Invariant cfg d s)
    (hstatus : s.db.statusOf id = some status) (hreserved : isReserved status = true) :
    s'.reservationsOf id = s.reservationsOf id := by
  rcases h.reservationsOf id with heq | ⟨-, r, hr, rfl, happroved⟩
  · exact heq
  · obtain rfl := Option.some.inj (hstatus.symm.trans (Db.statusOf_of_mem hinv.ids hr))
    rw [happroved] at hreserved
    cases hreserved

/-- A reserved remediation stays reserved unless it is released. -/
theorem Transition.isReserved {source target : Status}
    (h : Transition cfg d i l s s' id source target) (hsource : isReserved source = true) :
    System.isReserved target = true ∨ l = .release id := by
  cases h with
  | advance h => exact .inl (h.isReserved hsource)
  | settle hawaiting _ =>
    rw [hawaiting] at hsource
    cases hsource
  | cancel _ _ | reserve _ _ => exact .inl rfl
  | release _ _ hl _ _ => exact .inr hl

/-- Whoever submits a workflow holds a reservation. -/
theorem Owned.isReserved (h : Owned i id s) (hlocks : Locks s) :
    ∃ status, s.db.statusOf id = some status ∧ System.isReserved status = true := by
  rcases h with hheld | ⟨-, hlocked⟩
  · exact hlocks.held (i, id) hheld
  · obtain ⟨status, hstatus, hdispatchable⟩ := hlocks.locked id hlocked
    exact ⟨status, hstatus, by cases status <;> simp_all [Status.isDispatchable, System.isReserved]⟩

theorem Current.step (h : Current s) (hinv : Invariant cfg d s) (hstep : Step cfg d i l o s s')
    (hrelease : ∀ id, l = .release id → ∀ x ∈ s.workflows, x.remediationID ≠ some id) :
    Current s' := by
  -- a workflow that was there before
  have hold {x x' : Workflow} (hx : x ∈ s.workflows) (hid : x'.remediationID = x.remediationID)
      (hreservation : x'.reservation = x.reservation) {id : String}
      (hx' : x'.remediationID = some id) : x'.reservation = s'.reservationsOf id ∧
        ∃ status, s'.db.statusOf id = some status ∧ isReserved status = true := by
    have hxid := hid.symm.trans hx'
    obtain ⟨hcurrent, status, hstatus, hreserved⟩ := h x hx id hxid
    obtain ⟨status', hstatus', htransition⟩ := hstep.transition hstatus
    refine ⟨?_, status', hstatus', ?_⟩
    · rw [hreservation, hcurrent, hstep.reservationsOf_reserved hinv hstatus hreserved]
    · rcases htransition.isReserved hreserved with hreserved' | hl
      · exact hreserved'
      · exact absurd hxid (hrelease id hl x hx)
  intro x' hx' id hid
  cases hstep.workflowStep with
  | same heq => exact hold (heq ▸ hx') rfl rfl hid
  | @submit id₀ x heq hid₀ hreservation howned hdb _ =>
    rw [heq, List.mem_cons] at hx'
    rcases hx' with rfl | hx'
    · obtain rfl := Option.some.inj (hid.symm.trans hid₀)
      obtain ⟨status, hstatus, hreserved⟩ := howned.isReserved hinv.locks
      refine ⟨?_, status, hdb ▸ hstatus, hreserved⟩
      rw [hreservation, hstep.reservationsOf_owned hinv howned]
    · exact hold hx' rfl rfl hid
  | cancel heq =>
    rw [heq, Helios.move] at hx'
    obtain ⟨x, hx, rfl⟩ := List.mem_map.mp hx'
    refine hold hx ?_ ?_ hid <;> split <;> rfl

theorem Current.frame (h : Current s) (hrows : s'.db.remediations = s.db.remediations)
    (hrest : SameRest s s') : Current s' := by
  intro x' hx' id hid
  rcases hrest.workflows.known x' hx' with hnone | ⟨x, hx, hmoved⟩
  · rw [hnone] at hid
    cases hid
  · obtain ⟨hcurrent, status, hstatus, hreserved⟩ :=
      h x hx id (hmoved.remediationID.symm.trans hid)
    refine ⟨?_, status, (Db.statusOf_congr hrows id).trans hstatus, hreserved⟩
    rw [hmoved.reservation, hcurrent, Shared.reservationsOf, Shared.reservationsOf,
      hrest.reservations]

/-- Only adoptions are assumed to be of the current reservation. -/
def adopting : Discipline := ⟨False, False, True, False⟩

theorem Current.disciplined (h : Current w.shared) (e : Event) : Disciplined cfg adopting w e where
  permitted i o l _ _ := by
    refine ⟨fun hd => hd.elim, fun _ id _ x hfind => ?_, fun hd => hd.elim⟩
    have hx : x ∈ w.shared.workflows := List.mem_of_mem_take (List.mem_of_find?_eq_some hfind)
    exact (h x hx id (by simpa using List.find?_some hfind)).1
  proposals hd := hd.elim
  incidents hd := hd.elim

/-- Where no submitted reservation is released, what recovery adopts is of the current one. -/
theorem reach_adopting (h : (argus cfg).Reach ReleasesUnsubmitted World.initial w) :
    (argus cfg).Reach (Disciplined cfg adopting) World.initial w ∧ Current w.shared := by
  induction h with
  | refl => exact ⟨.refl, by intro x hx; cases hx⟩
  | @tail w w' e _ hok hstep ih =>
    obtain ⟨hreach, hcurrent⟩ := ih
    have hdisciplined : Disciplined cfg adopting w e := hcurrent.disciplined e
    have hsound := sound_of_reach hreach
    refine ⟨hreach.tail hdisciplined hstep, ?_⟩
    cases happens hsound hdisciplined hstep with
    | nothing heq => exact heq ▸ hcurrent
    | crash heq => exact heq ▸ hcurrent.frame (crash_frame _ _).1 (crash_frame _ _).2
    | environment henv => exact hcurrent.frame (environment_frame henv).1 (environment_frame henv).2
    | @step i o l hwaiting _ hact =>
      refine hcurrent.step hsound.inv hact fun id hl => ?_
      exact hok i o id rfl (hl ▸ hwaiting)

/-! ### What a recorded outcome says -/

/-- A row that says it succeeded or failed names a workflow. -/
def Reported (r : RemediationAction) : Prop :=
  r.status = .succeeded ∨ r.status = .failed → ∃ workflowID name, r.result = .helios workflowID name

theorem Reported.of_status {r : RemediationAction} (h : r.status = status)
    (hsucceeded : status ≠ .succeeded) (hfailed : status ≠ .failed) : Reported r := by
  rintro (h' | h')
  · exact absurd (h.symm.trans h') hsucceeded
  · exact absurd (h.symm.trans h') hfailed

theorem HeliosUpdate.reported (h : HeliosUpdate d s u) {wr : Write} (hwr : wr ∈ u.writes)
    (now : Time) (r : RemediationAction) : Reported (wr.set now r) := by
  cases h with
  | running =>
    obtain rfl := List.mem_singleton.mp hwr
    exact .of_status rfl (by simp [Write.status]) (by simp [Write.status])
  | succeeded =>
    rcases List.mem_cons.mp hwr with rfl | hwr
    · exact .of_status rfl (by simp [Write.status]) (by simp [Write.status])
    · obtain rfl := List.mem_singleton.mp hwr
      exact fun _ => ⟨_, _, rfl⟩
  | ended | overdue =>
    obtain rfl := List.mem_singleton.mp hwr
    exact fun _ => ⟨_, _, rfl⟩
  | abandoned =>
    obtain rfl := List.mem_singleton.mp hwr
    exact .of_status rfl (by simp [Write.status]) (by simp [Write.status])

theorem Db.reported_writeAll {db : Db} {writes : List Write}
    (h : ∀ wr ∈ writes, ∀ r, Reported (wr.set now r))
    (hr' : r' ∈ (db.writeAll now id writes).remediations) : r' ∈ db.remediations ∨ Reported r' := by
  induction writes generalizing db with
  | nil => exact .inl hr'
  | cons wr writes ih =>
    rw [Db.writeAll_cons] at hr'
    rcases ih (fun v hv => h v (List.mem_cons_of_mem _ hv)) hr' with hmem | hreported
    · obtain ⟨r, hr, rfl | ⟨rfl, -⟩⟩ := Remediation.mem_updateWhere hmem
      · exact .inl hr
      · exact .inr (h wr List.mem_cons_self r)
    · exact .inr hreported

theorem Db.reported_applyOne {db db' : Db} (h : db.applyOne now u = .ok db')
    (hu : HeliosUpdate d s u) (hr' : r' ∈ db'.remediations) :
    r' ∈ db.remediations ∨ Reported r' := by
  obtain rfl := Db.applyOne_eq h
  exact Db.reported_writeAll (fun wr hwr => hu.reported hwr now) hr'

/-- The steps that record what Helios answered. -/
def recordsOutcome : Label → Bool
  | .outcome _ | .commitHelios => true
  | _ => false

/-- What they record names a workflow. -/
theorem Step.reported (h : Step cfg d i l o s s') (hl : recordsOutcome l = true)
    (hr' : r' ∈ s'.db.remediations) : r' ∈ s.db.remediations ∨ Reported r' := by
  cases h with
  | quiet h _ => exact .inl (h.remediations ▸ hr')
  | settle h =>
    obtain ⟨now, q, aw, wr, -, -, hsettles, -⟩ := h
    obtain ⟨r, hr, rfl | ⟨rfl, -⟩⟩ := Remediation.mem_updateWhere hr'
    · exact .inl hr
    · right
      cases hsettles <;> exact .of_status rfl (by simp [Write.status]) (by simp [Write.status])
  | replay h =>
    obtain ⟨_, -, -, -, -, -, rfl⟩ := Db.redispatch_eq_ok h
    exact .inl hr'
  | outcome _ _ _ htold h => exact Db.reported_applyOne h htold hr'
  | commit _ hplanned h =>
    let R (a b : Db) : Prop := ∀ r' ∈ b.remediations, r' ∈ a.remediations ∨ Reported r'
    refine rel_of_foldlM (R := R) (fun _ _ h => .inl h) ?_ ?_ h r' hr'
    · intro a b c hab hbc r hr
      rcases hbc r hr with hmem | hreported
      · exact hab r hmem
      · exact .inr hreported
    · intro db u hu db' hone r hr
      exact Db.reported_applyOne hone (hplanned.told u hu) hr
  | insert | cancel | reserve | reconcile | release | claim | finish | submit => cases hl
  | _ => exact .inl hr'

/-- The check of `ReleasesUnsubmitted`. -/
def releasesUnsubmitted (w : World) : Event → Bool
  | .act i _ =>
    match w.waiting i with
    | some (.release id) => w.shared.workflows.all fun x => x.remediationID != some id
    | _ => true
  | _ => true

theorem releasesUnsubmitted_sound (w : World) (e : Event) (_ : Interleave.System.Numbered w)
    (h : releasesUnsubmitted w e = true) : ReleasesUnsubmitted w e := by
  rintro i o id rfl hwaiting x hx
  simp only [releasesUnsubmitted, hwaiting, List.all_eq_true, bne_iff_ne] at h
  exact h x hx

/-- Nobody interferes with a reservation that Helios works on: it is released only when its workflow has
ended, and a queued remediation is cancelled only then and not under a call that holds it. Recovery runs
after such calls have ended and sees every workflow that has not. Workers and the dispatcher's reconciler
belong to the other executor and take no part. -/
structure Respects (cfg : Config) (w : World) (e : Event) : Prop where
  release : ∀ i o id, e = .act i o → w.waiting i = some (.release id) → NoLive w.shared id
  cancel : ∀ i o id, e = .act i o → w.waiting i = some (.cancel id .queued) →
    NoLive w.shared id ∧ Unheld w.shared id
  recover : ∀ i o now, e = .act i o → w.waiting i = some (.lockLost now) →
    ∀ x ∈ w.shared.holders, ∀ r ∈ w.shared.db.remediations, r.id = x.2 →
      ∀ t, r.queuedAt = some t → now - cfg.submitLostAfter ≤ t
  listed : ∀ i o id, e = .act i o → w.waiting i = some (.findWorkflow id) →
    ∀ x, Live w.shared id x → x ∈ w.shared.workflows.take 500
  executor : ∀ i o l, e = .act i o → w.waiting i = some l →
    l ≠ .claim ∧ l ≠ .finish ∧ l ≠ .reconcile

/-- Only reservations are assumed to be left alone. -/
def undivided : Discipline := ⟨False, False, False, True⟩

theorem Respects.disciplined {e : Event} (h : Respects cfg w e) : Disciplined cfg undivided w e where
  permitted i o l he hl := by
    refine ⟨fun hd => hd.elim, fun hd => hd.elim, fun _ => ?_⟩
    subst he
    have hexecutor := h.executor i o l rfl hl
    cases l with
    | release id => exact h.release i o id rfl hl
    | cancel id expected =>
      rintro rfl
      exact h.cancel i o id rfl hl
    | lockLost now =>
      intro id hid j hj
      obtain ⟨r, hr, rfl, -, t, ht, hlt⟩ := exists_of_mem_lostSubmissions hid
      have hle := h.recover i o now rfl hl (j, r.id) hj r hr rfl t ht
      exact absurd hlt (Int.not_lt.mpr hle)
    | findWorkflow id => exact h.listed i o id rfl hl
    | claim => exact absurd rfl hexecutor.1
    | finish => exact absurd rfl hexecutor.2.1
    | reconcile => exact absurd rfl hexecutor.2.2
    | _ => trivial
  proposals hd := hd.elim
  incidents hd := hd.elim

/-- Where nobody interferes with a reservation that Helios works on, the remediation of a workflow that has
not ended is queued or running, or timed out after an attempt to cancel the workflow. -/
theorem live_workflow_tracked (h : (argus cfg).Reach (Respects cfg) World.initial w) :
    ∀ x ∈ w.shared.workflows, x.state.isActive = true → ∀ id, x.remediationID = some id →
      (∃ r ∈ w.shared.db.remediations, r.id = id) ∧
      ∀ r ∈ w.shared.db.remediations, r.id = id →
        r.status = .queued ∨ r.status = .running ∨
          r.status = .timedOut ∧ x.id ∈ w.shared.cancelAttempts := by
  have hreach : (argus cfg).Reach (Disciplined cfg undivided) World.initial w :=
    h.mono fun w e he => he.disciplined
  have hinv := (sound_of_reach hreach).inv
  intro x hx hactive id hid
  refine ⟨hinv.tables.following.rows x hx id hid, fun r hr hrid => ?_⟩
  cases (hinv.exclusive trivial).follows id x ⟨hx, hid, hactive⟩ r hr hrid with
  | queued hqueued => exact .inl hqueued
  | running hrunning _ => exact .inr (.inl hrunning)
  | timedOut htimedOut hattempt => exact .inr (.inr ⟨htimedOut, hattempt⟩)

/-- The check of `Respects`: nobody does anything that it speaks of. -/
def respects (w : World) : Event → Bool
  | .act i _ =>
    match w.waiting i with
    | some (.release _) | some (.cancel _ _) | some (.lockLost _) | some (.findWorkflow _)
    | some .claim | some .finish | some .reconcile => false
    | _ => true
  | _ => true

theorem respects_sound (w : World) (e : Event) (_ : Interleave.System.Numbered w)
    (h : respects w e = true) : Respects (defaultConfig .helios) w e := by
  have hnot {i : ℕ} {o : Oracle} {l : Label} (he : e = .act i o) (hl : w.waiting i = some l)
      (hfalse : respects w (.act i o) = false) : False := by
    rw [he, hfalse] at h
    cases h
  refine ⟨fun i o id he hl => ?_, fun i o id he hl => ?_, fun i o now he hl => ?_,
    fun i o id he hl => ?_, fun i o l he hl => ?_⟩
  iterate 4 exact (hnot he hl (by simp only [respects, hl])).elim
  · refine ⟨?_, ?_, ?_⟩ <;> rintro rfl <;> exact hnot he hl (by simp only [respects, hl])

/-- A workflow that is still running when its call ends. -/
theorem live_workflow_tracked_running :
    ∃ w, (argus (defaultConfig .helios)).Reach (Respects (defaultConfig .helios)) World.initial w ∧
      ∃ x ∈ w.shared.workflows, x.state.isActive = true ∧
        ∃ r ∈ w.shared.db.remediations, x.remediationID = some r.id ∧
          (r.status = .queued ∨ r.status = .running ∨
            r.status = .timedOut ∧ x.id ∈ w.shared.cancelAttempts) := by
  obtain ⟨w, hw, hcheck⟩ := Interleave.System.exists_reach_of_runIf (argus (defaultConfig .helios))
    Shared.initial (reservedPod false ++ [.act 2 { fresh := "wf_1" }, .act 2 {}, .act 2 {}])
    (fun w => w.shared.workflows.any fun x =>
      x.state.isActive && x.remediationID.isSome) respects_sound (by decide +kernel)
  obtain ⟨x, hx, hrow⟩ := List.any_eq_true.mp hcheck
  simp only [Bool.and_eq_true, Option.isSome_iff_exists] at hrow
  obtain ⟨hactive, id, hid⟩ := hrow
  obtain ⟨⟨r, hr, rfl⟩, hall⟩ := live_workflow_tracked hw x hx hactive id hid
  exact ⟨w, hw, x, hx, hactive, r, hr, hid, hall r hr rfl⟩

/-- The call that submitted a workflow cannot read it back, and releases its reservation. -/
theorem released_with_live_workflow :
    ∃ w, Reachable (defaultConfig .helios) w ∧ ∃ x ∈ w.shared.workflows,
      x.state.isActive = true ∧ ∃ r ∈ w.shared.db.remediations, x.remediationID = some r.id ∧
        r.status = .approved := by
  obtain ⟨w, hw, hcheck⟩ := exists_reachable (defaultConfig .helios)
    (reservedPod false ++ [.act 2 { fresh := "wf_1" }, .act 2 { ok := false }, .act 2 {}])
    (fun w => w.shared.workflows.any fun x => x.state.isActive &&
      w.shared.db.remediations.any fun r =>
        x.remediationID == some r.id && r.status == .approved) (by decide +kernel)
  simp only [List.any_eq_true, Bool.and_eq_true, beq_iff_eq] at hcheck
  exact ⟨w, hw, hcheck⟩

end Argus.System

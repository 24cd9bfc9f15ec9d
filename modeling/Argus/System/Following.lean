import Argus.System.Delivery

/-!
# Workflows and the remediations that follow them

The invariant between Helios and the tables. A workflow was submitted in the mode of the reservation that
was current then, and a result that names a workflow names one of its own remediation.
-/

namespace Argus.System

open Remediation (Time RemediationAction Status Result Write)
open Helios (Workflow)

/-- The invariant of workflows. -/
structure Following (d : Discipline) (s : Shared) : Prop where
  ids : (s.workflows.map (·.id)).Nodup
  rows : ∀ w ∈ s.workflows, ∀ id, w.remediationID = some id → ∃ r ∈ s.db.remediations, r.id = id
  reservations : ∀ w ∈ s.workflows, ∀ id, w.remediationID = some id →
    w.reservation ≤ s.reservationsOf id
  modes : ∀ w ∈ s.workflows, ∀ r ∈ s.db.remediations, w.remediationID = some r.id →
    w.reservation = s.reservationsOf r.id → w.dryRun = r.dryRun
  results : ∀ r ∈ s.db.remediations, ∀ workflowID name, r.result = .helios workflowID name →
    isClaimed r.status = true ∧ Reports d s r.id r.status r.result

/-! ## Reservations -/

/-- A reservation is of one remediation. -/
theorem reservationsOf_append (s : Shared) (x : Reservation) (s' : Shared)
    (h : s'.reservations = s.reservations ++ [x]) (id : String) :
    s'.reservationsOf id = s.reservationsOf id + if x.remediationID = id then 1 else 0 := by
  simp [Shared.reservationsOf, h, List.countP_append, List.countP_cons]

variable {r r' : RemediationAction} {status : Status} {id : String} {w w' : Workflow}

section

variable {cfg : Config} {d : Discipline} {s s' : Shared} {l : Label}

/-- The number of reservations changes only for a row that is approved. -/
theorem Change.reservationsOf (h : Change cfg d l s s') (id : String) :
    s'.reservationsOf id = s.reservationsOf id ∨
      s'.reservationsOf id = s.reservationsOf id + 1 ∧
        ∃ r ∈ s.db.remediations, r.id = id ∧ r.status = .approved := by
  cases h with
  | frame _ hrest | insert _ hrest =>
    left
    rw [Shared.reservationsOf, Shared.reservationsOf, hrest.reservations]
  | reserve now pid id' dryRun dispatches haffects _ =>
    rw [reservationsOf_append s ⟨pid, id', dryRun⟩ _ rfl]
    by_cases hid : id' = id
    · right
      refine ⟨by rw [if_pos hid], ?_⟩
      obtain ⟨r, hr, hrid, hguard⟩ := Remediation.affects_iff.mp haffects
      exact ⟨r, hr, hrid.trans hid, by simpa [Write.guard] using hguard⟩
    · left
      rw [if_neg hid]
      rfl
  | _ => exact .inl rfl

/-- A claimed remediation is not reserved again. -/
theorem Change.reservationsOf_eq (h : Change cfg d l s s') (hids : s.db.Distinct)
    (hr : r ∈ s.db.remediations) (hstatus : r.status ≠ .approved) :
    s'.reservationsOf r.id = s.reservationsOf r.id := by
  rcases h.reservationsOf r.id with heq | ⟨-, r', hr', hid, happroved⟩
  · exact heq
  · obtain rfl := Table.eq_of_key_eq hids hr' hr hid
    exact absurd happroved hstatus

theorem ne_approved_of_isClaimed (h : isClaimed status = true) : status ≠ .approved := by
  rintro rfl
  cases h

/-! ## Reports -/

theorem finalState_of_moved (h : Moved w w') (hstate : finalState status w.state) :
    finalState status w'.state := by
  cases status with
  | succeeded =>
    have hdone : w.state = .succeeded := hstate
    show w'.state = .succeeded
    rw [h.state (by rw [hdone]; rfl), hdone]
  | failed =>
    have hdone : w.state = .failed ∨ w.state = .cancelled := hstate
    show w'.state = .failed ∨ w'.state = .cancelled
    rw [h.state (by rcases hdone with hdone | hdone <;> rw [hdone] <;> rfl)]
    exact hdone
  | _ => trivial

theorem Submitted.moved (h : Submitted d s id w) (hw' : w' ∈ s'.workflows) (hmoved : Moved w w')
    (hcount : s'.reservationsOf id = s.reservationsOf id) : Submitted d s' id w' where
  mem := hw'
  remediationID := hmoved.remediationID.trans h.remediationID
  current hd := by
    rw [hmoved.reservation, hcount]
    exact h.current hd

theorem Submitted.change (h : Change cfg d l s s') (hw : Submitted d s id w)
    (hcount : s'.reservationsOf id = s.reservationsOf id) :
    ∃ w', Moved w w' ∧ Submitted d s' id w' := by
  obtain ⟨w', hw', hmoved⟩ := h.workflow hw.mem
  exact ⟨w', hmoved, hw.moved hw' hmoved hcount⟩

theorem Reports.change (h : Change cfg d l s s') {result : Result}
    (hreports : Reports d s id status result) (hcount : s'.reservationsOf id = s.reservationsOf id) :
    Reports d s' id status result := by
  intro workflowID name hresult
  obtain ⟨w, hid, hsubmitted, hstate⟩ := hreports workflowID name hresult
  obtain ⟨w', hmoved, hsubmitted'⟩ := hsubmitted.change h hcount
  exact ⟨w', hmoved.id.trans hid, hsubmitted', finalState_of_moved hmoved hstate⟩

/-- What a change does to the result of a row. -/
theorem RowChange.reports (h : RowChange cfg d s r r')
    (hr : ∀ workflowID name, r.result = .helios workflowID name → isClaimed r.status = true ∧
      Reports d s r.id r.status r.result) {workflowID name : String}
    (hresult : r'.result = .helios workflowID name) :
    isClaimed r'.status = true ∧ Reports d s r.id r'.status r'.result := by
  cases h with
  | same => exact hr workflowID name hresult
  | @write now w hguard hlicensed =>
    cases w with
    | cancel expected =>
      -- nothing that can be cancelled was claimed
      obtain rfl : r.status = expected := by simpa [Write.guard] using hguard
      obtain ⟨hclaimed, -⟩ := hr workflowID name hresult
      have hcan := Status.canTransition_cancelled_iff.mp hlicensed.2
      rcases hcan with h | h | h | h | h <;> simp [h, isClaimed] at hclaimed
    | release =>
      obtain ⟨hclaimed, -⟩ := hr workflowID name hresult
      have hqueued : r.status = .queued := by simpa [Write.guard] using hguard
      simp [hqueued, isClaimed] at hclaimed
    | claim =>
      obtain ⟨-, hreports⟩ := hr workflowID name hresult
      refine ⟨rfl, fun workflowID name hresult => ?_⟩
      obtain ⟨w, hid, hsubmitted, -⟩ := hreports workflowID name hresult
      exact ⟨w, hid, hsubmitted, trivial⟩
    | markRunning result => exact ⟨rfl, hlicensed⟩
    | complete status result error =>
      refine ⟨?_, hlicensed.1⟩
      rcases hlicensed.complete_cases with rfl | rfl | rfl | ⟨rfl, -⟩
      · rfl
      · rfl
      · rfl
      · exact absurd hresult (hlicensed.2.2.1 workflowID name)
    | _ => exact False.elim hlicensed
  | reserve now dryRun hstatus =>
    obtain ⟨hclaimed, -⟩ := hr workflowID name hresult
    simp [hstatus, isClaimed] at hclaimed
  | settle now _ _ _ hsettles hstatus =>
    have hkept : r.result = .helios workflowID name := by
      cases hsettles <;> exact hresult
    obtain ⟨hclaimed, -⟩ := hr workflowID name hkept
    simp [hstatus, isClaimed] at hclaimed

end

namespace Following

variable {cfg : Config} {d : Discipline} {s s' : Shared} {l : Label}

private theorem known' (hchange : Change cfg d l s s') (hw' : w' ∈ s'.workflows) :
    w'.remediationID = none ∨ (∃ w ∈ s.workflows, Moved w w') ∨
      ∃ id, w'.remediationID = some id ∧ w'.reservation = s'.reservationsOf id ∧
        ∃ r ∈ s'.db.remediations, r.id = id ∧ r.dryRun = w'.dryRun := by
  cases hchange with
  | frame _ hrest | insert _ hrest =>
    rcases hrest.workflows.known w' hw' with hnone | hold
    · exact .inl hnone
    · exact .inr (.inl hold)
  | submit workflowID id dryRun _ hrow =>
    rcases List.mem_cons.mp hw' with rfl | hw'
    · exact .inr (.inr ⟨id, rfl, rfl, hrow⟩)
    · exact .inr (.inl ⟨w', hw', .refl w'⟩)
  | _ => exact .inr (.inl ⟨w', hw', .refl w'⟩)

private theorem ids' (h : Following d s) (hchange : Change cfg d l s s') :
    (s'.workflows.map (·.id)).Nodup := by
  cases hchange with
  | frame _ hrest | insert _ hrest => exact hrest.workflows.ids h.ids
  | submit workflowID id dryRun hnew _ =>
    refine List.nodup_cons.mpr ⟨fun hmem => ?_, h.ids⟩
    obtain ⟨w, hw, hid⟩ := List.mem_map.mp hmem
    exact hnew w hw hid
  | _ => exact h.ids

/-- The mode of a row changes only with its number of reservations. -/
private theorem dryRun' (hchange : Change cfg d l s s') (hids : s.db.Distinct)
    (hr : r ∈ s.db.remediations) (hr' : r' ∈ s'.db.remediations) (hids' : s'.db.Distinct)
    (hid : r'.id = r.id) :
    r'.dryRun = r.dryRun ∨ s'.reservationsOf r.id = s.reservationsOf r.id + 1 := by
  cases hchange with
  | reserve now pid id dryRun dispatches haffects _ =>
    rw [reservationsOf_append s ⟨pid, id, dryRun⟩ _ rfl]
    by_cases heq : id = r.id
    · right
      rw [if_pos heq]
    · left
      obtain ⟨r₁, hr₁, ⟨rfl, -⟩ | ⟨-, hid₁, -⟩⟩ :=
        Remediation.exists_mem_updateWhere now id (.markQueued dryRun) hr
      · exact congrArg RemediationAction.dryRun (Table.eq_of_key_eq hids' hr' hr₁ hid)
      · exact absurd hid₁.symm heq
  | write now id w hlicensed =>
    left
    obtain ⟨r₁, hr₁, ⟨rfl, -⟩ | ⟨rfl, -, -⟩⟩ := Remediation.exists_mem_updateWhere now id w hr
    · exact congrArg RemediationAction.dryRun (Table.eq_of_key_eq hids' hr' hr₁ hid)
    · rw [Table.eq_of_key_eq hids' hr' hr₁ (hid.trans (w.sameProposal_set now r).id.symm)]
      exact hlicensed.dryRun_set now r
  | settle now q aw w _ _ hsettles =>
    left
    obtain ⟨r₁, hr₁, ⟨rfl, -⟩ | ⟨rfl, -, -⟩⟩ :=
      Remediation.exists_mem_updateWhere now q.remediationID w hr
    · exact congrArg RemediationAction.dryRun (Table.eq_of_key_eq hids' hr' hr₁ hid)
    · rw [Table.eq_of_key_eq hids' hr' hr₁ (hid.trans (w.sameProposal_set now r).id.symm)]
      cases hsettles <;> rfl
  | frame hrows _ =>
    left
    exact congrArg RemediationAction.dryRun (Table.eq_of_key_eq hids (hrows ▸ hr') hr hid)
  | insert hins _ =>
    left
    have hmem : r ∈ s'.db.remediations := by
      rw [hins.eq]
      exact List.mem_append_left _ hr
    exact congrArg RemediationAction.dryRun (Table.eq_of_key_eq hids' hr' hmem hid)
  | _ =>
    left
    exact congrArg RemediationAction.dryRun (Table.eq_of_key_eq hids hr' hr hid)

/-- Every change keeps the invariant. -/
theorem change (h : Following d s) (hids : s.db.Distinct)
    (hids' : s'.db.Distinct) (hchange : Change cfg d l s s') :
    Following d s' where
  ids := h.ids' hchange
  rows w' hw' id hid := by
    rcases known' hchange hw' with hnone | ⟨w, hw, hmoved⟩ | ⟨id', hid', -, r, hr, hrid, -⟩
    · rw [hnone] at hid
      cases hid
    · obtain ⟨r, hr, hrid⟩ := h.rows w hw id (hmoved.remediationID.symm.trans hid)
      obtain ⟨r', hr', hrow⟩ := hchange.row hr
      exact ⟨r', hr', hrow.sameProposal.id.trans hrid⟩
    · obtain rfl := Option.some.inj (hid'.symm.trans hid)
      exact ⟨r, hr, hrid⟩
  reservations w' hw' id hid := by
    rcases known' hchange hw' with hnone | ⟨w, hw, hmoved⟩ | ⟨id', hid', hcount, -⟩
    · rw [hnone] at hid
      cases hid
    · have hle := h.reservations w hw id (hmoved.remediationID.symm.trans hid)
      rw [hmoved.reservation]
      rcases hchange.reservationsOf id with heq | ⟨heq, -⟩ <;> omega
    · obtain rfl := Option.some.inj (hid'.symm.trans hid)
      exact hcount.le
  modes w' hw' r' hr' hid hcount := by
    rcases known' hchange hw' with hnone | ⟨w, hw, hmoved⟩ | ⟨id', hid', -, r, hr, hrid, hdry⟩
    · rw [hnone] at hid
      cases hid
    · have hwid := hmoved.remediationID.symm.trans hid
      obtain ⟨r, hr, hrid⟩ := h.rows w hw r'.id hwid
      have hle := h.reservations w hw r'.id hwid
      rw [hmoved.reservation] at hcount
      rw [hmoved.dryRun]
      rcases dryRun' hchange hids hr hr' hids' hrid.symm with hdry | hmore
      · rw [hdry]
        refine h.modes w hw r hr (hrid ▸ hwid) ?_
        rw [hrid]
        rcases hchange.reservationsOf r'.id with heq | ⟨heq, -⟩ <;> omega
      · -- an older workflow is not one of the new reservation
        rw [hrid] at hmore
        omega
    · obtain rfl := Option.some.inj (hid'.symm.trans hid)
      rw [← hdry, Table.eq_of_key_eq hids' hr hr' hrid]
  results r' hr' workflowID name hresult := by
    rcases hchange.row_of_mem hr' with ⟨r, hr, hrow⟩ | ⟨_, _, _, _, _, _, _, _, -, rfl⟩
    · obtain ⟨hclaimed, hreports⟩ := hrow.reports (h.results r hr) hresult
      refine ⟨hclaimed, ?_⟩
      rw [hrow.sameProposal.id]
      refine hreports.change hchange (hchange.reservationsOf_eq hids hr fun happroved => ?_)
      -- an approved row is only cancelled or reserved, and names no workflow
      cases hrow with
      | same => exact ne_approved_of_isClaimed hclaimed happroved
      | @write now w hguard hlicensed =>
        rw [happroved] at hguard
        rw [Write.status_set] at hclaimed
        cases w with
        | cancel _ => cases hclaimed
        | release | claim | markRunning _ | complete _ _ _ => cases hguard
        | _ => exact False.elim hlicensed
      | reserve _ _ _ => cases hclaimed
      | settle _ _ _ _ _ hstatus => simp [happroved] at hstatus
    · cases hresult

end Following

end Argus.System

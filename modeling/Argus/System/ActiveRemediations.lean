import Argus.System.Runs

/-!
# One active remediation for each action

`Propose` looks for an active row, counts the recent ones and inserts, in separate statements, and only the
unique key ties them together: the key carries the count. Two proposals that overlap can therefore both
succeed, if one of them inserts between the other's search and its count. Where that does not happen, and
the column compares parameters as the key spells them, no action has two active rows.
-/

namespace Argus.System

open Remediation (RemediationAction localIncident diagnosticsCandidate)

variable {cfg : Config} {w : World}

/-- A row is inserted only where no other proposal is between its search and its count for the action, and
only without negative zeros, which the column takes for zeros and the key does not. -/
def SeparateProposals (w : World) (e : Event) : Prop :=
  ∀ i o k parameters, e = .act i o → w.waiting i = some (.insert k parameters) →
    parameters.Plain ∧ ∀ j, j ≠ i → w.waiting j ≠ some (.countRecent k)

/-- Only proposals are assumed to be separate. -/
def separate : Discipline := ⟨True, False, False, False⟩

theorem SeparateProposals.disciplined {e : Event} (h : SeparateProposals w e) :
    Disciplined cfg separate w e where
  permitted i o l he hl := by
    refine ⟨fun _ k parameters heq => ?_, fun hd => hd.elim, fun hd => hd.elim⟩
    exact (h i o k parameters he (hl.trans (congrArg some heq))).1
  proposals _ i o k parameters he hl := (h i o k parameters he hl).2
  incidents hd := hd.elim

/-- Where proposals are separate, rows of one action that are both active are the same row. -/
theorem active_remediation_unique (h : (argus cfg).Reach SeparateProposals World.initial w)
    {r r' : RemediationAction} (hr : r ∈ w.shared.db.remediations)
    (hr' : r' ∈ w.shared.db.remediations) (hincident : r.incidentID = r'.incidentID)
    (haction : r.actionType = r'.actionType) (htarget : r.target = r'.target)
    (hparameters : r.parameters.stored = r'.parameters.stored)
    (hactive : r.status.isTerminalState = false) (hactive' : r'.status.isTerminalState = false) :
    r = r' := by
  have hreach : (argus cfg).Reach (Disciplined cfg separate) World.initial w :=
    h.mono fun w e he => he.disciplined
  have hinv := (sound_of_reach hreach).inv
  have hidentity : r.identity = r'.identity := by
    simp only [RemediationAction.identity, hincident, haction, htarget, hparameters]
  refine Table.eq_of_key_eq hinv.ids hr hr' ?_
  refine (hinv.proposals trivial).single r hr r' hr' hidentity ?_ ?_
  · simp [RemediationAction.isActive, hactive]
  · simp [RemediationAction.isActive, hactive']

/-! ## Two proposals of one action -/

/-- The check of `SeparateProposals` on the calls that have started. -/
def separateProposals (w : World) : Event → Bool
  | .act i _ =>
    match w.waiting i with
    | some (.insert k parameters) => (parameters.decoded == parameters) &&
        (List.range w.next).all fun j => j == i ||
          match w.waiting j with
          | some (.countRecent k') => k' != k
          | _ => true
    | _ => true
  | _ => true

theorem separateProposals_sound (w : World) (e : Event) (hw : Interleave.System.Numbered w)
    (h : separateProposals w e = true) : SeparateProposals w e := by
  rintro i o k parameters rfl hl
  simp only [separateProposals, hl, Bool.and_eq_true, List.all_eq_true, List.mem_range,
    Bool.or_eq_true, beq_iff_eq] at h
  obtain ⟨hplain, hothers⟩ := h
  refine ⟨hplain ▸ Parameters.plain_decoded parameters, fun j hj hwaiting => ?_⟩
  have hlt : j < w.next := by
    by_contra hge
    rw [Interleave.World.waiting, hw j (by omega)] at hwaiting
    cases hwaiting
  rcases hothers j hlt with heq | hne
  · exact hj heq
  · simp [hwaiting] at hne

/-- Two proposals of one action, on an incident that exists. -/
private def proposals : List Event :=
  [.environment (.incident localIncident),
    .start (.propose localIncident [diagnosticsCandidate] "ops" "operator"),
    .start (.propose localIncident [diagnosticsCandidate] "ops" "operator")]

/-- The second proposal searches only after the first has inserted its row, and finds it. -/
theorem active_remediation_unique_sequential :
    ∃ w, (argus (defaultConfig .localQueue)).Reach SeparateProposals World.initial w ∧
      w.shared.db.remediations ≠ [] ∧
      ∀ r ∈ w.shared.db.remediations, ∀ r' ∈ w.shared.db.remediations,
        r.identity = r'.identity → r.status.isTerminalState = false →
        r'.status.isTerminalState = false → r = r' := by
  obtain ⟨w, hw, hrows⟩ := Interleave.System.exists_reach_of_runIf
    (argus (defaultConfig .localQueue)) Shared.initial
    (proposals ++ [.act 0 {}, .act 0 {}, .act 0 {}, .act 0 { fresh := "rem_1" }, .act 1 {}])
    (fun w => !w.shared.db.remediations.isEmpty) separateProposals_sound (by decide +kernel)
  refine ⟨w, hw, by simpa using hrows, fun r hr r' hr' hidentity hactive hactive' => ?_⟩
  simp only [RemediationAction.identity, Remediation.Identity.mk.injEq] at hidentity
  obtain ⟨hincident, haction, htarget, hparameters⟩ := hidentity
  exact active_remediation_unique hw hr hr' hincident haction htarget hparameters hactive hactive'

/-- The second proposal searches before the first inserts its row and counts after it: its row has the next
number, so that its key is free. -/
theorem overlapping_proposals_both_active :
    ∃ w, Reachable (defaultConfig .localQueue) w ∧
      ∃ r ∈ w.shared.db.remediations, ∃ r' ∈ w.shared.db.remediations, r.id ≠ r'.id ∧
        r.incidentID = r'.incidentID ∧ r.actionType = r'.actionType ∧ r.target = r'.target ∧
        r.parameters.stored = r'.parameters.stored ∧ r.status.isTerminalState = false ∧
        r'.status.isTerminalState = false := by
  obtain ⟨w, hw, hrows⟩ := exists_reachable (defaultConfig .localQueue)
    (proposals ++ [.act 1 {}, .act 0 {}, .act 0 {}, .act 0 {}, .act 0 { fresh := "rem_1" },
      .act 1 {}, .act 1 {}, .act 1 { fresh := "rem_2" }])
    (fun w => w.shared.db.remediations.any fun r => w.shared.db.remediations.any fun r' =>
      r.id != r'.id && r.incidentID == r'.incidentID && r.actionType == r'.actionType &&
      r.target == r'.target && r.parameters.stored == r'.parameters.stored &&
      !r.status.isTerminalState && !r'.status.isTerminalState) (by decide +kernel)
  simp only [List.any_eq_true, Bool.and_eq_true, bne_iff_ne, beq_iff_eq, Bool.not_eq_true',
    and_assoc] at hrows
  exact ⟨w, hw, hrows⟩

end Argus.System

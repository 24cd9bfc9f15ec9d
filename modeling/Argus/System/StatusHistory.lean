import Argus.System.Runs

/-!
# How statuses move

Every committed change of a status follows the table of transitions, apart from the release of a reservation
after a failed dispatch to Helios, and a terminal row keeps its status and its outcome for good.
-/

namespace Argus.System

open Remediation (RemediationAction Status)

variable {cfg : Config} {d : Discipline} {s s' : Shared} {w w' : World}

/-! ## Terminal states -/

/-- The row of an id is terminal, with this outcome. -/
def EndedAs (r : RemediationAction) (s : Shared) : Prop :=
  ∃ r' ∈ s.db.remediations, r'.id = r.id ∧
    r'.status = r.status ∧ r'.result = r.result ∧ r'.error = r.error

theorem keeps_endedAs (cfg : Config) (d : Discipline) {r : RemediationAction}
    (hterminal : r.status.isTerminalState = true) : Keeps cfg d (EndedAs r) := by
  rintro l s s' - hchange ⟨r₁, hr₁, hid, hstatus, hresult, herror⟩
  obtain ⟨r₂, hr₂, hrow⟩ := hchange.row hr₁
  obtain ⟨hstatus₂, hresult₂, herror₂⟩ := hrow.terminal (by rwa [hstatus])
  exact ⟨r₂, hr₂, hrow.sameProposal.id.trans hid, hstatus₂.trans hstatus, hresult₂.trans hresult,
    herror₂.trans herror⟩

/-- Once a remediation is in a terminal state, its status, its result and its error never change. -/
theorem terminal_absorbing (h : Reachable cfg w) (hrun : Continues cfg w w') :
    ∀ r ∈ w.shared.db.remediations, r.status.isTerminalState = true →
      (∃ r' ∈ w'.shared.db.remediations, r'.id = r.id) ∧
      ∀ r' ∈ w'.shared.db.remediations, r'.id = r.id →
        r'.status = r.status ∧ r'.result = r.result ∧ r'.error = r.error := by
  intro r hr hterminal
  obtain ⟨hw', r₁, hr₁, hid, hended⟩ :=
    (keeps_endedAs cfg .none hterminal).continues h hrun ⟨r, hr, rfl, rfl, rfl, rfl⟩
  refine ⟨⟨r₁, hr₁, hid⟩, fun r' hr' hid' => ?_⟩
  obtain rfl := Table.eq_of_key_eq (invariant_of_reachable hw').ids hr' hr₁ (hid'.trans hid.symm)
  exact hended

/-- A remediation that was executed stays succeeded when its job is delivered again. -/
theorem terminal_absorbing_redelivered :
    ∃ w w', Reachable (defaultConfig .localQueue) w ∧ Continues (defaultConfig .localQueue) w w' ∧
      ∃ r ∈ w.shared.db.remediations, r.status = .succeeded ∧
        ∀ r' ∈ w'.shared.db.remediations, r'.id = r.id → r'.status = .succeeded := by
  obtain ⟨w, w', hw, hstep, hrows⟩ := exists_step (defaultConfig .localQueue) executedPod
    (.start (.handleMessage ⟨some "rem_1", 2⟩))
    (fun w _ => w.shared.db.remediations.any fun r => r.status == .succeeded) (by decide +kernel)
  obtain ⟨r, hr, hstatus⟩ := List.any_eq_true.mp hrows
  have hsucceeded : r.status = .succeeded := by simpa using hstatus
  have hrun : Continues (defaultConfig .localQueue) w w' := .tail .refl trivial hstep
  refine ⟨w, w', hw, hrun, r, hr, hsucceeded, fun r' hr' hid => ?_⟩
  obtain ⟨-, hall⟩ := terminal_absorbing hw hrun r hr (by rw [hsucceeded]; rfl)
  exact (hall r' hr' hid).1.trans hsucceeded

/-! ## Transitions -/

theorem Advances.canTransition {source target : Status} (h : Advances source target) :
    source.canTransition target = true := by
  cases h with
  | same => simp [Status.canTransition]
  | run hsource htarget =>
    cases source <;> cases target <;>
      simp_all [Status.isDispatchable, isClaimed, Status.canTransition, Status.allowed]
  | abandon hsource => rw [hsource]; rfl

/-- A step moves a status as the table says, or releases a reservation. -/
theorem Transition.canTransition {i : ℕ} {l : Label} {id : String} {source target : Status}
    (h : Transition cfg d i l s s' id source target) : source.canTransition target = true ∨
      cfg.executor = .helios ∧ source = .queued ∧ target = .approved ∧ l = .release id := by
  cases h with
  | advance h => exact .inl h.canTransition
  | settle hsource htarget =>
    left
    rw [hsource]
    rcases htarget with rfl | rfl | rfl | rfl <;> rfl
  | cancel _ hcan => exact .inl hcan
  | reserve hsource _ => rw [hsource]; exact .inl rfl
  | release hcfg hsource hl _ _ => exact .inr ⟨hcfg, hsource, rfl, hl⟩

/-- Every committed change of a status is one that the table declares, except that the release of a Helios
reservation moves it from queued back to approved. -/
theorem status_changes_declared (h : Reachable cfg w) {e : Event}
    (hstep : (argus cfg).step w e = some w') :
    ∀ r ∈ w.shared.db.remediations, ∀ r' ∈ w'.shared.db.remediations, r'.id = r.id →
      r.status.canTransition r'.status = true ∨
        cfg.executor = .helios ∧ r.status = .queued ∧ r'.status = .approved ∧
          ∃ i o, e = .act i o ∧ w.waiting i = some (.release r.id) := by
  intro r hr r' hr' hid
  have hids := (invariant_of_reachable h).ids
  have hids' := (invariant_of_reachable (h.tail trivial hstep)).ids
  have hsame (hrows : w'.shared.db.remediations = w.shared.db.remediations) :
      r.status.canTransition r'.status = true := by
    obtain rfl := Table.eq_of_key_eq hids' hr' (hrows ▸ hr) hid
    simp [Status.canTransition]
  cases happens (sound_of_reachable h) (disciplined_none cfg w e) hstep with
  | nothing heq => exact .inl (hsame (by rw [heq]))
  | crash heq => exact .inl (hsame (by rw [heq, db_crash]))
  | environment henv => exact .inl (hsame (remediations_environment henv))
  | @step i o l hwaiting _ hact =>
    obtain ⟨status', hstatus', htransition⟩ := hact.transition (Db.statusOf_of_mem hids hr)
    obtain rfl : status' = r'.status := by
      have hrow := Db.statusOf_of_mem hids' hr'
      rw [hid, hstatus'] at hrow
      exact Option.some.inj hrow
    rcases htransition.canTransition with hcan | ⟨hcfg, hsource, htarget, rfl⟩
    · exact .inl hcan
    · exact .inr ⟨hcfg, hsource, htarget, i, o, rfl, hwaiting⟩

/-- The calls up to the release of a reservation that Helios did not take. -/
private def releasing : List Event := reservedPod false ++ [.act 2 { ok := false }]

/-- The two rows are of one remediation whose status moved against the table. -/
private def undeclared (w w' : World) : Bool :=
  w.shared.db.remediations.any fun r => w'.shared.db.remediations.any fun r' =>
    r'.id == r.id && !r.status.canTransition r'.status

private theorem exists_of_undeclared (h : undeclared w w' = true) :
    ∃ r ∈ w.shared.db.remediations, ∃ r' ∈ w'.shared.db.remediations, r'.id = r.id ∧
      r.status.canTransition r'.status = false := by
  simpa [undeclared] using h

/-- The release is the exception. -/
theorem status_changes_declared_release :
    ∃ w, Reachable (defaultConfig .helios) w ∧ ∃ r ∈ w.shared.db.remediations,
      r.status = .queued ∧ ∃ i, w.waiting i = some (.release r.id) := by
  obtain ⟨w, w', hw, hstep, hcheck⟩ :=
    exists_step (defaultConfig .helios) releasing (.act 2 {}) undeclared (by decide +kernel)
  obtain ⟨r, hr, r', hr', hid, hcan⟩ := exists_of_undeclared hcheck
  rcases status_changes_declared hw hstep r hr r' hr' hid with
    hcan' | ⟨-, hqueued, -, i, _, -, hwaiting⟩
  · rw [hcan] at hcan'
    cases hcan'
  · exact ⟨w, hw, r, hr, hqueued, i, hwaiting⟩

/-- The table does not let a queued remediation become approved again. -/
theorem release_undeclared :
    ∃ w w' e, Reachable (defaultConfig .helios) w ∧
      (argus (defaultConfig .helios)).step w e = some w' ∧
      ∃ r ∈ w.shared.db.remediations, ∃ r' ∈ w'.shared.db.remediations, r'.id = r.id ∧
        r.status ≠ r'.status ∧ r.status.canTransition r'.status = false := by
  obtain ⟨w, w', hw, hstep, hcheck⟩ :=
    exists_step (defaultConfig .helios) releasing (.act 2 {}) undeclared (by decide +kernel)
  obtain ⟨r, hr, r', hr', hid, hcan⟩ := exists_of_undeclared hcheck
  refine ⟨w, w', _, hw, hstep, r, hr, r', hr', hid, fun heq => ?_, hcan⟩
  rw [heq] at hcan
  simp [Status.canTransition] at hcan

end Argus.System

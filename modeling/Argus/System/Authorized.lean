import Argus.System.ApprovalGate
import Argus.System.LocalExecution

/-!
# Nothing is executed without authority

The gate speaks of the status that a remediation has now. A remediation that was executed may have failed,
run out of time or been cancelled since; what authorized its execution is still on record.
-/

namespace Argus.System

open Remediation (RemediationAction)

variable {cfg : Config} {s : Shared} {w : World} {r : RemediationAction}

/-- Why a remediation may be executed: it is free by the policy, or somebody approved it. -/
def Authorized (cfg : Config) (s : Shared) (r : RemediationAction) : Prop :=
  Actions.risk r.actionType = "low" ∧ r.policyDecision.requiresApproval = false ∨
    ∃ q ∈ s.db.approvals, q.remediationID = r.id ∧ q.status = .approved ∧
      q.requestedBy = r.proposedBy ∧ Approves cfg q r

theorem Cleared.authorized (hinv : Invariant cfg .none s) (hr : r ∈ s.db.remediations)
    (h : Cleared s r) : Authorized cfg s r := by
  rcases h with hfree | ⟨q, hq, hid, happroved⟩
  · exact .inl hfree
  · obtain ⟨happroves, hrequested⟩ := approves_of_mem hinv hr hq hid happroved
    exact .inr ⟨q, hq, hid, happroved, hrequested, happroves⟩

/-- The remediation with an id was let through. -/
def ClearedID (s : Shared) (id : String) : Prop :=
  ∃ r ∈ s.db.remediations, r.id = id ∧ Cleared s r

theorem ClearedID.authorized {id : String} (hinv : Invariant cfg .none s) (h : ClearedID s id) :
    ∃ r ∈ s.db.remediations, r.id = id ∧ Authorized cfg s r := by
  obtain ⟨r, hr, hid, hcleared⟩ := h
  exact ⟨r, hr, hid, hcleared.authorized hinv hr⟩

/-- What cleared a remediation stays on record. -/
theorem keeps_clearedID (cfg : Config) (id : String) : Keeps cfg .none (ClearedID · id) := by
  rintro l s s' htables hchange ⟨r, hr, hid, hcleared⟩
  obtain ⟨r', hr', hrow⟩ := hchange.row hr
  exact ⟨r', hr', hrow.sameProposal.id.trans hid,
    hcleared.change hchange htables.coupling.requestIDs hrow.sameProposal⟩

/-! ## Reservations and handlers -/

/-- Every reservation is of a remediation that was let through. -/
def ReservedCleared (s : Shared) : Prop :=
  ∀ x ∈ s.reservations, ClearedID s x.remediationID

/-- A reservation finds its row approved. -/
theorem keeps_reservedCleared (cfg : Config) : Keeps cfg .none ReservedCleared := by
  intro l s s' htables hchange hreserved x hx
  refine keeps_clearedID cfg _ l s s' htables hchange ?_
  cases hchange with
  | frame _ hrest | insert _ hrest => exact hreserved x (hrest.reservations ▸ hx)
  | reserve now pid id dryRun _ haffects _ =>
    rcases List.mem_append.mp hx with hx | hx
    · exact hreserved x hx
    · obtain rfl := List.mem_singleton.mp hx
      obtain ⟨r, hr, hid, hguard⟩ := Remediation.affects_iff.mp haffects
      have happroved : r.status = .approved := by simpa [Remediation.Write.guard] using hguard
      exact ⟨r, hr, hid, htables.coupling.cleared r hr (happroved ▸ rfl)⟩
  | _ => exact hreserved x hx

/-- Every reservation, whatever became of its remediation, was authorized; with the local executor so was
every handler that was started and every change of control state. -/
theorem executions_authorized (h : Reachable cfg w) :
    (∀ x ∈ w.shared.reservations, ∃ r ∈ w.shared.db.remediations,
      r.id = x.remediationID ∧ Authorized cfg w.shared r) ∧
    (cfg.executor = .localQueue →
      (∀ x ∈ w.shared.started, ∃ r ∈ w.shared.db.remediations,
        r.id = x.1 ∧ Authorized cfg w.shared r) ∧
      ∀ m ∈ w.shared.merges, ∃ r ∈ w.shared.db.remediations,
        m.idempotencyKey = r.idempotencyKey ∧ Authorized cfg w.shared r) := by
  have hinv := invariant_of_reachable h
  have hall : ReservedCleared w.shared :=
    ((keeps_reservedCleared cfg).continues .refl h fun _ hx => by cases hx).2
  have hreserved : ∀ x ∈ w.shared.reservations, ∃ r ∈ w.shared.db.remediations,
      r.id = x.remediationID ∧ Authorized cfg w.shared r := fun x hx => (hall x hx).authorized hinv
  refine ⟨hreserved, fun hlocal => ⟨fun x hx => ?_, fun m hm => ?_⟩⟩
  · obtain ⟨job, hjob, hid, -⟩ := hinv.tables.effects.started x hx
    obtain ⟨y, hy, hyid, -⟩ := (hinv.tables.effects.jobs job hjob).reservation hlocal
    obtain ⟨r, hr, hrid, hauthorized⟩ := hreserved y hy
    exact ⟨r, hr, hrid.trans (hyid.trans hid), hauthorized⟩
  · obtain ⟨r, hr, hkey, -, y, hy, hyid, -⟩ := exists_of_mem_merges hinv hlocal hm
    obtain ⟨r', hr', hrid, hauthorized⟩ := hreserved y hy
    obtain rfl := Table.eq_of_key_eq hinv.ids hr' hr (hrid.trans hyid)
    exact ⟨r', hr', hkey, hauthorized⟩

/-- A pod was restarted. -/
theorem executions_authorized_pod :
    ∃ w, Reachable (defaultConfig .localQueue) w ∧ ∃ m ∈ w.shared.merges,
      ∃ r ∈ w.shared.db.remediations, m.idempotencyKey = r.idempotencyKey ∧
        Authorized (defaultConfig .localQueue) w.shared r := by
  obtain ⟨w, hw, hmerges⟩ := exists_reachable (defaultConfig .localQueue) executedPod
    (fun w => !w.shared.merges.isEmpty) (by decide +kernel)
  obtain ⟨m, hm⟩ := List.exists_mem_of_ne_nil w.shared.merges (by simpa using hmerges)
  exact ⟨w, hw, m, hm, ((executions_authorized hw).2 rfl).2 m hm⟩

/-! ## Workflows -/

/-- Whoever holds a reservation, and whatever Helios was given, is of a remediation that was let through. -/
structure Backing (s : Shared) : Prop where
  holders : ∀ x ∈ s.holders, ClearedID s x.2
  workflows : ∀ x ∈ s.workflows, ∀ id, x.remediationID = some id → ClearedID s id

namespace Backing

variable {s' : Shared} {i : ℕ} {id : String}

/-- A call submits under its own reservation, a reconciler for rows that it holds. -/
theorem owned (h : Backing s) (hinv : Invariant cfg .none s) (howned : Owned i id s) :
    ClearedID s id := by
  rcases howned with hheld | ⟨-, hlocked⟩
  · exact h.holders _ hheld
  · obtain ⟨status, hstatus, hdispatchable⟩ := hinv.locks.locked id hlocked
    obtain ⟨r, hr, hid, rfl⟩ := Db.exists_of_statusOf hstatus
    refine ⟨r, hr, hid, hinv.tables.coupling.cleared r hr ?_⟩
    cases hs : r.status <;> simp_all [Remediation.Status.isDispatchable, gated]

theorem step (h : Backing s) (hinv : Invariant cfg .none s) {l : Label} {o : Oracle}
    (hstep : Step cfg .none i l o s s') : Backing s' := by
  have hkept {id : String} (hid : ClearedID s id) : ClearedID s' id :=
    (keeps_clearedID cfg id).step hinv hstep hid
  refine ⟨fun x hx => hkept ?_, fun x hx id hid => hkept ?_⟩
  · cases hstep.holdStep with
    | same heq => exact h.holders x (heq ▸ hx)
    | reserve heq happroved _ _ =>
      rcases List.mem_append.mp (heq ▸ hx) with hx | hx
      · exact h.holders x hx
      · obtain rfl := List.mem_singleton.mp hx
        obtain ⟨r, hr, hid, hstatus⟩ := happroved
        exact ⟨r, hr, hid, hinv.tables.coupling.cleared r hr (hstatus ▸ rfl)⟩
    | last heq => exact h.holders x (List.mem_filter.mp (heq ▸ hx)).1
  · cases hstep.workflowStep with
    | same heq => exact h.workflows x (heq ▸ hx) id hid
    | submit heq hid₀ _ howned _ _ =>
      rcases List.mem_cons.mp (heq ▸ hx) with rfl | hx
      · obtain rfl := Option.some.inj (hid.symm.trans hid₀)
        exact h.owned hinv howned
      · exact h.workflows x hx id hid
    | cancel heq =>
      rw [heq, Helios.move] at hx
      obtain ⟨y, hy, rfl⟩ := List.mem_map.mp hx
      refine h.workflows y hy id ?_
      split at hid <;> exact hid

/-- Crashes, and what Helios does by itself. -/
theorem frame (h : Backing s) (hinv : Invariant cfg .none s)
    (hrows : s'.db.remediations = s.db.remediations) (hrest : SameRest s s')
    (hholders : s'.holders ⊆ s.holders) : Backing s' := by
  have hkept {id : String} (hid : ClearedID s id) : ClearedID s' id :=
    keeps_clearedID cfg id .read s s' hinv.tables (.frame hrows hrest) hid
  refine ⟨fun x hx => hkept (h.holders x (hholders hx)), fun x hx id hid => ?_⟩
  rcases hrest.workflows.known x hx with hnone | ⟨y, hy, hmoved⟩
  · cases hnone.symm.trans hid
  · exact hkept (h.workflows y hy id (hmoved.remediationID.symm.trans hid))

end Backing

theorem backing_of_reachable (h : Reachable cfg w) : Backing w.shared := by
  induction h with
  | refl => exact ⟨fun _ hx => (by cases hx), fun _ hx => (by cases hx)⟩
  | tail hreach _ hstep ih =>
    have hsound := sound_of_reachable hreach
    cases happens hsound (disciplined_none cfg _ _) hstep with
    | nothing heq => exact heq ▸ ih
    | step _ _ hact => exact ih.step hsound.inv hact
    | crash heq =>
      refine heq ▸ ih.frame hsound.inv (crash_frame _ _).1 (crash_frame _ _).2 ?_
      unfold crash
      dsimp only
      split <;> exact List.filter_subset_self _
    | @environment x henv =>
      refine ih.frame hsound.inv (environment_frame henv).1 (environment_frame henv).2 ?_
      cases x with
      | submission id state =>
        simp only [environment] at henv
        split at henv
        · cases henv
        · rw [← Option.some.inj henv]
          exact List.Subset.refl _
      | _ =>
        rw [← Option.some.inj henv]
        exact List.Subset.refl _

/-- Every workflow that Helios was given for a remediation, whatever became of either, was authorized:
those that `Execute` submitted as well as those that a reconciler submitted again. -/
theorem workflows_authorized (h : Reachable cfg w) :
    ∀ x ∈ w.shared.workflows, ∀ id, x.remediationID = some id →
      ∃ r ∈ w.shared.db.remediations, r.id = id ∧ Authorized cfg w.shared r :=
  fun x hx id hid =>
    ((backing_of_reachable h).workflows x hx id hid).authorized (invariant_of_reachable h)

/-- A workflow for a pod. -/
theorem workflows_authorized_pod :
    ∃ w, Reachable (defaultConfig .helios) w ∧ ∃ x ∈ w.shared.workflows,
      x.remediationID = some "rem_1" ∧ ∃ r ∈ w.shared.db.remediations,
        r.id = "rem_1" ∧ Authorized (defaultConfig .helios) w.shared r := by
  obtain ⟨w, hw, hany⟩ := exists_reachable (defaultConfig .helios)
    (reservedPod false ++ [.act 2 { fresh := "wf_1" }])
    (fun w => w.shared.workflows.any (·.remediationID == some "rem_1")) (by decide +kernel)
  obtain ⟨x, hx, hid⟩ := List.any_eq_true.mp hany
  have hid : x.remediationID = some "rem_1" := by simpa using hid
  exact ⟨w, hw, x, hx, hid, workflows_authorized hw x hx _ hid⟩

end Argus.System

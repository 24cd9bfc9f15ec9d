import Argus.System.Coupling

/-!
# Jobs and their effects

The invariant of execution. A job that a worker runs was claimed in the mode of its reservation, and with
the local executor its row is never released, reserved again or cancelled. Control state is the replay of
the merges made so far, one for each receipt, each asked for by a job that was not a dry run.
-/

namespace Argus.System

open Remediation (Time RemediationAction Status SameAction Write)
open Workers (TypedHandler Merge Receipt findHandler)

/-- The statuses that only a reservation leads to. -/
def isDispatched : Status → Bool
  | .queued | .running | .succeeded | .failed => true
  | _ => false

/-- The target states are the replay of the merges, one for each receipt. -/
structure Replayed (s : Shared) : Prop where
  targets : s.db.control.targets = s.merges.foldl Merge.apply []
  receipts : s.merges.map (·.idempotencyKey) = s.db.control.receipts.map (·.idempotencyKey)
  once : (s.merges.map (·.idempotencyKey)).Nodup

/-- The invariant of execution. -/
structure Effects (cfg : Config) (s : Shared) : Prop where
  dispatched : cfg.executor = .localQueue → ∀ r ∈ s.db.remediations,
    isDispatched r.status = true → ∃ x ∈ s.reservations, x.remediationID = r.id ∧ x.dryRun = r.dryRun
  reservations : ∀ x ∈ s.reservations, ∃ r ∈ s.db.remediations, r.id = x.remediationID ∧
    (cfg.executor = .localQueue → isReserved r.status = true ∧ r.dryRun = x.dryRun)
  once : cfg.executor = .localQueue → (s.reservations.map (·.remediationID)).Nodup
  jobs : ∀ job ∈ s.jobs, Runnable cfg s job
  started : ∀ x ∈ s.started, ∃ job ∈ s.jobs, job.id = x.1 ∧ job.dryRun = x.2
  channels : ∀ c ∈ s.channels, ∃ job, s.jobs[c.1]? = some job ∧
    ∀ result, c.2 = .ok result → Recorded cfg s job ∧ OfHandler result
  receipts : ∀ x ∈ s.db.control.receipts, OfHandler x.result
  succeeded : cfg.executor = .localQueue → ∀ r ∈ s.db.remediations, r.status = .succeeded →
    Recorded cfg s r ∧ ∃ h, findHandler cfg.handlers r.actionType = some h
  asked : ∀ m ∈ s.asked, ∃ job ∈ s.jobs, AskedBy cfg job m
  merges : ∀ m ∈ s.merges, ∃ job ∈ s.jobs, job.dryRun = false ∧ AskedBy cfg job m
  replayed : Replayed s

/-! ## One change -/

variable {cfg : Config} {d : Discipline} {m : Merge} {job r' : RemediationAction} {s : Shared}
  {w : Write}

theorem Runnable.change {l : Label} {s' : Shared} (h : Change cfg d l s s')
    (hjob : Runnable cfg s job) : Runnable cfg s' job := by
  obtain ⟨⟨r, hr, hsame, hmode⟩, hreservation, hplain⟩ := hjob
  obtain ⟨r', hr', hrow⟩ := h.row hr
  refine ⟨⟨r', hr', hsame.trans hrow.sameAction, fun hlocal => ?_⟩, fun hlocal => ?_, hplain⟩
  · obtain ⟨hclaimed, hdry⟩ := hmode hlocal
    obtain ⟨hclaimed', hdry'⟩ := hrow.claimed hlocal hclaimed
    exact ⟨hclaimed', hdry'.trans hdry⟩
  · obtain ⟨x, hx, hid, hdry⟩ := hreservation hlocal
    exact ⟨x, h.grows.reservations hx, hid, hdry⟩

/-- With unique ids, what is recorded for a job is recorded for its row. -/
theorem Recorded.row {r : RemediationAction} (hsame : SameAction job r)
    (hdry : r.dryRun = job.dryRun) (h : Recorded cfg s job) : Recorded cfg s r := by
  intro t ht hmode
  rw [hsame.idempotencyKey]
  exact h t (hsame.actionType ▸ ht) (hdry ▸ hmode)

/-- Dispatched statuses come from a reservation, or from each other. -/
theorem Licensed.dispatched {id : String} (h : Licensed cfg d s id w) {status : Status}
    (hguard : w.guard status = true) (hw : isDispatched w.status = true) :
    isDispatched status = true := by
  cases w with
  | cancel _ | release => cases hw
  | claim | markRunning _ | complete _ _ _ =>
    cases status <;> simp_all [Write.guard, Status.isDispatchable, isDispatched]
  | _ => exact False.elim h

/-- A new row is not yet dispatched. -/
theorem isDispatched_proposedStatus (d : Policy.Decision) :
    isDispatched (Remediation.proposedStatus d) = false := by
  unfold Remediation.proposedStatus
  split_ifs <;> rfl

/-- Only an approval leaves the approval step without ending the remediation. -/
theorem Settles.dispatched {q : Approvals.Request} {aw : Approvals.Write} (h : Settles cfg q aw w) :
    isDispatched w.status = false := by
  cases h <;> rfl

theorem Replayed.applyMerge (h : Replayed s) (m : Merge) : Replayed (s.applyMerge m) := by
  cases hreceipt : Workers.receipt s.db.control.receipts m.idempotencyKey with
  | some r =>
    have happly : s.applyMerge m = s := by
      simp only [Shared.applyMerge, Workers.applyOnce_of_receipt hreceipt]
      rfl
    rw [happly]
    exact h
  | none =>
    obtain ⟨result, heq⟩ := Workers.applyOnce_of_none hreceipt
    have hfresh : ∀ m' ∈ s.merges, m'.idempotencyKey ≠ m.idempotencyKey := by
      intro m' hm' hkey
      have hmem : m'.idempotencyKey ∈ s.db.control.receipts.map (·.idempotencyKey) :=
        h.receipts ▸ List.mem_map_of_mem hm'
      obtain ⟨r, hr, hrkey⟩ := List.mem_map.mp hmem
      exact Workers.receipt_eq_none_iff.mp hreceipt r hr (hrkey.trans hkey)
    refine ⟨?_, ?_, ?_⟩
    · simp only [Shared.applyMerge, heq, if_true, List.foldl_append, List.foldl_cons,
        List.foldl_nil, h.targets]
    · simp only [Shared.applyMerge, heq, if_true, List.map_append, h.receipts, List.map_cons,
        List.map_nil]
    · simp only [Shared.applyMerge, heq, if_true]
      exact Table.nodup_map_concat h.once hfresh

theorem mem_merges_applyMerge {m' : Merge} (h : m' ∈ (s.applyMerge m).merges) :
    m' ∈ s.merges ∨ m' = m := by
  simp only [Shared.applyMerge] at h
  split at h
  · simpa using h
  · exact .inl h

namespace Effects

variable {cfg : Config} {d : Discipline} {s s' : Shared} {l : Label}

section

variable (h : Effects cfg s) (hchange : Change cfg d l s s')

include h hchange

private theorem dispatched' (hlocal : cfg.executor = .localQueue) (hr' : r' ∈ s'.db.remediations)
    (hstatus : isDispatched r'.status = true) :
    ∃ x ∈ s'.reservations, x.remediationID = r'.id ∧ x.dryRun = r'.dryRun := by
  cases hchange with
  | frame hrows hrest =>
    rw [hrest.reservations]
    exact h.dispatched hlocal r' (hrows ▸ hr') hstatus
  | insert hins hrest =>
    rw [hins.eq, List.mem_append, List.mem_singleton] at hr'
    rcases hr' with hr' | rfl
    · rw [hrest.reservations]
      exact h.dispatched hlocal r' hr' hstatus
    · exact absurd (hstatus.symm.trans (isDispatched_proposedStatus _)) (by simp)
  | write now id w hlicensed =>
    obtain ⟨r, hr, rfl | ⟨rfl, rfl, hguard⟩⟩ := Remediation.mem_updateWhere hr'
    · exact h.dispatched hlocal r' hr hstatus
    · rw [Write.status_set] at hstatus
      rw [(w.sameProposal_set now r).id, hlicensed.dryRun_set now r]
      exact h.dispatched hlocal r hr (hlicensed.dispatched hguard hstatus)
  | reserve now pid id dryRun _ _ _ =>
    obtain ⟨r, hr, rfl | ⟨rfl, rfl, hguard⟩⟩ := Remediation.mem_updateWhere hr'
    · obtain ⟨x, hx, hrest⟩ := h.dispatched hlocal r' hr hstatus
      exact ⟨x, List.mem_append_left _ hx, hrest⟩
    · exact ⟨_, List.mem_append_right _ (List.mem_singleton.mpr rfl), rfl, rfl⟩
  | settle now q aw w _ _ hsettles =>
    obtain ⟨r, hr, rfl | ⟨rfl, -, -⟩⟩ := Remediation.mem_updateWhere hr'
    · exact h.dispatched hlocal r' hr hstatus
    · rw [Write.status_set, hsettles.dispatched] at hstatus
      cases hstatus
  | _ => exact h.dispatched hlocal r' hr' hstatus

private theorem reservations' {x : Reservation} (hx : x ∈ s'.reservations) :
    ∃ r ∈ s'.db.remediations, r.id = x.remediationID ∧
      (cfg.executor = .localQueue → isReserved r.status = true ∧ r.dryRun = x.dryRun) := by
  have hold : x ∈ s.reservations → ∃ r ∈ s'.db.remediations, r.id = x.remediationID ∧
      (cfg.executor = .localQueue → isReserved r.status = true ∧ r.dryRun = x.dryRun) := by
    intro hx
    obtain ⟨r, hr, hid, hmode⟩ := h.reservations x hx
    obtain ⟨r', hr', hrow⟩ := hchange.row hr
    refine ⟨r', hr', hrow.sameProposal.id.trans hid, fun hlocal => ?_⟩
    obtain ⟨hreserved, hdry⟩ := hrow.reserved hlocal (hmode hlocal).1
    exact ⟨hreserved, hdry.trans (hmode hlocal).2⟩
  cases hchange with
  | frame _ hrest | insert _ hrest => exact hold (hrest.reservations ▸ hx)
  | reserve now pid id dryRun _ haffects _ =>
    rcases List.mem_append.mp hx with hx | hx
    · exact hold hx
    · obtain rfl := List.mem_singleton.mp hx
      obtain ⟨r, hr, hid, hguard⟩ := Remediation.affects_iff.mp haffects
      obtain ⟨r', hr', ⟨-, hnot⟩ | ⟨rfl, -, -⟩⟩ :=
        Remediation.exists_mem_updateWhere now id (.markQueued dryRun) hr
      · exact absurd ⟨hid, hguard⟩ hnot
      · exact ⟨_, hr', hid, fun _ => ⟨rfl, rfl⟩⟩
  | _ => exact hold hx

/-- A row that was reserved is not approved any more, so it is not reserved twice. -/
private theorem once' (hids : s.db.Distinct) (hlocal : cfg.executor = .localQueue) :
    (s'.reservations.map (·.remediationID)).Nodup := by
  cases hchange with
  | frame _ hrest | insert _ hrest =>
    rw [hrest.reservations]
    exact h.once hlocal
  | reserve now pid id dryRun _ haffects _ =>
    refine Table.nodup_map_concat (h.once hlocal) ?_
    intro x hx heq
    obtain ⟨r, hr, hid, hmode⟩ := h.reservations x hx
    obtain ⟨r₁, hr₁, hid₁, hguard⟩ := Remediation.affects_iff.mp haffects
    obtain rfl := Table.eq_of_key_eq hids hr₁ hr (hid₁.trans (heq.symm.trans hid.symm))
    have happroved : r₁.status = .approved := by simpa [Write.guard] using hguard
    have hreserved := (hmode hlocal).1
    rw [happroved] at hreserved
    cases hreserved
  | _ => exact h.once hlocal

private theorem succeeded' (hids : s.db.Distinct) (hlocal : cfg.executor = .localQueue)
    (hr' : r' ∈ s'.db.remediations) (hstatus : r'.status = .succeeded) :
    Recorded cfg s' r' ∧ ∃ hd, findHandler cfg.handlers r'.actionType = some hd := by
  have hgrows := hchange.grows
  rcases hchange.row_of_mem hr' with ⟨r, hr, hrow⟩ | ⟨_, _, _, _, _, _, _, _, -, rfl⟩
  · cases hrow with
    | same =>
      obtain ⟨hrecorded, hhandler⟩ := h.succeeded hlocal r' hr hstatus
      exact ⟨hrecorded.mono hgrows, hhandler⟩
    | @write now w hguard hlicensed =>
      rw [Write.status_set] at hstatus
      cases w with
      | complete target _ _ =>
        obtain rfl : target = .succeeded := hstatus
        obtain ⟨job, hjob, hid, hrecorded, hhandler⟩ := (hlicensed.2 hlocal).job
        -- the job's row is this one
        obtain ⟨r₁, hr₁, hsame, hmode⟩ := (h.jobs job hjob).row
        obtain rfl := Table.eq_of_key_eq hids hr₁ hr (hsame.id.trans hid)
        refine ⟨(hrecorded.row hsame (hmode hlocal).2).mono hgrows, ?_⟩
        exact hsame.actionType ▸ hhandler
      | cancel _ | release | claim | markRunning _ => cases hstatus
      | _ => exact False.elim hlicensed
    | reserve now dryRun _ => cases hstatus
    | settle now _ _ _ hsettles _ =>
      rw [Write.status_set] at hstatus
      cases hsettles <;> cases hstatus
  · have hnew := (congrArg isDispatched hstatus).symm.trans (isDispatched_proposedStatus _)
    cases hnew

private theorem channels' {x : ℕ × HandlerOutcome} (hx : x ∈ s'.channels) :
    ∃ job, s'.jobs[x.1]? = some job ∧
      ∀ result, x.2 = .ok result → Recorded cfg s' job ∧ OfHandler result := by
  have hgrows := hchange.grows
  have hold : x ∈ s.channels →
      ∃ job, s'.jobs[x.1]? = some job ∧
        ∀ result, x.2 = .ok result → Recorded cfg s' job ∧ OfHandler result := by
    intro hx
    obtain ⟨job, hjob, hrecorded⟩ := h.channels x hx
    exact ⟨job, hgrows.getElem_jobs hjob,
      fun result hok => (hrecorded result hok).imp_left (·.mono hgrows)⟩
  cases hchange with
  | frame _ hrest | insert _ hrest => exact hold (hrest.channels ▸ hx)
  | send hjob hrecorded =>
    rcases List.mem_append.mp hx with hx | hx
    · exact hold hx
    · obtain rfl := List.mem_singleton.mp hx
      exact ⟨_, hjob, hrecorded⟩
  | _ => exact hold hx

private theorem receipts' {x : Receipt} (hx : x ∈ s'.db.control.receipts) : OfHandler x.result := by
  cases hchange with
  | frame _ hrest | insert _ hrest => exact h.receipts x (hrest.control ▸ hx)
  | apply m =>
    rcases Workers.mem_receipts_applyOnce hx with hx | ⟨mode, resourceType, target, before, after, heq⟩
    · exact h.receipts x hx
    · rw [heq]
      rintro workflowID name ⟨⟩
  | _ => exact h.receipts x hx

private theorem jobs' (hjob : job ∈ s'.jobs) : Runnable cfg s' job := by
  have hold : job ∈ s.jobs → Runnable cfg s' job := fun hjob => (h.jobs job hjob).change hchange
  cases hchange with
  | frame _ hrest | insert _ hrest => exact hold (hrest.jobs ▸ hjob)
  | run hrunnable =>
    rcases List.mem_append.mp hjob with hjob | hjob
    · exact hold hjob
    · obtain rfl := List.mem_singleton.mp hjob
      exact ⟨hrunnable.row, hrunnable.reservation, hrunnable.plain⟩
  | _ => exact hold hjob

private theorem started' {x : String × Bool} (hx : x ∈ s'.started) :
    ∃ job ∈ s'.jobs, job.id = x.1 ∧ job.dryRun = x.2 := by
  have hgrows := hchange.grows
  have hold : x ∈ s.started → ∃ job ∈ s'.jobs, job.id = x.1 ∧ job.dryRun = x.2 := by
    intro hx
    obtain ⟨job, hjob, hmode⟩ := h.started x hx
    exact ⟨job, hgrows.mem_jobs hjob, hmode⟩
  cases hchange with
  | frame _ hrest | insert _ hrest => exact hold (hrest.started ▸ hx)
  | start hjob =>
    rcases List.mem_append.mp hx with hx | hx
    · exact hold hx
    · obtain rfl := List.mem_singleton.mp hx
      exact ⟨_, hjob, rfl, rfl⟩
  | _ => exact hold hx

private theorem asked' (hm : m ∈ s'.asked) : ∃ job ∈ s'.jobs, AskedBy cfg job m := by
  have hgrows := hchange.grows
  have hold : m ∈ s.asked → ∃ job ∈ s'.jobs, AskedBy cfg job m := by
    intro hm
    obtain ⟨job, hjob, hasked⟩ := h.asked m hm
    exact ⟨job, hgrows.mem_jobs hjob, hasked⟩
  cases hchange with
  | frame _ hrest | insert _ hrest => exact hold (hrest.asked ▸ hm)
  | ask m' hjob hasked =>
    rcases List.mem_append.mp hm with hm | hm
    · exact hold hm
    · obtain rfl := List.mem_singleton.mp hm
      exact ⟨_, hjob, hasked⟩
  | _ => exact hold hm

private theorem merges' (hm : m ∈ s'.merges) :
    ∃ job ∈ s'.jobs, job.dryRun = false ∧ AskedBy cfg job m := by
  have hgrows := hchange.grows
  have hold : m ∈ s.merges → ∃ job ∈ s'.jobs, job.dryRun = false ∧ AskedBy cfg job m := by
    intro hm
    obtain ⟨job, hjob, hdry, hasked⟩ := h.merges m hm
    exact ⟨job, hgrows.mem_jobs hjob, hdry, hasked⟩
  cases hchange with
  | frame _ hrest | insert _ hrest => exact hold (hrest.merges ▸ hm)
  | apply m' hjob hdry hasked =>
    rcases mem_merges_applyMerge hm with hm | rfl
    · exact hold hm
    · exact ⟨_, hjob, hdry, hasked⟩
  | _ => exact hold hm

end

private theorem replayed' (h : Replayed s) (hchange : Change cfg d l s s') : Replayed s' := by
  cases hchange with
  | frame _ hrest | insert _ hrest =>
    constructor
    · rw [hrest.merges, hrest.control]
      exact h.targets
    · rw [hrest.merges, hrest.control]
      exact h.receipts
    · rw [hrest.merges]
      exact h.once
  | apply m _ _ _ => exact h.applyMerge m
  | _ => exact ⟨h.targets, h.receipts, h.once⟩

/-- Every change keeps the invariant. -/
theorem change (h : Effects cfg s) (hids : s.db.Distinct)
    (hchange : Change cfg d l s s') : Effects cfg s' where
  dispatched hlocal _ hr hstatus := h.dispatched' hchange hlocal hr hstatus
  reservations _ hx := h.reservations' hchange hx
  once hlocal := h.once' hchange hids hlocal
  jobs _ hjob := h.jobs' hchange hjob
  started _ hx := h.started' hchange hx
  channels _ hx := h.channels' hchange hx
  receipts _ hx := h.receipts' hchange hx
  succeeded hlocal _ hr hstatus := h.succeeded' hchange hids hlocal hr hstatus
  asked _ hm := h.asked' hchange hm
  merges _ hm := h.merges' hchange hm
  replayed := replayed' h.replayed hchange

end Effects

end Argus.System

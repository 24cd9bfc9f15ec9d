import Argus.System.Runs

/-!
# Execution by workers

With the local executor a remediation is reserved once. Its handlers run in the mode of that reservation,
never once it is cancelled, and however often its job is delivered they change control state once.
-/

namespace Argus.System

open Remediation (RemediationAction SameAction Status)
open Workers (Handler Merge TypedHandler findHandler)
open Interleave (CanReturn Silent)

variable {cfg : Config} {s : Shared} {w w' : World}

/-! ## Jobs and their rows -/

variable {job r : RemediationAction}

/-- The row of a job. -/
theorem row_of_mem_jobs (hinv : Invariant cfg .none s) (hjob : job ∈ s.jobs) :
    ∃ r ∈ s.db.remediations, SameAction job r ∧
      (cfg.executor = .localQueue → isClaimed r.status = true ∧ r.dryRun = job.dryRun) :=
  (hinv.tables.effects.jobs job hjob).row

theorem not_started_of_isCancelled (hinv : Invariant cfg .none s)
    (hlocal : cfg.executor = .localQueue) {id : String} (hid : IsCancelled id s) :
    ∀ x ∈ s.started, x.1 ≠ id := by
  rintro x hx rfl
  obtain ⟨r, hr, hrid, hcancelled⟩ := hid
  obtain ⟨job, hjob, hjobid, -⟩ := hinv.tables.effects.started x hx
  obtain ⟨r', hr', hsame, hclaimed⟩ := row_of_mem_jobs hinv hjob
  obtain rfl := Table.eq_of_key_eq hinv.ids hr' hr (hsame.id.trans (hjobid.trans hrid.symm))
  have hclaimed := (hclaimed hlocal).1
  rw [hcancelled] at hclaimed
  cases hclaimed

/-- No handler ever ran, or ever runs, for a remediation that is cancelled, and so for one that a `Cancel`
call reported as cancelled. -/
theorem cancelled_never_executed (hlocal : cfg.executor = .localQueue) (h : Reachable cfg w)
    (hrun : Continues cfg w w') :
    (∀ r ∈ w.shared.db.remediations, r.status = .cancelled →
      ∀ x ∈ w'.shared.started, x.1 ≠ r.id) ∧
    ∀ i id actor, w.procs i = some (.cancel id actor, .ret (.done (.ok ()))) →
      ∀ x ∈ w'.shared.started, x.1 ≠ id := by
  have hnever {id : String} (hid : IsCancelled id w.shared) :
      ∀ x ∈ w'.shared.started, x.1 ≠ id := by
    obtain ⟨hw', hid'⟩ := (keeps_isCancelled cfg .none id).continues h hrun hid
    exact not_started_of_isCancelled (invariant_of_reachable hw') hlocal hid'
  refine ⟨fun r hr hcancelled => hnever ⟨r, hr, rfl, hcancelled⟩, fun i id actor hp => ?_⟩
  exact hnever (promised_of_reachable h hp)

/-- A remediation is reserved and cancelled; its job is delivered afterwards. -/
theorem cancelled_never_executed_delivered :
    ∃ w, Reachable (defaultConfig .localQueue) w ∧ ∃ r ∈ w.shared.db.remediations,
      r.status = .cancelled ∧ ∀ x ∈ w.shared.started, x.1 ≠ r.id := by
  obtain ⟨w, hw, hrows⟩ := exists_reachable (defaultConfig .localQueue)
    (reservedPod false ++ [.start (.cancel "rem_1" "ops"), .act 3 {}, .act 3 {},
      .start (.handleMessage ⟨some "rem_1", 1⟩), .act 4 {}])
    (fun w => w.shared.db.remediations.any fun r => r.status == .cancelled) (by decide +kernel)
  obtain ⟨r, hr, hcancelled⟩ := List.any_eq_true.mp hrows
  have hcancelled : r.status = .cancelled := by simpa using hcancelled
  exact ⟨w, hw, r, hr, hcancelled, (cancelled_never_executed rfl hw .refl).1 r hr hcancelled⟩

/-! ## Effects on control state -/

/-- The parameters of a job are those of its row, as read back. -/
theorem parameters_of_sameAction (h : SameAction job r) (hplain : job.parameters.Plain) :
    job.parameters = r.decoded.parameters := by
  refine Parameters.eq_of_stored_eq hplain (Parameters.plain_decoded _) ?_
  exact h.parameters.symm.trans (Parameters.stored_decoded r.parameters).symm

/-- What a job asks for is what its row asks for. -/
theorem merge_of_sameAction (t : TypedHandler) (h : SameAction job r)
    (hplain : job.parameters.Plain) : t.merge job = t.merge r.decoded := by
  have hparameters := parameters_of_sameAction h hplain
  cases t <;>
    simp [TypedHandler.merge, TypedHandler.desired, hparameters, RemediationAction.decoded,
      h.idempotencyKey, h.target]

/-- Every merge was asked for by the remediation whose key it carries, reserved for a real run. -/
theorem exists_of_mem_merges (hinv : Invariant cfg .none s) (hlocal : cfg.executor = .localQueue)
    {m : Merge} (hm : m ∈ s.merges) :
    ∃ r ∈ s.db.remediations, m.idempotencyKey = r.idempotencyKey ∧
      (∃ t, findHandler cfg.handlers r.actionType = some (.typed t) ∧ m = t.merge r.decoded) ∧
      ∃ x ∈ s.reservations, x.remediationID = r.id ∧ x.dryRun = false := by
  obtain ⟨job, hjob, hdry, ⟨t, hhandler, -, rfl⟩⟩ := hinv.tables.effects.merges m hm
  have hrunnable := hinv.tables.effects.jobs job hjob
  obtain ⟨r, hr, hsame, -⟩ := hrunnable.row
  obtain ⟨x, hx, hxid, hxdry⟩ := hrunnable.reservation hlocal
  exact ⟨r, hr, hsame.idempotencyKey.symm,
    ⟨t, hsame.actionType.symm ▸ hhandler, merge_of_sameAction t hsame hrunnable.plain⟩,
    x, hx, hxid.trans hsame.id.symm, hxdry.trans hdry⟩

/-- There is a merge for each receipt. -/
theorem exists_merge_of_receipt (hinv : Invariant cfg .none s) {x : Workers.Receipt}
    (hx : x ∈ s.db.control.receipts) : ∃ m ∈ s.merges, m.idempotencyKey = x.idempotencyKey := by
  have hkeys := hinv.tables.effects.replayed.receipts
  have hmem : x.idempotencyKey ∈ s.db.control.receipts.map (·.idempotencyKey) :=
    List.mem_map_of_mem hx
  rw [← hkeys] at hmem
  exact List.mem_map.mp hmem

/-- The merges that were made under a key. -/
def Shared.mergesUnder (s : Shared) (key : String) : List Merge :=
  s.merges.filter fun m => m.idempotencyKey = key

def Shared.receiptsUnder (s : Shared) (key : String) : List Workers.Receipt :=
  s.db.control.receipts.filter fun x => x.idempotencyKey = key

/-- The merges of a remediation: none, or the one it asks for. -/
theorem mergesUnder_cases (hinv : Invariant cfg .none s) (hlocal : cfg.executor = .localQueue)
    (hr : r ∈ s.db.remediations) :
    s.mergesUnder r.idempotencyKey = [] ∨
      ∃ t, findHandler cfg.handlers r.actionType = some (.typed t) ∧
        s.mergesUnder r.idempotencyKey = [t.merge r.decoded] ∧
        ∃ x ∈ s.reservations, x.remediationID = r.id ∧ x.dryRun = false := by
  cases hmerges : s.mergesUnder r.idempotencyKey with
  | nil => exact .inl rfl
  | cons m rest =>
    have hm : m ∈ s.mergesUnder r.idempotencyKey := hmerges ▸ List.mem_cons_self
    rw [Shared.mergesUnder, List.mem_filter] at hm
    obtain ⟨hm, hkey⟩ := hm
    have hkey : m.idempotencyKey = r.idempotencyKey := by simpa using hkey
    obtain ⟨r', hr', hkey', ⟨t, hhandler, rfl⟩, hreservation⟩ :=
      exists_of_mem_merges hinv hlocal hm
    obtain rfl := Table.eq_of_key_eq hinv.tables.coupling.keys hr' hr (hkey'.symm.trans hkey)
    refine .inr ⟨t, hhandler, ?_, hreservation⟩
    rw [← hmerges, Shared.mergesUnder, ← hkey]
    exact Table.filter_key_eq hinv.tables.effects.replayed.once hm

theorem not_canReturn_dispatchReserved {i : ℕ} {id actor dispatchID : String} {dryRun : Bool} :
    ¬ CanReturn (.executed true) (dispatchReserved cfg i id dryRun actor dispatchID) := by
  unfold dispatchReserved
  intro h
  split at h
  · obtain ⟨_, -, h⟩ := CanReturn.of_bind h
    cases Interleave.canReturn_ret h
  · obtain ⟨e | outcome, -, h⟩ := CanReturn.of_bind h
    · obtain ⟨_, -, h⟩ := CanReturn.of_bind h
      cases Interleave.canReturn_ret h
    · obtain ⟨e | _, -, h⟩ := CanReturn.of_bind h <;> cases Interleave.canReturn_ret h

/-- An `Execute` call that reuses an execution changes nothing. -/
theorem silent_execute (cfg : Config) (i : ℕ) (id : String) (dryRun : Bool) (actor : String) :
    Silent (· = .executed true) (execute cfg i id dryRun actor) := by
  refine Silent.bind silent_query ?_
  rintro (e | remediation)
  · exact Silent.ret _
  dsimp only
  split
  · exact Silent.ret _
  split
  · exact Silent.ret _
  refine Silent.bind silent_query ?_
  rintro (e | incident)
  · exact Silent.ret _
  dsimp only
  split
  · exact Silent.ret _
  refine Silent.bind (silent_transactOn ?_) ?_
  · rintro o s dispatchID s' - ⟨_, rfl, h⟩
    exact absurd h not_canReturn_dispatchReserved
  · rintro (e | dispatchID)
    · refine Silent.bind silent_query ?_
      rintro (e' | latest) <;> exact Silent.ret _
    · refine Silent.of_not_canReturn ?_
      rintro _ rfl
      exact not_canReturn_dispatchReserved

/-- The answer of an `Execute` call that found another execution. -/
def Reuses (c : Call) (a : Answer) : Prop :=
  (∃ id dryRun actor, c = .execute id dryRun actor) ∧ a = .executed true

theorem silent_reuses (cfg : Config) (i : ℕ) (c : Call) : Silent (Reuses c) (program cfg i c) := by
  cases c with
  | execute id dryRun actor =>
    have hreuses : Reuses (.execute id dryRun actor) = (· = Answer.executed true) := by
      funext a
      simp [Reuses]
    rw [hreuses]
    exact silent_execute cfg i id dryRun actor
  | _ =>
    refine Silent.of_not_canReturn ?_
    rintro a ⟨⟨id, dryRun, actor, h⟩, -⟩
    cases h

/-! ## One reservation -/

/-- With the local executor one call reserves a remediation, and its handlers run in the mode of that call.
Every other `Execute` call that returns without an error reports that it reused the execution, and none of
its steps changed anything. -/
theorem reservation_fixes_mode (hlocal : cfg.executor = .localQueue) (h : Reachable cfg w) :
    (∀ id, (w.shared.reservations.filter fun x => x.remediationID = id).length ≤ 1) ∧
    (∀ id, (w.shared.db.dispatches.filter fun x =>
      x.remediationID = id ∧ x.reason = .execute).length ≤ 1) ∧
    (∀ x ∈ w.shared.started, ∃ y ∈ w.shared.reservations,
      y.remediationID = x.1 ∧ y.dryRun = x.2) ∧
    ∀ i id dryRun actor reused,
      w.procs i = some (.execute id dryRun actor, .ret (.executed reused)) →
      ⟨i, id, dryRun⟩ ∉ w.shared.reservations →
      reused = true ∧ ∀ w₁ w₂ o, Reachable cfg w₁ →
        (argus cfg).step w₁ (.act i o) = some w₂ → Continues cfg w₂ w →
        w₂.shared = w₁.shared := by
  have hinv := invariant_of_reachable h
  refine ⟨fun id => Table.length_filter_key_le_one (hinv.tables.effects.once hlocal) id,
    fun id => ?_, fun x hx => ?_, fun i id dryRun actor reused hp hother => ?_⟩
  · have hone := Table.length_filter_key_le_one (hinv.tables.delivery.once hlocal) id
    rw [List.filter_filter] at hone
    simpa [Bool.decide_and] using hone
  · obtain ⟨job, hjob, hid, hdry⟩ := hinv.tables.effects.started x hx
    obtain ⟨y, hy, hyid, hydry⟩ := (hinv.tables.effects.jobs job hjob).reservation hlocal
    exact ⟨y, hy, hyid.trans hid, hydry.trans hdry⟩
  · have hreused : reused = true := by
      by_contra hnot
      obtain rfl : reused = false := by simpa using hnot
      exact hother (promised_of_reachable h hp)
    refine ⟨hreused, fun w₁ w₂ o hw₁ hstep hrun => ?_⟩
    rw [hreused] at hp
    exact Interleave.System.unchanged_of_returns (silent_reuses cfg) hw₁ hstep hrun hp
      ⟨⟨id, dryRun, actor, rfl⟩, rfl⟩

/-- The process answered that it reused an execution it has not reserved itself. -/
private def reuses (i : ℕ) (w : World) : Bool :=
  match w.procs i with
  | some (.execute _ _ _, .ret (.executed reused)) =>
    reused && w.shared.reservations.all fun x => x.pid != i
  | _ => false

/-- The second of two `Execute` calls, in another mode. -/
theorem reservation_fixes_mode_second :
    ∃ w, Reachable (defaultConfig .localQueue) w ∧ ∃ id dryRun actor reused,
      w.procs 3 = some (.execute id dryRun actor, .ret (.executed reused)) ∧ reused = true ∧
        ∀ w₁ w₂ o, Reachable (defaultConfig .localQueue) w₁ →
          (argus (defaultConfig .localQueue)).step w₁ (.act 3 o) = some w₂ →
          Continues (defaultConfig .localQueue) w₂ w → w₂.shared = w₁.shared := by
  obtain ⟨w, hw, hreuses⟩ := exists_reachable (defaultConfig .localQueue)
    (reservedPod false ++ [.start (.execute "rem_1" true "lead"), .act 3 {}]) (reuses 3)
    (by decide +kernel)
  unfold reuses at hreuses
  split at hreuses
  · rename_i id dryRun actor reused hp
    simp only [Bool.and_eq_true, List.all_eq_true, bne_iff_ne] at hreuses
    have hother : ⟨3, id, dryRun⟩ ∉ w.shared.reservations := fun hmem => hreuses.2 _ hmem rfl
    obtain ⟨-, -, -, hall⟩ := reservation_fixes_mode rfl hw
    exact ⟨w, hw, id, dryRun, actor, reused, hp, hall 3 id dryRun actor reused hp hother⟩
  · cases hreuses

end Argus.System

import Argus.System.ProposalSafety

/-!
# Safety of decisions and cancellations

A decision validates the request it read, and the transaction decides that same request. A cancellation
that was answered without an error leaves its remediation cancelled for good.
-/

namespace Argus.System

open Interleave (Spec Safe Yields)
open Remediation (Time RemediationAction Failure Status Write)
open Approvals (Request SameRequest Decision)

variable {cfg : Config} {d : Discipline} {i : ℕ} {s : Shared}

/-! ## Settlements -/

/-- A request that was read is still there. -/
def Listed (request : Request) (s : Shared) : Prop := ∃ q ∈ s.db.approvals, SameRequest request q

theorem keeps_listed (cfg : Config) (d : Discipline) (request : Request) :
    Keeps cfg d (Listed request) := by
  rintro l s s' htables hchange ⟨q, hq, hsame⟩
  obtain ⟨q', hq', hsame', -⟩ := hchange.request_of_mem htables.coupling.requestIDs hq
  exact ⟨q', hq', hsame.trans hsame'⟩

variable {request : Request}

theorem settlement_expireRequest {q : Request} (now : Time) (hq : q ∈ s.db.approvals)
    (hpending : q.status = .pending) (hsame : SameRequest request q) :
    Settlement cfg s.db (s.db.expireRequest now request) := by
  have heq : s.db.expireRequest now request = s.db.expireRequest now q := by
    rw [Db.expireRequest, Db.expireRequest, hsame.id, hsame.remediationID]
  rw [heq]
  exact .mk now q .expire .expireAwaiting hq hpending .expire (by simp [requestEntry])

variable {db : Db} {actor id reason : String} {now : Time}

/-- The decision transaction, for a request that its caller has read and validated. -/
theorem settlement_decide {actorType source : String} {decision : Decision} {out : Db.Decided}
    (hids : (s.db.approvals.map (·.id)).Nodup) (hlisted : Listed request s) (hid : request.id = id)
    (hnamed : Strings.trimSpace actor ≠ "" ∧ actor ≠ "system")
    (hreason : Strings.trimSpace reason ≠ "")
    (hseparate : cfg.allowSelf = false → Strings.equalFold cfg.fold (Strings.trimSpace
      request.requestedBy) (Strings.trimSpace actor) = false)
    (h : s.db.decide id actor actorType decision reason source now = .ok (out, db)) :
    Settlement cfg s.db db := by
  unfold Db.decide at h
  split at h
  · cases h
  · rename_i q hget
    obtain ⟨hq, hqid⟩ := Approvals.mem_of_get hget
    split_ifs at h with hpending hexpired haffects
    · cases h
      exact settlement_expireRequest _ hq (not_not.mp hpending) (.refl q)
    · cases h
      -- the row that was validated is the row that is decided
      obtain ⟨q', hq', hsame⟩ := hlisted
      obtain rfl := Table.eq_of_key_eq hids hq' hq (hsame.id.trans (hid.trans hqid.symm))
      have hsettles : Settles cfg q' (.decide decision now.column actor reason source)
          (Db.decisionWrite decision actor) := by
        cases decision with
        | deny => exact .deny
        | approve =>
          refine .approve ⟨hnamed, hreason, ?_, ?_⟩
          · rw [hsame.requestedBy]
            exact hseparate
          · exact lt_of_le_of_lt now.column_le (not_le.mp hexpired)
      subst hqid
      exact .mk now.column q' _ _ hq (not_not.mp hpending) hsettles (by simp [requestEntry])

variable {remediationID : String}

theorem settlement_cancelRequest (h : s.db.cancelRequest remediationID actor reason now = .ok db) :
    Settlement cfg s.db db := by
  unfold Db.cancelRequest at h
  split at h
  · cases h
  · rename_i q hget
    obtain ⟨hq, rfl⟩ := Approvals.mem_of_getByRemediation hget
    split_ifs at h with hpending haffects
    obtain rfl := Except.ok.inj h
    exact .mk now.column q _ _ hq (not_not.mp hpending) .cancel (by simp [requestEntry])

/-- The sweep of one request that its caller found pending. -/
theorem expire_step (now : Time) {o : Oracle} (hids : (s.db.approvals.map (·.id)).Nodup)
    (hlisted : Listed request s) :
    Step cfg d i .expire o s (s.withDb (s.db.expire now request).2) := by
  unfold Db.expire
  split
  · rename_i hpending
    obtain ⟨q, hq, hqid, hstatus⟩ := hpending
    obtain ⟨q', hq', hsame⟩ := hlisted
    obtain rfl := Table.eq_of_key_eq hids hq' hq (hsame.id.trans hqid.symm)
    exact .settle (settlement_expireRequest _ hq hstatus hsame) rfl
  · exact Step.nothing o s

/-! ## Decisions -/

theorem readClock_yields : Yields (specification cfg d) i (fun _ => True) readClock := by
  refine perform_yields ?_
  intro o s b s' _ _ h
  cases h
  exact Step.nothing o s

theorem decide_yields {decision source : String} :
    Yields (specification cfg d) i (fun _ => True) (decide cfg id actor decision reason source) := by
  unfold decide
  split
  · exact Yields.ret trivial
  rename_i decided hvalid
  obtain ⟨hblank, hsystem, hreason⟩ := Approvals.validateDecision_eq_ok hvalid
  refine Yields.bind readClock_yields fun started _ => ⟨fun s => ?_⟩
  refine Safe.bind (safe_query (fun _ => True) ((keeps_const cfg d _).stable i _) trivial ?_
    fun e s₁ _ _ => Safe.ret trivial)
  intro o s₁ found hinv _ hfound
  obtain rfl := Except.ok.inj hfound
  split
  · exact Safe.ret trivial
  · exact Safe.ret trivial
  · rename_i request hget
    obtain ⟨hmem, hid⟩ := Approvals.mem_of_get (Except.ok.inj hget)
    split
    · exact Safe.ret trivial
    · rename_i hseparate
      have hlisted : Listed request s₁ := ⟨request, hmem, .refl request⟩
      refine Safe.bind (safe_transact _ ((keeps_listed cfg d request).stable i _) hlisted ?_ ?_)
      · intro o s₂ b s₃ hinv _ hlisted hf
        obtain ⟨⟨out, db⟩, hdb, heq⟩ := exists_of_map_eq_ok hf
        cases heq
        have hsettlement : Settlement cfg s₂.db db :=
          settlement_decide hinv.tables.coupling.requestIDs hlisted hid ⟨hblank, hsystem⟩ hreason
            (Approvals.validateSeparation_eq_ok hseparate) hdb
        refine ⟨.settle hsettlement rfl, ?_⟩
        cases out <;> exact Safe.ret trivial
      · intro e s₂ _ _
        exact Safe.ret trivial

theorem decideByRemediation_yields {decision : String} :
    Yields (specification cfg d) i (fun _ => True)
      (decideByRemediation cfg remediationID actor decision reason) := by
  refine Yields.bind query_yields ?_
  rintro (e | _ | request) -
  · exact Yields.ret trivial
  · exact Yields.ret trivial
  · dsimp only
    exact decide_yields

/-! ## Cancellation -/

/-- The remediation is cancelled. -/
def IsCancelled (id : String) (s : Shared) : Prop :=
  ∃ r ∈ s.db.remediations, r.id = id ∧ r.status = .cancelled

/-- Nothing leaves `cancelled`. -/
theorem keeps_isCancelled (cfg : Config) (d : Discipline) (id : String) :
    Keeps cfg d (IsCancelled id) := by
  rintro l s s' - hchange ⟨r, hr, hid, hstatus⟩
  obtain ⟨r', hr', hrow⟩ := hchange.row hr
  refine ⟨r', hr', hrow.sameProposal.id.trans hid, ?_⟩
  have hterminal : r.status.isTerminalState = true := by rw [hstatus]; rfl
  exact (hrow.terminal hterminal).1.trans hstatus

/-- An update that affects a row leaves it in its status. -/
theorem exists_mem_write {w : Write} (h : db.affects id w = true) :
    ∃ r ∈ (db.write now id w).remediations, r.id = id ∧ r.status = w.status := by
  obtain ⟨r, hr, hid, hguard⟩ := Remediation.affects_iff.mp h
  obtain ⟨r', hr', ⟨-, hnot⟩ | ⟨rfl, -, -⟩⟩ := Remediation.exists_mem_updateWhere now id w hr
  · exact absurd ⟨hid, hguard⟩ hnot
  · exact ⟨_, hr', (w.sameProposal_set now r).id.trans hid, w.status_set now r⟩

theorem isCancelled_of_cancelRequest
    (h : s.db.cancelRequest remediationID actor reason now = .ok db) :
    IsCancelled remediationID (s.withDb db) := by
  unfold Db.cancelRequest at h
  split at h
  · cases h
  · split_ifs at h with hpending haffects
    obtain rfl := Except.ok.inj h
    simp only [Bool.not_eq_true, Bool.not_eq_false'] at haffects
    exact exists_mem_write haffects

theorem cancelByRemediation_safe :
    Safe (specification cfg d) i (fun a s => a = .done (.ok ()) → IsCancelled remediationID s)
      (cancelByRemediation remediationID actor reason) s := by
  unfold cancelByRemediation
  split
  · exact Safe.ret fun h => by cases h
  refine Safe.bind (safe_transact (fun _ => True) ((keeps_const cfg d _).stable i _) trivial ?_ ?_)
  · intro o s₁ b s₂ _ _ _ hf
    obtain ⟨db, hdb, heq⟩ := exists_of_map_eq_ok hf
    cases heq
    exact ⟨.settle (settlement_cancelRequest hdb) rfl,
      Safe.ret fun _ => isCancelled_of_cancelRequest hdb⟩
  · intro e s₁ _ _
    exact Safe.ret fun h => by cases h

theorem cancel_safe :
    Safe (specification cfg d) i (fun a s => a = .done (.ok ()) → IsCancelled id s)
      (cancel id actor) s := by
  refine Safe.bind ((query_yields.safe s).mono ?_)
  rintro (e | remediation) s₁ -
  · exact Safe.ret fun h => by cases h
  dsimp only
  split
  · exact cancelByRemediation_safe
  rename_i hne
  split
  · exact Safe.ret fun h => by cases h
  rename_i hcan
  refine Safe.bind (safe_transactOn (fun _ => True) ((keeps_const cfg d _).stable i _) trivial ?_ ?_)
  · intro o s₂ applied s₃ _ hpermitted hfree _ hf
    obtain ⟨happlied, rfl⟩ := Prod.mk.inj (Except.ok.inj hf)
    unfold Db.cancel at happlied ⊢
    by_cases haffects : s₂.db.affects id (.cancel remediation.status) = true
    · rw [if_pos haffects] at happlied ⊢
      obtain rfl := happlied
      refine ⟨.cancel hne (by simpa using hcan) hfree haffects hpermitted.exclusive, ?_⟩
      exact Safe.ret fun _ => exists_mem_write haffects
    · rw [if_neg haffects] at happlied ⊢
      obtain rfl := happlied
      refine ⟨Step.nothing o s₂, Safe.bind ((query_yields.safe _).mono ?_)⟩
      rintro (e | latest) s₄ - <;> exact Safe.ret fun h => by cases h
  · intro e s₂ _ _
    exact Safe.ret fun h => by cases h

/-! ## Expiry -/

theorem keeps_listed_all (cfg : Config) (d : Discipline) (due : List Request) :
    Keeps cfg d fun s => ∀ request ∈ due, Listed request s :=
  fun l s s' htables hchange h request hmem =>
    keeps_listed cfg d request l s s' htables hchange (h request hmem)

theorem expireEach_safe {due : List Request} (hs : ∀ request ∈ due, Listed request s) :
    Safe (specification cfg d) i (fun _ _ => True) (expireEach now due) s := by
  induction due generalizing s with
  | nil => exact Safe.ret trivial
  | cons request rest ih =>
    refine Safe.bind (safe_transact _ ((keeps_listed_all cfg d _).stable i _) hs ?_ ?_)
    · intro o s₁ b s₂ hinv _ hlisted hf
      cases hf
      have hstep : Step cfg d i .expire o s₁ (s₁.withDb (s₁.db.expire now request).2) :=
        expire_step now hinv.tables.coupling.requestIDs (hlisted request List.mem_cons_self)
      refine ⟨hstep, ih fun request' hmem => ?_⟩
      exact (keeps_listed cfg d request').step hinv hstep
        (hlisted request' (List.mem_cons_of_mem _ hmem))
    · intro e s₁ _ _
      exact Safe.ret trivial

theorem expireDue_yields : Yields (specification cfg d) i (fun _ => True) expireDue := by
  refine Yields.bind readClock_yields fun now _ => ⟨fun s => ?_⟩
  refine Safe.bind (safe_query (fun _ => True) ((keeps_const cfg d _).stable i _) trivial ?_
    fun e s₁ _ _ => Safe.ret trivial)
  intro o s₁ due _ _ hdue
  obtain rfl := Except.ok.inj hdue
  refine expireEach_safe fun request hmem => ?_
  have hsorted := List.mem_of_mem_take hmem
  rw [List.mem_insertionSort, List.mem_filter] at hsorted
  exact ⟨request, hsorted.1, .refl request⟩

end Argus.System

import Argus.System.Guarantee

/-!
# Safety of proposals and approvals

Each program of the proposal and approval services. A proposal carries what it counted from its queries to
its insert; a decision carries the request that it validated.
-/

namespace Argus.System

open Interleave (Spec Safe Yields)
open Incidents (Incident)
open Remediation (Time RemediationAction Failure Candidate Identity Status Write SameAction)
open Approvals (Request SameRequest RequestFor Decision)

variable {cfg : Config} {d : Discipline} {i : ℕ} {l : Label} {o : Oracle} {s : Shared}

/-! ## Requests -/

/-- A remediation for which a request may be created: it awaits approval, or has a request. -/
def Requestable (remediation : RemediationAction) (s : Shared) : Prop :=
  ∃ r ∈ s.db.remediations, SameAction remediation r ∧
    (r.status = .awaitingApproval ∨ ∃ q ∈ s.db.approvals, q.remediationID = remediation.id)

theorem keeps_requestable (cfg : Config) (d : Discipline) (remediation : RemediationAction) :
    Keeps cfg d (Requestable remediation) := by
  intro l s s' htables hchange hreq
  obtain ⟨r, hr, hsame, hstatus⟩ := hreq
  obtain ⟨r', hr', hrow⟩ := hchange.row hr
  refine ⟨r', hr', hsame.trans hrow.sameAction, ?_⟩
  have hkept : (∃ q ∈ s.db.approvals, q.remediationID = remediation.id) →
      ∃ q ∈ s'.db.approvals, q.remediationID = remediation.id := by
    rintro ⟨q, hq, hid⟩
    obtain ⟨q', hq', hsame', -⟩ := hchange.request_of_mem htables.coupling.requestIDs hq
    exact ⟨q', hq', hsame'.remediationID.trans hid⟩
  rcases hstatus with hawait | hrequest
  · cases hrow with
    | same => exact .inl hawait
    | @write now w hguard hlicensed =>
      -- no update outside of approvals touches a row that awaits one
      exfalso
      rw [hawait] at hguard
      cases w with
      | cancel expected =>
        have hexpected : Status.awaitingApproval = expected := by
          simpa [Write.guard] using hguard
        exact hlicensed.1 hexpected.symm
      | release | claim | markRunning _ | complete _ _ _ => cases hguard
      | _ => exact False.elim hlicensed
    | reserve now dryRun hstatus => simp [hawait] at hstatus
    | settle now hq hid _ _ _ => exact .inr (hkept ⟨_, hq, hid.trans hsame.id⟩)
  · exact .inr (hkept hrequest)

variable {remediation : RemediationAction}

/-- The insert of a request touches no remediation. -/
theorem insertRequest_step {q : Request} {db : Db} (hreq : Requestable remediation s)
    (hstatus : q.status = .pending) (hid : q.remediationID = remediation.id)
    (hfor : ∀ r, SameAction remediation r → RequestFor q r) (h : s.db.insertRequest q = .ok db) :
    Step cfg d i l o s (s.withDb db) := by
  unfold Db.insertRequest at h
  split_ifs at h with hconstraint hduplicate
  obtain rfl := Except.ok.inj h
  have hnew : ∀ q' ∈ s.db.approvals, q'.id ≠ q.id ∧ q'.remediationID ≠ q.remediationID := by
    intro q' hq'
    exact ⟨fun h => hduplicate ⟨q', hq', .inl h⟩, fun h => hduplicate ⟨q', hq', .inr h⟩⟩
  refine .quiet ⟨rfl, fun _ h => h.congr rfl, forall₂_sameDispatch_refl _, ⟨[_], rfl, ?_⟩, rfl, rfl,
    rfl, rfl, rfl, rfl⟩ ?_
  · intro e he
    obtain rfl := List.mem_singleton.mp he
    simp [requestEntry]
  · obtain ⟨r, hr, hsame, hawait | ⟨q', hq', hother⟩⟩ := hreq
    · exact Changes.record (.single (.request hstatus hr (hfor r hsame) hawait hnew)) _
    · exact absurd (hother.trans hid.symm) (hnew q' hq').2

variable {c : Candidate} {id incidentID : String}

theorem getByRemediation_safe {Q : Except Failure (Option Request) → Shared → Prop}
    (P : Shared → Prop) (hP : Keeps cfg d P) (hs : P s) (hQ : ∀ r s₁, P s₁ → Q r s₁) :
    Safe (specification cfg d) i Q (getByRemediation id) s :=
  safe_query P (hP.stable i _) hs (fun _ s₁ b _ hp _ => hQ (.ok b) s₁ hp)
    fun e s₁ _ hp => hQ (.error e) s₁ hp

theorem createRequest_safe (hs : Requestable remediation s) :
    Safe (specification cfg d) i (fun _ _ => True) (createRequest cfg incidentID remediation) s := by
  refine Safe.bind (getByRemediation_safe _ (keeps_requestable cfg d remediation) hs ?_)
  rintro (e | _ | q) s₁ hreq
  · exact Safe.ret trivial
  · refine Safe.bind (safe_transact _ ((keeps_requestable cfg d remediation).stable i _) hreq ?_ ?_)
    · intro o s₂ b s₃ hinv _ hreq hf
      obtain ⟨db, hdb, heq⟩ := exists_of_map_eq_ok hf
      cases heq
      exact ⟨insertRequest_step hreq rfl rfl (fun r hsame => Approvals.requestFor_newRequest hsame)
        hdb, Safe.ret trivial⟩
    · intro e s₂ _ hreq
      refine Safe.bind (getByRemediation_safe _ (keeps_const cfg d True) trivial ?_)
      rintro (_ | _ | _) s₃ - <;> exact Safe.ret trivial
  · exact Safe.ret trivial

theorem requestIfAwaiting_safe
    (hs : remediation.status = .awaitingApproval → Requestable remediation s) :
    Safe (specification cfg d) i (fun _ _ => True)
      (requestIfAwaiting cfg incidentID remediation) s := by
  unfold requestIfAwaiting
  split
  · rename_i hawait
    exact createRequest_safe (hs hawait)
  · exact Safe.ret trivial

/-! ## Propose -/

/-- What a proposal counted stays right. -/
theorem keeps_counted (cfg : Config) (d : Discipline) (k : Identity) (recent : ℕ) :
    Keeps cfg d fun s => d.proposals → Counted k recent s :=
  fun _ _ _ _ hchange h hd => (h hd).change hchange

/-- Nobody proposes an action between another proposal's first two queries. -/
theorem stable_noActive (cfg : Config) (d : Discipline) (i : ℕ) (k : Identity) :
    (specification cfg d).Stable i (some (.countRecent k)) fun s => d.proposals → NoActive k s := by
  rintro s s' ⟨-, hothers, -⟩ hs hd
  exact hothers.proposals hd k rfl (hs hd)

variable {incident : Incident} {actor role : String}

theorem insertProposal_safe {recent failed : ℕ}
    {Q : Except Failure RemediationAction → Shared → Prop}
    (hs : d.proposals → Counted (c.identity incident) recent s)
    (hok : ∀ action s₁, action ∈ s₁.db.remediations → Q (.ok action) s₁)
    (herr : ∀ e s₁, Q (.error e) s₁) :
    Safe (specification cfg d) i Q (insertProposal cfg incident c actor role recent failed) s := by
  refine safe_transact _ ((keeps_counted cfg d _ recent).stable i _) hs ?_ fun e s₁ _ _ => herr e s₁
  intro o s₁ b s₂ hinv hpermitted hcounted hf
  obtain ⟨db, hdb, heq⟩ := exists_of_map_eq_ok hf
  cases heq
  refine ⟨.insert hdb fun hd => ⟨hcounted hd, hpermitted.plain hd _ _ rfl⟩, hok _ _ ?_⟩
  obtain ⟨rows, hins, rfl⟩ := Db.insertRemediation_eq_ok hdb
  show _ ∈ rows
  rw [hins.eq]
  exact List.mem_append_right _ (List.mem_singleton.mpr rfl)

/-- A row that was read may get its request. -/
theorem requestable_decoded {r : RemediationAction} (hr : r ∈ s.db.remediations)
    (hawait : r.status = .awaitingApproval) : Requestable r.decoded s :=
  ⟨r, hr, Remediation.sameAction_decoded r, .inl hawait⟩

theorem proposeOne_yields :
    Yields (specification cfg d) i (fun _ => True) (proposeOne cfg incident actor role c) := by
  constructor
  intro s
  refine Safe.bind (safe_query (fun _ => True) ((keeps_const cfg d _).stable i _) trivial ?_
    fun e s₁ _ _ => Safe.ret trivial)
  intro o s₁ found hinv _ hfound
  obtain rfl := Except.ok.inj hfound
  split
  · exact Safe.ret trivial
  · -- an active row
    rename_i existing hexisting
    obtain ⟨r, hfind, rfl⟩ := Option.map_eq_some_iff.mp (Except.ok.inj hexisting)
    obtain ⟨hmem, -, -⟩ := Remediation.mem_of_findActive hfind
    refine Safe.bind ((requestIfAwaiting_safe fun hawait => requestable_decoded hmem hawait).mono ?_)
    rintro (_ | _) s₂ - <;> exact Safe.ret trivial
  · -- none: count, then insert
    rename_i hnone
    have hactive : NoActive (c.identity incident) s₁ :=
      Remediation.findActive_eq_none_iff.mp (Option.map_eq_none_iff.mp (Except.ok.inj hnone))
    refine Safe.bind (safe_query _ (stable_noActive cfg d i _) (fun _ => hactive) ?_
      fun e s₂ _ _ => Safe.ret trivial)
    intro o₂ s₂ recent hinv₂ hf hrecent
    obtain rfl := Except.ok.inj hrecent
    have hcounted : d.proposals → Counted (c.identity incident)
        (Remediation.countRecentSimilarRemediations s₂.db.remediations o₂.now
          (c.identity incident)) s₂ := fun hd => ⟨Remediation.countRecent_le _ _ _, fun _ => hf hd⟩
    refine Safe.bind (safe_query _ ((keeps_counted cfg d _ _).stable i _) hcounted ?_
      fun e s₃ _ _ => Safe.ret trivial)
    intro o₃ s₃ failed _ hc _
    refine Safe.bind (insertProposal_safe hc ?_ fun e s₄ => Safe.ret trivial)
    intro action s₄ hmem
    refine Safe.bind ((requestIfAwaiting_safe fun hawait =>
      ⟨action, hmem, .refl action, .inl hawait⟩).mono ?_)
    rintro (_ | _) s₅ - <;> exact Safe.ret trivial

/-- The incident of a proposal advances, and stays open. -/
theorem transitionIncident_yields {status : Incidents.Status} (hstatus : status.isClosed = false) :
    Yields (specification cfg d) i (fun _ => True) (transitionIncident id status) := by
  refine transact_yields ?_
  intro o s b s' _ _ hf
  cases hf
  refine .quiet ⟨rfl, fun id' hopen => ?_, forall₂_sameDispatch_refl _, ⟨[], by simp [Shared.withDb],
    by simp⟩, rfl, rfl, rfl, rfl, rfl, rfl⟩ (Changes.frame rfl (.of_db rfl rfl rfl))
  obtain ⟨x, hx, hxopen⟩ := hopen
  unfold Db.incident at hx
  split at hx
  · rename_i x' hfind
    obtain rfl := Except.ok.inj hx
    refine ⟨if x'.id = id ∧ x'.status.canTransition status then { x' with status := status }
      else x', ?_, ?_⟩
    · have hcomp : (fun i : Incident => i.id == id') ∘ (fun i : Incident =>
          if i.id = id ∧ i.status.canTransition status then { i with status := status } else i) =
            fun i => i.id == id' := by
        funext i
        dsimp only [Function.comp_apply]
        split <;> rfl
      simp only [Db.incident, Shared.withDb, Incidents.transitionIncident, List.find?_map, hcomp,
        hfind, Option.map_some]
    · split
      · exact hstatus
      · exact hxopen
  · cases hx

theorem propose_yields {candidates : List Candidate} :
    Yields (specification cfg d) i (fun _ => True)
      (propose cfg incident candidates actor role) := by
  have heach : ∀ awaiting, Yields (specification cfg d) i (fun _ => True)
      (proposeEach cfg incident actor role awaiting candidates) := by
    induction candidates with
    | nil =>
      intro awaiting
      refine Yields.bind (transitionIncident_yields ?_) fun _ _ => Yields.ret trivial
      cases awaiting <;> rfl
    | cons c rest ih =>
      intro awaiting
      refine Yields.bind proposeOne_yields ?_
      rintro (e | awaits) -
      · exact Yields.ret trivial
      · exact ih _
  unfold propose
  split
  · exact Yields.ret trivial
  · exact heach false

end Argus.System

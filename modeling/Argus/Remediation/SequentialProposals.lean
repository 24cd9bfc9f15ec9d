import Argus.Remediation.Proposal
import Mathlib.Data.List.Perm.Subperm

/-!
# One proposal at a time

The tables that `Propose` leaves when its calls do not overlap. A new key is fresh when the earlier rows
of its identity are all within the ten minutes that the attempt number counts, and no other identity is
spelled like it; without negative zeros in the parameters, only then.
-/

namespace Argus.Remediation

open Incidents (Incident)

/-- The tables that `Propose` leaves when its calls run one at a time, at arbitrary clock times, with
arbitrary changes of status in between. -/
inductive History (engine : Policy.Engine) : List RemediationAction → Prop
  | empty : History engine []
  | propose {rows rows' : List RemediationAction} (incident : Incident) (c : Candidate)
      (actor role id : String) (now clock : Time) (h : History engine rows)
      (hnone : findActiveRemediationByAction rows (c.identity incident) = none)
      (hcreate : createRemediation (proposal engine rows incident c actor role id now clock) rows
        = .ok rows') :
      History engine rows'
  | update {rows : List RemediationAction} (id : String) (status : Status)
      (h : History engine rows) :
      History engine (rows.map fun r => if r.id = id then { r with status := status } else r)

private theorem sameProposal_status (id : String) (status : Status) (r : RemediationAction) :
    SameProposal r (if r.id = id then { r with status := status } else r) := by
  split <;> constructor <;> rfl

variable {rows : List RemediationAction} {engine : Policy.Engine}

theorem History.numbered (h : History engine rows) : Numbered rows := by
  induction h with
  | empty => constructor <;> simp
  | propose incident c actor role id now clock h hnone hcreate ih =>
    exact ih.insert (numberedRow_proposal _ _ _ _ _ _ _ _ _)
      (inserted_of_createRemediation hcreate)
  | update id status h ih => exact ih.map (sameProposal_status id status)

theorem History.consecutive (h : History engine rows) (hplain : ∀ r ∈ rows, r.parameters.Plain) :
    Consecutive rows := by
  induction h with
  | empty => intro k a hpos hle; simp [countIdentity] at hle; omega
  | @propose rows rows' incident c actor role id now clock h hnone hcreate ih =>
    have hins := inserted_of_createRemediation hcreate
    rw [hins.eq] at hplain
    have hrows : ∀ r ∈ rows, r.parameters.Plain := fun r hr =>
      hplain r (List.mem_append_left _ hr)
    refine (ih hrows).insert ?_ hins
    exact h.numbered.attempt_eq (ih hrows) hrows
      (numberedRow_proposal _ _ _ _ _ _ _ _ _) (hplain _ (by simp)) hins.key
  | update id status h ih =>
    refine (ih fun r hr => ?_).map (sameProposal_status id status)
    rw [← (sameProposal_status id status r).parameters]
    exact hplain _ (List.mem_map_of_mem hr)

/-- Nothing stands in the way of a new key: the earlier rows of the identity are all recent, and no
other identity is spelled like it. -/
structure Unobstructed (rows : List RemediationAction) (now : Time) (incident : Incident)
    (c : Candidate) : Prop where
  recent : ∀ r ∈ rows, r.identity = c.identity incident → now - tenMinutes ≤ r.createdAt
  spelling : ∀ r ∈ rows, r.identity ≠ c.identity incident → r.spelling ≠ c.spelling incident

/-- Without parameters an identity has no more rows than there are attempt numbers. -/
private theorem Numbered.countIdentity_le (h : Numbered rows) {k : Identity}
    (hempty : ∀ r ∈ rows, r.identity = k → r.parameters.members = []) :
    countIdentity rows k ≤ maxInteger := by
  let same := rows.filter fun r => r.identity = k
  have hsame : ∀ r ∈ same, r ∈ rows ∧ r.identity = k := fun r hr => by
    simpa [same] using hr
  -- the key of such a row is a function of its attempt
  have hkey : ∀ r ∈ same, r.idempotencyKey =
      buildIdempotencyKey k.incidentID k.actionType k.target r.attempt .empty := fun r hr => by
    obtain ⟨hmem, rfl⟩ := hsame r hr
    have hparams : r.parameters = .empty := GoMap.ext (hempty r hmem rfl)
    rw [h.key r hmem, hparams]
    rfl
  have hnodup : (same.map (·.attempt)).Nodup := by
    apply List.Nodup.of_map
      fun n => buildIdempotencyKey k.incidentID k.actionType k.target n .empty
    have hkeys : (same.map (·.idempotencyKey)).Nodup :=
      h.keys.sublist (List.filter_sublist.map _)
    rw [List.map_congr_left hkey] at hkeys
    rwa [List.map_map]
  have hsub : same.map (·.attempt) ⊆ List.range' 1 maxInteger := by
    intro a ha
    obtain ⟨r, hr, rfl⟩ := List.mem_map.mp ha
    have hpos := h.pos r (hsame r hr).1
    have hle := h.le_maxInteger r (hsame r hr).1
    rw [List.mem_range'_1]
    omega
  have hlen := (List.subperm_of_subset hnodup hsub).length_le
  rwa [List.length_map, List.length_range', ← countIdentity_eq_length] at hlen

variable {c : Candidate} {incident : Incident} {r : RemediationAction} {actor id role : String}
  {clock now : Time}

/-- A proposal is never refused on the unique key when nothing obstructs it. -/
theorem Numbered.fresh_of_unobstructed (h : Numbered rows) (hun : Unobstructed rows now incident c) :
    ∀ r ∈ rows, r.idempotencyKey ≠
      (proposal engine rows incident c actor role id now clock).idempotencyKey := by
  intro r hr heq
  have hcount := countRecent_eq_iff.mpr hun.recent
  have hsmall : c.parameters.members = [] →
      countIdentity rows (c.identity incident) + 1 < 10 ^ 11 := fun hnil => by
    have hle := h.countIdentity_le (k := c.identity incident) fun r _ hk =>
      (Parameters.members_eq_nil_iff_of_stored_eq (congrArg Identity.parameters hk)).mpr hnil
    simp only [maxInteger] at hle
    omega
  have hsmall' : r.parameters.members = [] → r.attempt < 10 ^ 11 := fun _ => by
    have hle := h.le_maxInteger r hr
    simp only [maxInteger] at hle
    omega
  rw [h.key r hr, proposal, newRemediation, hcount] at heq
  obtain ⟨hjoined, hattempt, hsuffix⟩ := eq_of_buildIdempotencyKey_eq hsmall' hsmall heq
  by_cases hk : r.identity = c.identity incident
  · have hle := h.le_count r hr
    rw [hk] at hle
    omega
  · exact hun.spelling r hr hk (Prod.ext hjoined hsuffix)

/-- A row of the identity with attempt one, once the identity has a row. -/
private theorem Consecutive.exists_first (h : Consecutive rows) (hr : r ∈ rows) :
    ∃ first ∈ rows, first.identity = r.identity ∧ first.attempt = 1 := by
  have hpos : 0 < countIdentity rows r.identity := List.countP_pos_iff.mpr ⟨r, hr, by simp⟩
  exact h r.identity 1 (by decide) hpos

/-- Rows with the spelling of a candidate have its key at equal attempts. -/
private theorem key_eq_of_spelling_eq {i a t : String} {p : Parameters}
    (hjoined : joinedText r.incidentID r.actionType r.target = joinedText i a t)
    (hsuffix : digestSuffix r.parameters = digestSuffix p) (n : ℕ) :
    buildIdempotencyKey r.incidentID r.actionType r.target n r.parameters =
      buildIdempotencyKey i a t n p := by
  rw [buildIdempotencyKey, buildIdempotencyKey, hjoined, hsuffix]

/-- Without negative zeros a fresh key was unobstructed. -/
theorem unobstructed_of_fresh (h : Numbered rows) (hcons : Consecutive rows)
    (hplain : ∀ r ∈ rows, r.parameters.Plain) (hc : c.parameters.Plain)
    (hfresh : ∀ r ∈ rows, r.idempotencyKey ≠ (proposal engine rows incident c actor role id now
      clock).idempotencyKey) : Unobstructed rows now incident c := by
  have hrow := numberedRow_proposal engine rows incident c actor role id now clock
  have hnext := h.attempt_eq hcons hplain hrow hc hfresh
  refine ⟨countRecent_eq_iff.mp (Nat.succ.inj hnext), ?_⟩
  intro r hr hk hspelling
  obtain ⟨first, hfirst, hkfirst, hone⟩ := hcons.exists_first hr
  have hkey : ∀ n, buildIdempotencyKey first.incidentID first.actionType first.target n
      first.parameters = buildIdempotencyKey incident.id c.actionType c.target n c.parameters :=
    fun n => (key_eq_of_identity_eq (hplain first hfirst) (hplain r hr) hkfirst n).trans
      (key_eq_of_spelling_eq (Prod.ext_iff.mp hspelling).1 (Prod.ext_iff.mp hspelling).2 n)
  by_cases hnone : countIdentity rows (c.identity incident) = 0
  · -- the proposal is a first attempt, like the first row of the other identity
    apply hfresh first hfirst
    rw [h.key first hfirst, hone, hkey, hrow.key, hnext]
    have hsame : (proposal engine rows incident c actor role id now clock).identity =
      c.identity incident := rfl
    rw [hsame, hnone]
    rfl
  · -- both identities have a first row, with the same key
    obtain ⟨own, hown, hkown, hone'⟩ := hcons (c.identity incident) 1 (by decide) (by omega)
    have hkeys : own.idempotencyKey = first.idempotencyKey := by
      rw [h.key own hown, h.key first hfirst, hone, hone', hkey]
      have hsame : own.identity =
        (proposal engine rows incident c actor role id now clock).identity := hkown
      exact key_eq_of_identity_eq (hplain own hown) hc hsame 1
    have heq : own = first := Table.eq_of_key_eq h.keys hown hfirst hkeys
    exact hk (hkfirst.symm.trans (heq ▸ hkown))

/-- After any history of proposals made one at a time, the key of a new proposal differs from every
existing key, and the insert is not refused on it, when the earlier rows of the same incident, action,
target and parameters were all created within the last ten minutes and no row of other ones is spelled
the same. Unless a parameter is a negative zero, the key differs only then. -/
theorem proposal_key_fresh {engine : Policy.Engine} {rows : List RemediationAction}
    (h : History engine rows) (incident : Incident) (c : Candidate) (actor role id : String)
    (now clock : Time) :
    (Unobstructed rows now incident c →
      (∀ r ∈ rows, r.idempotencyKey ≠
        (proposal engine rows incident c actor role id now clock).idempotencyKey) ∧
      createRemediation (proposal engine rows incident c actor role id now clock) rows ≠
        .error .duplicateKey) ∧
    ((∀ r ∈ rows, r.parameters.Plain) → c.parameters.Plain →
      (∀ r ∈ rows, r.idempotencyKey ≠
        (proposal engine rows incident c actor role id now clock).idempotencyKey) →
      Unobstructed rows now incident c) := by
  refine ⟨fun hun => ?_, fun hplain hc hfresh =>
    unobstructed_of_fresh h.numbered (h.consecutive hplain) hplain hc hfresh⟩
  have hfresh : ∀ r ∈ rows, r.idempotencyKey ≠
      (proposal engine rows incident c actor role id now clock).idempotencyKey :=
    h.numbered.fresh_of_unobstructed hun
  refine ⟨hfresh, fun herror => ?_⟩
  unfold createRemediation at herror
  split_ifs at herror with hcheck hid hkey
  · injection herror with herror
    cases herror
  · injection herror with herror
    cases herror
  · obtain ⟨r, hr, heq⟩ := List.any_eq_true.mp hkey
    exact hfresh r hr (by simpa using heq)

/-! ## A failed action proposed again -/

/-- An incident in the environment where remediation is enabled. -/
def localIncident : Incident where
  id := "inc_1"
  severity := "high"
  service := "payments-api"
  environment := "local"
  status := .rcaGenerated

/-- The one action of low risk. -/
def diagnosticsCandidate : Candidate where
  actionType := "collect_diagnostics"
  target := "payments-api"
  risk := "low"
  parameters := .empty

/-- The engine of the default configuration. -/
def localEngine : Policy.Engine := Policy.newEngineForEnvironments ["local"]

/-- One proposal, made at time zero, that then failed. -/
def failedProposal : List RemediationAction :=
  [{ proposal localEngine [] localIncident diagnosticsCandidate "ops" "operator" "rem_1" 0 0 with
    status := .failed }]

private theorem history_failedProposal : History localEngine failedProposal := by
  have hfirst : History localEngine
      [proposal localEngine [] localIncident diagnosticsCandidate "ops" "operator" "rem_1" 0 0] :=
    .propose localIncident diagnosticsCandidate "ops" "operator" "rem_1" 0 0 .empty rfl rfl
  exact hfirst.update "rem_1" .failed

/-- Within the ten minutes the second attempt has a key of its own. -/
theorem proposal_key_fresh_retry :
    Unobstructed failedProposal 1000 localIncident diagnosticsCandidate ∧
      ∀ r ∈ failedProposal, r.idempotencyKey ≠ (proposal localEngine failedProposal localIncident
        diagnosticsCandidate "ops" "operator" "rem_2" 1000 1000).idempotencyKey := by
  have hun : Unobstructed failedProposal 1000 localIncident diagnosticsCandidate := by
    refine ⟨fun r hr _ => ?_, fun r hr hk => ?_⟩
    · obtain rfl := List.mem_singleton.mp hr
      decide
    · obtain rfl := List.mem_singleton.mp hr
      exact absurd rfl hk
  exact ⟨hun, ((proposal_key_fresh history_failedProposal localIncident diagnosticsCandidate "ops"
    "operator" "rem_2" 1000 1000).1 hun).1⟩

/-- Eleven minutes later the attempt number is one again, the key is that of the failed row, and the
insert is refused. -/
theorem proposal_repeats_key :
    History localEngine failedProposal ∧
      findActiveRemediationByAction failedProposal
        (diagnosticsCandidate.identity localIncident) = none ∧
      createRemediation (proposal localEngine failedProposal localIncident diagnosticsCandidate "ops"
        "operator" "rem_2" (660 * 10 ^ 9) (660 * 10 ^ 9)) failedProposal = .error .duplicateKey :=
  ⟨history_failedProposal, by rfl, by rfl⟩

end Argus.Remediation

import Argus.System.Locks

/-!
# The invariant of the tables, and of proposals

The invariants that every change keeps, taken together. Of proposals that do not overlap more is true: the
attempts of an action are numbered without a gap, and at most one of its rows is active.
-/

namespace Argus.System

open Remediation (Time RemediationAction Identity Status Write SameProposal Numbered Consecutive)

/-- What every change keeps. -/
structure Tables (cfg : Config) (d : Discipline) (s : Shared) : Prop where
  coupling : Coupling cfg s
  effects : Effects cfg s
  delivery : Delivery cfg s
  following : Following d s

section

variable {cfg : Config} {d : Discipline} {l : Label} {s s' : Shared}

theorem Tables.change (h : Tables cfg d s) (hchange : Change cfg d l s s') : Tables cfg d s' where
  coupling := h.coupling.change hchange
  effects := h.effects.change h.coupling.ids hchange
  delivery := h.delivery.change h.effects h.coupling.ids hchange
  following := h.following.change h.coupling.ids (h.coupling.change hchange).ids hchange

theorem Tables.changes (h : Tables cfg d s) (hchanges : Changes cfg d l s s') :
    Tables cfg d s' := by
  induction hchanges with
  | refl => exact h
  | tail _ hstep ih => exact ih.change hstep

/-! ## Rows, all at once -/

/-- A change that updates rows in place. -/
structure Updates (cfg : Config) (d : Discipline) (s : Shared)
    (f : RemediationAction → RemediationAction) : Prop where
  same : ∀ r, SameProposal r (f r)
  row : ∀ r ∈ s.db.remediations, RowChange cfg d s r (f r)

/-- Where no row is inserted, every row is updated in place. -/
theorem Change.updates (h : Change cfg d l s s') :
    (∃ f, Updates cfg d s f ∧ s'.db.remediations = s.db.remediations.map f) ∨
      ∃ incident c actor role id clock recent failed, l = .insert (c.identity incident) c.parameters ∧
        Remediation.Inserted
          (Remediation.newRemediation cfg.engine incident c actor role id clock recent failed)
          s.db.remediations s'.db.remediations := by
  have hwrite (now : Time) (id : String) (w : Write)
      (hrow : ∀ r ∈ s.db.remediations, r.id = id → w.guard r.status = true →
        RowChange cfg d s r (w.set now r)) :
      Updates cfg d s fun r => if r.id = id ∧ w.guard r.status = true then w.set now r else r := by
    constructor
    · intro r
      split
      · exact w.sameProposal_set now r
      · exact .refl r
    · intro r hr
      split
      · rename_i hmatch
        exact hrow r hr hmatch.1 hmatch.2
      · exact .same
  have hsame : Updates cfg d s id := ⟨fun r => .refl r, fun r _ => .same⟩
  cases h with
  | frame hrows _ => exact .inl ⟨id, hsame, by rw [hrows, List.map_id]⟩
  | insert hins _ => exact .inr ⟨_, _, _, _, _, _, _, _, rfl, hins⟩
  | write now id w hlicensed =>
    exact .inl ⟨_, hwrite now id w fun r _ hid hguard => .write now hguard (hid ▸ hlicensed), rfl⟩
  | reserve now pid id dryRun dispatches _ _ =>
    refine .inl ⟨_, hwrite now id (.markQueued dryRun) fun r _ _ hguard => ?_, rfl⟩
    exact .reserve now dryRun (by simpa [Write.guard] using hguard)
  | settle now q aw w hq hpending hsettles =>
    refine .inl ⟨_, hwrite now q.remediationID w fun r _ hid hguard => ?_, rfl⟩
    exact .settle now hq hid.symm hpending hsettles ((hsettles.guard_iff _).mp hguard)
  | _ => exact .inl ⟨id, hsame, (List.map_id _).symm⟩

/-- A row that is not active never becomes active. -/
theorem RowChange.inactive {r r' : RemediationAction} (h : RowChange cfg d s r r')
    (hr : r.isActive = false) : r'.isActive = false := by
  have hterminal : r.status.isTerminalState = true := by
    simpa [RemediationAction.isActive] using hr
  simp [RemediationAction.isActive, (h.terminal hterminal).1, hterminal]

/-! ## Counting rows -/

/-- Nobody makes a row active, or inserts one unnoticed. -/
theorem Counted.change {k : Identity} {recent : ℕ} (h : Counted k recent s)
    (hchange : Change cfg d l s s') : Counted k recent s' := by
  rcases hchange.updates with
    ⟨f, hf, hrows⟩ | ⟨incident, c, actor, role, id, clock, n, failed, -, hins⟩
  · refine ⟨?_, fun heq r' hr' hk => ?_⟩
    · rw [hrows, Remediation.countIdentity_map hf.same]
      exact h.le
    · rw [hrows, Remediation.countIdentity_map hf.same] at heq
      rw [hrows] at hr'
      obtain ⟨r, hr, rfl⟩ := List.mem_map.mp hr'
      exact (hf.row r hr).inactive (h.all heq r hr ((hf.same r).identity.symm.trans hk))
  · have hcount := Remediation.countIdentity_append s.db.remediations
      (Remediation.newRemediation cfg.engine incident c actor role id clock n failed) k
    rw [← hins.eq] at hcount
    refine ⟨?_, fun heq r' hr' hk => ?_⟩
    · rw [hcount]
      exact h.le.trans (Nat.le_add_right _ _)
    · -- a new row of the action would have been one more than was counted
      have hle := h.le
      rw [hcount] at heq
      split at heq
      · omega
      · rename_i hne
        rw [hins.eq, List.mem_append, List.mem_singleton] at hr'
        rcases hr' with hr' | rfl
        · exact h.all heq r' hr' hk
        · exact absurd hk hne

/-! ## Proposals that do not overlap -/

/-- The invariant of proposals that do not overlap. -/
structure Proposals (s : Shared) : Prop where
  numbered : Numbered s.db.remediations
  consecutive : Consecutive s.db.remediations
  plain : ∀ r ∈ s.db.remediations, r.parameters.Plain
  single : ∀ r ∈ s.db.remediations, ∀ r' ∈ s.db.remediations, r.identity = r'.identity →
    r.isActive = true → r'.isActive = true → r.id = r'.id

theorem Proposals.change (h : Proposals s) (hchange : Change cfg d .read s s') : Proposals s' := by
  rcases hchange.updates with ⟨f, hf, hrows⟩ | ⟨_, _, _, _, _, _, _, _, hl, -⟩
  · have hactive {r : RemediationAction} (hr : r ∈ s.db.remediations)
        (hfr : (f r).isActive = true) : r.isActive = true := by
      by_contra hnot
      rw [(hf.row r hr).inactive (by simpa using hnot)] at hfr
      cases hfr
    refine ⟨hrows ▸ h.numbered.map hf.same, hrows ▸ h.consecutive.map hf.same, ?_, ?_⟩
    · rw [hrows]
      refine List.forall_mem_map.mpr fun r hr => ?_
      rw [(hf.same r).parameters]
      exact h.plain r hr
    · rw [hrows]
      refine List.forall_mem_map.mpr fun r hr => List.forall_mem_map.mpr fun r' hr' => ?_
      intro hk hr₁ hr₁'
      rw [(hf.same r).identity, (hf.same r').identity] at hk
      rw [(hf.same r).id, (hf.same r').id]
      exact h.single r hr r' hr' hk (hactive hr hr₁) (hactive hr' hr₁')
  · cases hl

theorem Proposals.changes (h : Proposals s) (hchanges : Changes cfg d .read s s') :
    Proposals s' := by
  induction hchanges with
  | refl => exact h
  | tail _ hstep ih => exact ih.change hstep

/-- A new row has the next number, so every row was counted, and none of them was active. -/
theorem Proposals.insert (h : Proposals s) (hd : d.proposals) (hinserts : Inserts cfg d l s s') :
    Proposals s' := by
  obtain ⟨⟨incident, c, actor, role, id, clock, recent, failed, -, hins, hcounted⟩, -⟩ := hinserts
  obtain ⟨hcounted, hplain⟩ := hcounted hd
  have hrow := Remediation.numberedRow_newRemediation cfg.engine incident c actor role id clock
    failed hcounted.le
  have hnext := h.numbered.attempt_eq h.consecutive h.plain hrow hplain hins.key
  have hnone : NoActive (c.identity incident) s := hcounted.all (Nat.succ.inj hnext)
  refine ⟨h.numbered.insert hrow hins, h.consecutive.insert hnext hins, ?_, ?_⟩
  · rw [hins.eq]
    exact List.forall_mem_append.mpr ⟨h.plain, List.forall_mem_singleton.mpr hplain⟩
  · intro r hr r' hr' hk hactive hactive'
    rw [hins.eq, List.mem_append, List.mem_singleton] at hr hr'
    rcases hr with hr | rfl <;> rcases hr' with hr' | rfl
    · exact h.single r hr r' hr' hk hactive hactive'
    · rw [hnone r hr hk] at hactive
      cases hactive
    · rw [hnone r' hr' hk.symm] at hactive'
      cases hactive'
    · rfl

theorem Proposals.step (h : Proposals s) (hd : d.proposals) {i : ℕ} {o : Oracle}
    (hstep : Step cfg d i l o s s') : Proposals s' := by
  rcases hstep.changes_or_inserts with hchanges | hinserts
  · exact h.changes hchanges
  · exact h.insert hd hinserts

end

end Argus.System

import Argus.System.Effects

/-!
# Jobs in the outbox

The invariant of dispatch rows. With the local executor, whatever is queued or running has a row that was
not skipped; a skipped row belongs to a remediation that has ended, a published one to an event that
JetStream has; and only the reservation of a remediation writes a row to execute it.
-/

namespace Argus.System

open Remediation (Time RemediationAction Status Write)
open Outbox (Dispatch SameDispatch)

/-- The invariant of dispatch rows. -/
structure Delivery (cfg : Config) (s : Shared) : Prop where
  ids : (s.db.dispatches.map (·.id)).Nodup
  events : ∀ x ∈ s.db.dispatches, x.event.eventID = x.id ∧ x.event.remediationID = x.remediationID
  rows : cfg.executor = .localQueue → ∀ x ∈ s.db.dispatches, ∃ r ∈ s.db.remediations,
    r.id = x.remediationID ∧ isReserved r.status = true ∧ x.event.dryRun = r.dryRun
  waiting : cfg.executor = .localQueue → ∀ r ∈ s.db.remediations, r.status.isDispatchable = true →
    ∃ x ∈ s.db.dispatches, x.remediationID = r.id ∧ x.state ≠ .skipped
  skipped : cfg.executor = .localQueue → ∀ x ∈ s.db.dispatches, x.state = .skipped →
    ∃ r ∈ s.db.remediations, r.id = x.remediationID ∧ r.status.isTerminalState = true
  published : ∀ x ∈ s.db.dispatches, x.state = .published → x.event ∈ s.stream
  reserved : cfg.executor = .localQueue → ∀ x ∈ s.db.dispatches,
    ∃ y ∈ s.reservations, y.remediationID = x.remediationID
  once : cfg.executor = .localQueue →
    ((s.db.dispatches.filter fun x => x.reason = .execute).map (·.remediationID)).Nodup

/-! ## One row -/

variable {dryRun : Bool} {x : Dispatch} {w : Outbox.Write} {id : String}

theorem not_isDispatchable_newRemediation {engine : Policy.Engine} {incident : Incidents.Incident}
    {c : Remediation.Candidate} {actor role : String} {clock : Time} {recent failed : ℕ} :
    (Remediation.newRemediation engine incident c actor role id clock recent
      failed).status.isDispatchable = false := by
  simp only [Remediation.newRemediation, Remediation.proposedStatus]
  split_ifs <;> rfl

theorem isDispatched_of_isDispatchable {status : Status} (h : status.isDispatchable = true) :
    isDispatched status = true := by
  cases status <;> simp_all [Status.isDispatchable, isDispatched]

/-- What a publisher writes is justified by the row it writes to. -/
theorem Justified.row {cfg : Config} {s : Shared} (h : Justified cfg s (id, w))
    (hids : (s.db.dispatches.map (·.id)).Nodup) (hx : x ∈ s.db.dispatches) (hid : x.id = id) :
    (cfg.executor = .localQueue → (w.set x).state = .skipped → x.state ≠ .skipped →
      ∃ r ∈ s.db.remediations, r.id = x.remediationID ∧ r.status.isTerminalState = true) ∧
    ((w.set x).state = .published → x.state ≠ .published → x.event ∈ s.stream) := by
  cases w with
  | skipped =>
    refine ⟨fun hlocal _ _ => ?_, fun hstate => by cases hstate⟩
    obtain ⟨y, hy, hyid, hrow⟩ := h hlocal
    obtain rfl := Table.eq_of_key_eq hids hy hx (hyid.trans hid.symm)
    exact hrow
  | published now =>
    refine ⟨fun _ hstate _ => (by cases hstate), fun _ _ => ?_⟩
    obtain ⟨y, hy, hyid, hevent⟩ := h
    obtain rfl := Table.eq_of_key_eq hids hy hx (hyid.trans hid.symm)
    exact hevent
  | failed attempts retryAt =>
    exact ⟨fun _ hstate hne => absurd hstate hne, fun hstate hne => absurd hstate hne⟩

namespace Delivery

variable {cfg : Config} {d : Discipline} {s s' : Shared} {l : Label}

/-! ## Changes that leave the dispatches alone -/

/-- A change of remediation rows. -/
private theorem rowsChange (h : Delivery cfg s) (hchange : Change cfg d l s s')
    (hdispatches : s'.db.dispatches = s.db.dispatches)
    (hwaiting : cfg.executor = .localQueue → ∀ r' ∈ s'.db.remediations,
      r'.status.isDispatchable = true → ∃ r ∈ s.db.remediations, r.id = r'.id ∧
        r.status.isDispatchable = true) : Delivery cfg s' where
  ids := hdispatches ▸ h.ids
  events := hdispatches ▸ h.events
  rows := by
    rw [hdispatches]
    intro hlocal x hx
    obtain ⟨r, hr, hid, hreserved, hdry⟩ := h.rows hlocal x hx
    obtain ⟨r', hr', hrow⟩ := hchange.row hr
    obtain ⟨hreserved', hdry'⟩ := hrow.reserved hlocal hreserved
    exact ⟨r', hr', hrow.sameProposal.id.trans hid, hreserved', hdry.trans hdry'.symm⟩
  waiting := by
    rw [hdispatches]
    intro hlocal r' hr' hstatus
    obtain ⟨r, hr, hid, hstatus⟩ := hwaiting hlocal r' hr' hstatus
    obtain ⟨x, hx, hxid, hstate⟩ := h.waiting hlocal r hr hstatus
    exact ⟨x, hx, hxid.trans hid, hstate⟩
  skipped := by
    rw [hdispatches]
    intro hlocal x hx hstate
    obtain ⟨r, hr, hid, hterminal⟩ := h.skipped hlocal x hx hstate
    obtain ⟨r', hr', hrow⟩ := hchange.row hr
    refine ⟨r', hr', hrow.sameProposal.id.trans hid, ?_⟩
    rw [(hrow.terminal hterminal).1]
    exact hterminal
  published := by
    rw [hdispatches]
    exact fun x hx hstate => hchange.grows.stream (h.published x hx hstate)
  reserved := by
    rw [hdispatches]
    intro hlocal x hx
    obtain ⟨y, hy, hid⟩ := h.reserved hlocal x hx
    exact ⟨y, hchange.grows.reservations hy, hid⟩
  once := hdispatches ▸ h.once

/-! ## Changes of dispatches -/

/-- A new row. -/
private theorem append (h : Delivery cfg s) (hchange : Change cfg d l s s')
    (hnew : NewDispatch s id dryRun x) (hdispatches : s'.db.dispatches = s.db.dispatches ++ [x])
    (hrow : cfg.executor = .localQueue → ∃ r ∈ s'.db.remediations, r.id = id ∧
      isReserved r.status = true ∧ r.dryRun = dryRun)
    (hwaiting : cfg.executor = .localQueue → ∀ r' ∈ s'.db.remediations,
      r'.status.isDispatchable = true → r'.id = id ∨ ∃ r ∈ s.db.remediations, r.id = r'.id ∧
      r.status.isDispatchable = true)
    (hreserved : cfg.executor = .localQueue → ∃ y ∈ s'.reservations, y.remediationID = id)
    (hexecute : cfg.executor = .localQueue → x.reason = .execute → ∀ y ∈ s.reservations,
      y.remediationID ≠ id) : Delivery cfg s' := by
  have hforall : ∀ {P : Dispatch → Prop}, (∀ y ∈ s.db.dispatches, P y) → P x →
      ∀ y ∈ s'.db.dispatches, P y := by
    intro P hold hx
    rw [hdispatches]
    exact List.forall_mem_append.mpr ⟨hold, List.forall_mem_singleton.mpr hx⟩
  refine ⟨?_, ?_, fun hlocal => ?_, fun hlocal r' hr' hstatus => ?_, fun hlocal => ?_, ?_,
    fun hlocal => ?_, fun hlocal => ?_⟩
  · rw [hdispatches]
    exact Table.nodup_map_concat h.ids hnew.fresh
  · exact hforall h.events ⟨hnew.eventID, hnew.event.trans hnew.remediationID.symm⟩
  · refine hforall (fun y hy => ?_) ?_
    · obtain ⟨r, hr, hid, hreserved, hdry⟩ := h.rows hlocal y hy
      obtain ⟨r', hr', hrow⟩ := hchange.row hr
      obtain ⟨hreserved', hdry'⟩ := hrow.reserved hlocal hreserved
      exact ⟨r', hr', hrow.sameProposal.id.trans hid, hreserved', hdry.trans hdry'.symm⟩
    · obtain ⟨r, hr, hid, hreserved, hdry⟩ := hrow hlocal
      exact ⟨r, hr, hid.trans hnew.remediationID.symm, hreserved, hnew.dryRun.trans hdry.symm⟩
  · rw [hdispatches]
    rcases hwaiting hlocal r' hr' hstatus with rfl | ⟨r, hr, hid, hbefore⟩
    · refine ⟨x, List.mem_append_right _ (List.mem_singleton.mpr rfl), hnew.remediationID, ?_⟩
      rw [hnew.state]
      decide
    · obtain ⟨y, hy, hyid, hstate⟩ := h.waiting hlocal r hr hbefore
      exact ⟨y, List.mem_append_left _ hy, hyid.trans hid, hstate⟩
  · refine hforall (fun y hy hstate => ?_) fun hstate => ?_
    · obtain ⟨r, hr, hid, hterminal⟩ := h.skipped hlocal y hy hstate
      obtain ⟨r', hr', hrow⟩ := hchange.row hr
      refine ⟨r', hr', hrow.sameProposal.id.trans hid, ?_⟩
      rw [(hrow.terminal hterminal).1]
      exact hterminal
    · rw [hnew.state] at hstate
      cases hstate
  · refine hforall (fun y hy hstate => hchange.grows.stream (h.published y hy hstate)) fun hstate => ?_
    rw [hnew.state] at hstate
    cases hstate
  · refine hforall (fun y hy => ?_) ?_
    · obtain ⟨z, hz, hid⟩ := h.reserved hlocal y hy
      exact ⟨z, hchange.grows.reservations hz, hid⟩
    · obtain ⟨z, hz, hid⟩ := hreserved hlocal
      exact ⟨z, hz, hid.trans hnew.remediationID.symm⟩
  · rw [hdispatches, List.filter_append]
    by_cases hreason : x.reason = .execute
    · have hx : [x].filter (fun x => x.reason = .execute) = [x] := by simp [hreason]
      rw [hx]
      refine Table.nodup_map_concat (h.once hlocal) fun y hy heq => ?_
      rw [List.mem_filter, decide_eq_true_eq] at hy
      obtain ⟨z, hz, hid⟩ := h.reserved hlocal y hy.1
      refine hexecute hlocal hreason z hz ?_
      rw [hid, heq, hnew.remediationID]
    · have hx : [x].filter (fun x => x.reason = .execute) = [] := by simp [hreason]
      rw [hx, List.append_nil]
      exact h.once hlocal

/-- What a publisher writes. -/
private theorem publish (h : Delivery cfg s) (hids : s.db.Distinct)
    (hjust : Justified cfg s (id, w)) :
    Delivery cfg (s.withDb { s.db with dispatches := Outbox.update id w s.db.dispatches }) := by
  -- what holds of the columns that stay
  have hkept : ∀ {P : Dispatch → Prop}, (∀ x x', SameDispatch x x' → P x → P x') →
      (∀ x ∈ s.db.dispatches, P x) → ∀ x ∈ Outbox.update id w s.db.dispatches, P x := by
    intro P hsame hall x' hx'
    obtain ⟨x, hx, ⟨rfl, -⟩ | ⟨rfl, -⟩⟩ := Outbox.mem_update hx'
    · exact hall x' hx
    · exact hsame x _ (w.sameDispatch_set x) (hall x hx)
  refine ⟨?_, ?_, fun hlocal => ?_, fun hlocal r hr hstatus => ?_, fun hlocal x' hx' hstate => ?_,
    fun x' hx' hstate => ?_, fun hlocal => ?_, fun hlocal => ?_⟩
  · exact (Outbox.map_update id w (fun x => (w.sameDispatch_set x).id) s.db.dispatches).symm ▸ h.ids
  · refine hkept ?_ h.events
    rintro x x' hsame ⟨hid, hrem⟩
    rw [hsame.event, hsame.id, hsame.remediationID]
    exact ⟨hid, hrem⟩
  · refine hkept ?_ (h.rows hlocal)
    rintro x x' hsame hrow
    rw [hsame.event, hsame.remediationID]
    exact hrow
  · obtain ⟨x, hx, hxid, hstate⟩ := h.waiting hlocal r hr hstatus
    obtain ⟨x', hx', ⟨rfl, -⟩ | ⟨rfl, hid⟩⟩ := Outbox.exists_mem_update id w hx
    · exact ⟨x', hx', hxid, hstate⟩
    · refine ⟨_, hx', (w.sameDispatch_set x).remediationID.trans hxid, fun hskipped => ?_⟩
      -- a dispatchable remediation is not terminal
      obtain ⟨r', hr', hid', hterminal⟩ := (hjust.row h.ids hx hid).1 hlocal hskipped hstate
      obtain rfl := Table.eq_of_key_eq hids hr' hr (hid'.trans hxid)
      rw [Status.isTerminalState_of_isDispatchable hstatus] at hterminal
      cases hterminal
  · obtain ⟨x, hx, ⟨rfl, -⟩ | ⟨rfl, hid⟩⟩ := Outbox.mem_update hx'
    · exact h.skipped hlocal x' hx hstate
    · rw [(w.sameDispatch_set x).remediationID]
      by_cases hbefore : x.state = .skipped
      · exact h.skipped hlocal x hx hbefore
      · exact (hjust.row h.ids hx hid).1 hlocal hstate hbefore
  · obtain ⟨x, hx, ⟨rfl, -⟩ | ⟨rfl, hid⟩⟩ := Outbox.mem_update hx'
    · exact h.published x' hx hstate
    · rw [(w.sameDispatch_set x).event]
      by_cases hbefore : x.state = .published
      · exact h.published x hx hbefore
      · exact (hjust.row h.ids hx hid).2 hstate hbefore
  · refine hkept ?_ (h.reserved hlocal)
    rintro x x' hsame hreserved
    rw [hsame.remediationID]
    exact hreserved
  · have hmap : ((Outbox.update id w s.db.dispatches).filter fun x => x.reason = .execute).map
        (·.remediationID) =
        (s.db.dispatches.filter fun x => x.reason = .execute).map (·.remediationID) := by
      rw [Outbox.update, Table.updateIf, List.filter_map, List.map_map]
      refine (List.map_congr_left fun x _ => ?_).trans (congrArg _ (List.filter_congr fun x _ => ?_))
      · dsimp only [Function.comp_apply]
        split
        · exact (w.sameDispatch_set x).remediationID
        · rfl
      · dsimp only [Function.comp_apply]
        split
        · rw [(w.sameDispatch_set x).reason]
        · rfl
    exact hmap.symm ▸ h.once hlocal

/-! ## Every change -/

/-- The reservation of a remediation, with the row it writes. -/
private theorem reserve (h : Delivery cfg s) (heffects : Effects cfg s) (hids : s.db.Distinct)
    (l : Label) {now : Time} {pid : ℕ} {dispatches : List Dispatch}
    (haffects : s.db.affects id (.markQueued dryRun) = true)
    (henqueues : Enqueues cfg s id dryRun dispatches) :
    Delivery cfg { s with
      db := { s.db.write now id (.markQueued dryRun) with dispatches := dispatches }
      reservations := s.reservations ++ [⟨pid, id, dryRun⟩] } := by
  have hchange : Change cfg .none l s _ :=
    .reserve now pid id dryRun dispatches haffects henqueues
  unfold Enqueues at henqueues
  split at henqueues
  · -- nothing is enqueued for Helios, and nothing is promised
    rename_i hhelios
    refine h.rowsChange hchange henqueues fun hlocal => ?_
    rw [hhelios] at hlocal
    cases hlocal
  · rename_i hlocal
    obtain ⟨x, rfl, hnew, hreason⟩ := henqueues
    obtain ⟨r, hr, hid, hguard⟩ := Remediation.affects_iff.mp haffects
    refine h.append hchange hnew rfl (fun _ => ?_) (fun _ r' hr' hstatus => ?_) (fun _ => ?_)
      fun _ _ => ?_
    · obtain ⟨r', hr', ⟨-, hnot⟩ | ⟨rfl, -, -⟩⟩ :=
        Remediation.exists_mem_updateWhere now id (.markQueued dryRun) hr
      · exact absurd ⟨hid, hguard⟩ hnot
      · exact ⟨_, hr', hid, rfl, rfl⟩
    · obtain ⟨r₁, hr₁, rfl | ⟨rfl, hid₁, -⟩⟩ := Remediation.mem_updateWhere hr'
      · exact .inr ⟨r', hr₁, rfl, hstatus⟩
      · exact .inl hid₁
    · exact ⟨_, List.mem_append_right _ (List.mem_singleton.mpr rfl), rfl⟩
    · -- an approved row was not reserved before
      intro y hy heq
      obtain ⟨r₁, hr₁, hid₁, hmode⟩ := heffects.reservations y hy
      obtain rfl := Table.eq_of_key_eq hids hr₁ hr (hid₁.trans (heq.trans hid.symm))
      have happroved : r₁.status = .approved := by simpa [Write.guard] using hguard
      have hreserved := (hmode hlocal).1
      rw [happroved] at hreserved
      cases hreserved

/-- Every change keeps the invariant. -/
theorem change (h : Delivery cfg s) (heffects : Effects cfg s)
    (hids : s.db.Distinct) (hchange : Change cfg d l s s') :
    Delivery cfg s' := by
  cases hchange with
  | frame hrows hrest =>
    refine h.rowsChange (.frame (d := d) (l := l) hrows hrest) hrest.dispatches ?_
    intro _ r' hr' hstatus
    exact ⟨r', hrows ▸ hr', rfl, hstatus⟩
  | insert hins hrest =>
    have hinsert : Change cfg d _ s s' := .insert hins hrest
    refine h.rowsChange hinsert hrest.dispatches fun _ r' hr' hstatus => ?_
    rw [hins.eq, List.mem_append, List.mem_singleton] at hr'
    rcases hr' with hr' | rfl
    · exact ⟨r', hr', rfl, hstatus⟩
    · rw [not_isDispatchable_newRemediation] at hstatus
      cases hstatus
  | write now id w hlicensed =>
    refine h.rowsChange (.write (l := l) now id w hlicensed) rfl fun _ r' hr' hstatus => ?_
    obtain ⟨r, hr, rfl | ⟨rfl, -, hguard⟩⟩ := Remediation.mem_updateWhere hr'
    · exact ⟨r', hr, rfl, hstatus⟩
    · refine ⟨r, hr, (w.sameProposal_set now r).id.symm, ?_⟩
      rw [Write.status_set] at hstatus
      cases w with
      | cancel _ | release => cases hstatus
      | claim | markRunning _ | complete _ _ _ => exact hguard
      | _ => exact False.elim hlicensed
  | reserve now pid id dryRun dispatches haffects henqueues =>
    exact h.reserve heffects hids l haffects henqueues
  | settle now q aw w hq hpending hsettles =>
    refine h.rowsChange (.settle (d := d) (l := l) now q aw w hq hpending hsettles) rfl
      fun _ r' hr' hstatus => ?_
    obtain ⟨r, hr, rfl | ⟨rfl, -, -⟩⟩ := Remediation.mem_updateWhere hr'
    · exact ⟨r', hr, rfl, hstatus⟩
    · rw [Write.status_set] at hstatus
      cases hsettles <;> cases hstatus
  | enqueue x hr hstatus hnew hreason =>
    refine h.append (.enqueue (d := d) (l := l) x hr hstatus hnew hreason) hnew rfl (fun _ => ?_)
      (fun _ r' hr' hstatus' => .inr ⟨r', hr', rfl, hstatus'⟩) (fun hlocal => ?_)
      fun _ h => absurd h hreason
    · refine ⟨_, hr, rfl, ?_, rfl⟩
      cases hst : (_ : RemediationAction).status <;> simp_all [Status.isDispatchable, isReserved]
    · have hdispatched := isDispatched_of_isDispatchable hstatus
      obtain ⟨y, hy, hid, -⟩ := heffects.dispatched hlocal _ hr hdispatched
      exact ⟨y, hy, hid⟩
  | publish x hjust => exact h.publish hids hjust
  | accept job =>
    exact ⟨h.ids, h.events, h.rows, h.waiting, h.skipped,
      fun x hx hstate => List.mem_append_left _ (h.published x hx hstate), h.reserved, h.once⟩
  | _ => exact ⟨h.ids, h.events, h.rows, h.waiting, h.skipped, h.published, h.reserved, h.once⟩

end Delivery

end Argus.System

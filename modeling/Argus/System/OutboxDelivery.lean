import Argus.System.Runs

/-!
# The outbox

Which steps write dispatch rows, and for what reason. With the local executor no job is lost between the
reservation and the workers. But only `Execute` looks at the incident, and it does so before it reserves:
where an incident is closed in between, or while its remediation is with the workers, jobs are sent for it
all the same.
-/

namespace Argus.System

open Remediation (Time RemediationAction Status)
open Outbox (Dispatch SameDispatch)

variable {cfg : Config} {d : Discipline} {i : ℕ} {l : Label} {o : Oracle} {s s' : Shared}
  {w w' : World}

/-! ## New rows -/

/-- Why a row is written. -/
inductive Sent (cfg : Config) (d : Discipline) (l : Label) (o : Oracle) (s : Shared)
    (x : Dispatch) : Prop
  | execute {r : RemediationAction} (hreason : x.reason = .execute) (hr : r ∈ s.db.remediations)
      (hid : r.id = x.remediationID) (hopen : d.incidents → ∀ r ∈ s.db.remediations,
        r.id = x.remediationID → IncidentOpen s r.incidentID)
  | replay {r : RemediationAction} (hreason : x.reason = .replay) (hr : r ∈ s.db.remediations)
      (hid : r.id = x.remediationID) (hstatus : r.status.isDispatchable = true)
  | redispatch {r : RemediationAction} (hl : l = .reconcile) (hreason : x.reason = .redispatch)
      (hr : r ∈ s.db.remediations) (hid : r.id = x.remediationID)
      (hstuck : Outbox.isStuck cfg.outbox o.now r s.db.dispatches = true)
      (hworker : Outbox.hasWorker cfg.outbox o.now r s.db.heartbeats = true)
      (hcount : Outbox.redispatches r s.db.dispatches < cfg.outbox.maxRedispatches)

/-- How a step changes the dispatch rows. -/
inductive DispatchStep (cfg : Config) (d : Discipline) (l : Label) (o : Oracle) (s s' : Shared) :
    Prop
  | same (h : List.Forall₂ SameDispatch s.db.dispatches s'.db.dispatches)
  | sent {new : List Dispatch} (h : s'.db.dispatches = s.db.dispatches ++ new)
      (hnew : (new.map (·.remediationID)).Nodup)
      (hsent : ∀ x ∈ new, x.createdAt = o.now ∧ Sent cfg d l o s x)

/-- What the reconciler writes: at most one row for each stuck remediation. -/
structure Db.Resent (cfg : Outbox.Config) (now : Time) (xs : List Db.Stuck) (new : List Dispatch) :
    Prop where
  once : (new.map (·.remediationID)).Sublist (xs.map Db.Stuck.id)
  sent : ∀ y ∈ new, y.createdAt = now ∧ y.reason = .redispatch ∧ ∃ x ∈ xs,
    x.id = y.remediationID ∧ x.hasWorker = true ∧ x.redispatches < cfg.maxRedispatches

variable {x : Dispatch} {xs : List Db.Stuck} {now : Time}

theorem Db.Resent.skip {cfg : Outbox.Config} {new : List Dispatch} (h : Db.Resent cfg now xs new)
    (x : Db.Stuck) : Db.Resent cfg now (x :: xs) new := by
  refine ⟨h.once.cons _, fun y hy => ?_⟩
  obtain ⟨hcreated, hreason, x', hx', hrest⟩ := h.sent y hy
  exact ⟨hcreated, hreason, x', List.mem_cons_of_mem _ hx', hrest⟩

theorem Db.resent_of_foldlM {cfg : Outbox.Config} {fresh : String} {acc acc' : Bool × Db}
    (h : xs.foldlM (Db.reconcileOne cfg now fresh) acc = .ok acc') :
    ∃ new, acc'.2.dispatches = acc.2.dispatches ++ new ∧ Db.Resent cfg now xs new := by
  induction xs generalizing acc with
  | nil =>
    obtain rfl : acc = acc' := Except.ok.inj h
    exact ⟨[], by simp, .refl _, by simp⟩
  | cons x xs ih =>
    obtain ⟨acc₁, hone, hall⟩ := foldlM_cons_eq_ok h
    obtain ⟨new, hdispatches, hresent⟩ := ih hall
    have hreconciles := Db.reconciles_of_reconcileOne hone
    generalize acc₁.2 = db₁ at hreconciles hdispatches
    cases hreconciles with
    | none | exhausted => exact ⟨new, hdispatches, hresent.skip x⟩
    | @redispatched dispatchID _ hworker hcount h =>
      obtain ⟨r, -, hid, -, -, -, rfl⟩ := Db.redispatch_eq_ok h
      refine ⟨Outbox.newDispatch now r.decoded dispatchID .redispatch :: new, ?_, ?_, ?_⟩
      · rw [hdispatches]
        exact List.append_assoc ..
      · rw [List.map_cons, List.map_cons, ← hid]
        exact hresent.once.cons_cons _
      · refine List.forall_mem_cons.mpr ⟨?_, (hresent.skip x).sent⟩
        exact ⟨rfl, rfl, x, List.mem_cons_self, hid.symm, hworker, hcount⟩

theorem Db.dispatches_applyAll {db db' : Db} {updates : List Db.Update}
    (h : db.applyAll now updates = .ok db') : db'.dispatches = db.dispatches := by
  let R (a b : Db) : Prop := b.dispatches = a.dispatches
  refine rel_of_foldlM (R := R) (fun _ => rfl) (fun h h' => h'.trans h) ?_ h
  intro a u _ b hone
  rw [Db.applyOne_eq hone]
  exact (Db.sameOthers_writeAll a now u.id u.writes).1.dispatches

/-- One inversion for everything that is shown about dispatch rows. -/
theorem Step.dispatchStep (h : Step cfg d i l o s s') (hids : s.db.Distinct) :
    DispatchStep cfg d l o s s' := by
  have hkept (heq : s'.db.dispatches = s.db.dispatches) : DispatchStep cfg d l o s s' :=
    .same (heq ▸ forall₂_sameDispatch_refl _)
  cases h with
  | quiet h _ => exact .same h.dispatches
  | insert h _ =>
    obtain ⟨rows, -, rfl⟩ := Db.insertRemediation_eq_ok h
    exact hkept rfl
  | settle h _ =>
    obtain ⟨⟩ := h
    exact hkept rfl
  | reserve h _ _ hopen =>
    obtain ⟨haffects, dispatches, hreserved, rfl⟩ := Db.reserve_eq_ok h
    cases hreserved with
    | helios _ => exact hkept rfl
    | localQueue _ _ =>
      obtain ⟨r, hr, hid, -⟩ := Remediation.affects_iff.mp haffects
      refine .sent rfl (List.nodup_singleton _) ?_
      rw [List.forall_mem_singleton]
      exact ⟨rfl, .execute rfl hr hid hopen⟩
  | replay h =>
    obtain ⟨r, hr, hid, hstatus, -, -, rfl⟩ := Db.redispatch_eq_ok h
    refine .sent rfl (List.nodup_singleton _) ?_
    rw [List.forall_mem_singleton]
    exact ⟨rfl, .replay rfl hr rfl hstatus⟩
  | reconcile _ h =>
    obtain ⟨new, hdispatches, hresent⟩ := Db.resent_of_foldlM h
    refine .sent hdispatches (hresent.once.nodup (Db.nodup_stuck hids _ _ _)) fun x hx => ?_
    obtain ⟨hcreated, hreason, y, hy, hid, hworker, hcount⟩ := hresent.sent x hx
    obtain ⟨r, hr, hstuck, -, rfl⟩ := Db.exists_of_mem_stuck hy
    exact ⟨hcreated, .redispatch rfl hreason hr hid hstuck hworker hcount⟩
  | outcome _ _ _ _ h =>
    refine hkept ?_
    rw [Db.applyOne_eq h]
    exact (Db.sameOthers_writeAll s.db o.now _ _).1.dispatches
  | commit _ _ h => exact hkept (Db.dispatches_applyAll h)
  | _ => exact hkept rfl

/-! ## No job is lost -/

/-- With the local executor whatever is queued or running has a row that is pending or published, what is
skipped has ended, and what is published is with JetStream: an event with the id of the row, which names
its remediation in the mode of the reservation. -/
theorem outbox_loses_no_job (hlocal : cfg.executor = .localQueue) (h : Reachable cfg w) :
    (∀ r ∈ w.shared.db.remediations, r.status = .queued ∨ r.status = .running →
      ∃ x ∈ w.shared.db.dispatches, x.remediationID = r.id ∧
        (x.state = .pending ∨ x.state = .published)) ∧
    (∀ x ∈ w.shared.db.dispatches, x.state = .skipped →
      ∃ r ∈ w.shared.db.remediations, r.id = x.remediationID ∧ r.status.isTerminalState = true) ∧
    ∀ x ∈ w.shared.db.dispatches, x.state = .published →
      ∃ job ∈ w.shared.stream, job.eventID = x.id ∧ job.remediationID = x.remediationID ∧
        ∃ y ∈ w.shared.reservations, y.remediationID = x.remediationID ∧
          job.dryRun = y.dryRun := by
  have hinv := invariant_of_reachable h
  have hdelivery := hinv.tables.delivery
  refine ⟨fun r hr hstatus => ?_, hdelivery.skipped hlocal, fun x hx hstate => ?_⟩
  · have hdispatchable : r.status.isDispatchable = true := by
      rcases hstatus with hs | hs <;> rw [hs] <;> rfl
    obtain ⟨x, hx, hid, hstate⟩ := hdelivery.waiting hlocal r hr hdispatchable
    refine ⟨x, hx, hid, ?_⟩
    cases hs : x.state with
    | pending => exact .inl rfl
    | published => exact .inr rfl
    | skipped => exact absurd hs hstate
  · obtain ⟨hevent, hremediation⟩ := hdelivery.events x hx
    obtain ⟨y, hy, hyid⟩ := hdelivery.reserved hlocal x hx
    refine ⟨x.event, hdelivery.published x hx hstate, hevent, hremediation, y, hy, hyid, ?_⟩
    -- the row has the mode of its reservation
    obtain ⟨r, hr, hid, -, hdry⟩ := hdelivery.rows hlocal x hx
    obtain ⟨r', hr', hid', hmode⟩ := hinv.tables.effects.reservations y hy
    obtain rfl := Table.eq_of_key_eq hinv.ids hr' hr (hid'.trans (hyid.trans hid.symm))
    exact hdry.trans (hmode hlocal).2

/-- A job that was published. -/
theorem outbox_loses_no_job_published :
    ∃ w, Reachable (defaultConfig .localQueue) w ∧ ∃ x ∈ w.shared.db.dispatches,
      x.state = .published ∧ ∃ job ∈ w.shared.stream, job.eventID = x.id := by
  obtain ⟨w, hw, hrows⟩ := exists_reachable (defaultConfig .localQueue)
    (reservedPod true ++ [.act 2 {}, .act 2 {}, .act 2 {}])
    (fun w => w.shared.db.dispatches.any fun x => x.state == .published) (by decide +kernel)
  obtain ⟨x, hx, hstate⟩ := List.any_eq_true.mp hrows
  have hpublished : x.state = .published := by simpa using hstate
  obtain ⟨job, hjob, heventID, -⟩ := (outbox_loses_no_job rfl hw).2.2 x hx hpublished
  exact ⟨w, hw, x, hx, hpublished, job, hjob, heventID⟩

/-! ## Closed incidents -/

/-- An incident is closed only if none of its remediations is queued or running and no call is about to
reserve one, having found the incident open. -/
def ClosesIdle (w : World) (e : Event) : Prop :=
  ∀ x, e = .environment (.incident x) → x.status.isClosed = true →
    ∀ r ∈ w.shared.db.remediations, r.incidentID = x.id →
      r.status.isDispatchable = false ∧ ∀ j, w.waiting j ≠ some (.reserve r.id)

/-- Only the closing of incidents is restricted. -/
def attended : Discipline := ⟨False, True, False, False⟩

theorem ClosesIdle.disciplined {e : Event} (h : ClosesIdle w e) : Disciplined cfg attended w e where
  permitted _ _ _ _ _ := ⟨fun hd => hd.elim, fun hd => hd.elim, fun hd => hd.elim⟩
  proposals hd := hd.elim
  incidents _ := h

theorem Sent.row (h : Sent cfg d l o s x) : ∃ r ∈ s.db.remediations, r.id = x.remediationID := by
  cases h with
  | execute _ hr hid _ | replay _ hr hid _ | redispatch _ _ hr hid _ _ _ => exact ⟨_, hr, hid⟩

/-- The incident of a row that a step writes is open. -/
theorem Sent.incidentOpen (h : Sent cfg d l o s x) (hlocal : cfg.executor = .localQueue)
    (hd : d.incidents) (hinv : Invariant cfg d s) {r : RemediationAction}
    (hr : r ∈ s.db.remediations) (hid : r.id = x.remediationID) : IncidentOpen s r.incidentID := by
  have hattended {r₀ : RemediationAction} (hr₀ : r₀ ∈ s.db.remediations)
      (hid₀ : r₀.id = x.remediationID) (hstatus : r₀.status.isDispatchable = true) :
      IncidentOpen s r.incidentID := by
    obtain rfl := Table.eq_of_key_eq hinv.ids hr₀ hr (hid₀.trans hid.symm)
    exact hinv.incidents hd hlocal r₀ hr hstatus
  cases h with
  | execute _ _ _ hopen => exact hopen hd r hr hid
  | replay _ hr₀ hid₀ hstatus => exact hattended hr₀ hid₀ hstatus
  | redispatch _ _ hr₀ hid₀ hstuck _ _ =>
    exact hattended hr₀ hid₀ (Outbox.isDispatchable_of_isStuck hstuck)

/-- What a step adds to the dispatch rows. -/
theorem DispatchStep.sent_of_new (h : DispatchStep cfg d l o s s') (hx : x ∈ s'.db.dispatches)
    (hnew : ∀ y ∈ s.db.dispatches, y.id ≠ x.id) : x.createdAt = o.now ∧ Sent cfg d l o s x := by
  cases h with
  | same hsame =>
    obtain ⟨y, hy, hyx⟩ := Table.exists_of_forall₂ hsame hx
    exact absurd hyx.id.symm (hnew y hy)
  | sent heq _ hsent =>
    rw [heq, List.mem_append] at hx
    rcases hx with hx | hx
    · exact absurd rfl (hnew x hx)
    · exact hsent x hx

/-- With the local executor, and where no incident is closed under a remediation that is being dispatched,
every dispatch row is committed while the incident of its remediation is neither resolved nor cancelled. -/
theorem dispatched_incident_open (hlocal : cfg.executor = .localQueue)
    (h : (argus cfg).Reach ClosesIdle World.initial w) {e : Event} (hok : ClosesIdle w e)
    (hstep : (argus cfg).step w e = some w') :
    ∀ x ∈ w'.shared.db.dispatches, (∀ y ∈ w.shared.db.dispatches, y.id ≠ x.id) →
      ∃ r ∈ w.shared.db.remediations, r.id = x.remediationID ∧
        ∃ incident, w'.shared.db.incident r.incidentID = .ok incident ∧
          incident.status ≠ .resolved ∧ incident.status ≠ .cancelled := by
  have hreach : (argus cfg).Reach (Disciplined cfg attended) World.initial w :=
    h.mono fun w e he => he.disciplined
  have hsound := sound_of_reach hreach
  intro x hx hnew
  have hold (heq : w'.shared.db.dispatches = w.shared.db.dispatches) : False :=
    hnew x (heq ▸ hx) rfl
  cases happens hsound hok.disciplined hstep with
  | nothing heq => exact (hold (by rw [heq])).elim
  | crash heq => exact (hold (by rw [heq, db_crash])).elim
  | environment henv => exact (hold (environment_frame henv).2.dispatches).elim
  | step _ _ hact =>
    obtain ⟨-, hsent⟩ := (hact.dispatchStep hsound.inv.ids).sent_of_new hx hnew
    obtain ⟨r, hr, hid⟩ := hsent.row
    obtain ⟨incident, hincident, hopen⟩ :=
      hact.incidentOpen (hsent.incidentOpen hlocal trivial hsound.inv hr hid)
    refine ⟨r, hr, hid, incident, hincident, ?_, ?_⟩ <;> intro hclosed <;>
      rw [hclosed] at hopen <;> cases hopen

/-- The check of `ClosesIdle`: nobody closes an incident. -/
def closesIdle (_ : World) : Event → Bool
  | .environment (.incident x) => !x.status.isClosed
  | _ => true

theorem closesIdle_sound (w : World) (e : Event) (_ : Interleave.System.Numbered w)
    (h : closesIdle w e = true) : ClosesIdle w e := by
  rintro x rfl hclosed
  simp [closesIdle, hclosed] at h

/-- A new dispatch row. -/
private def dispatches (w w' : World) : Bool :=
  w'.shared.db.dispatches.any fun x => w.shared.db.dispatches.all fun y => y.id != x.id

private theorem exists_of_dispatches (h : dispatches w w' = true) :
    ∃ x ∈ w'.shared.db.dispatches, ∀ y ∈ w.shared.db.dispatches, y.id ≠ x.id := by
  simpa [dispatches] using h

/-- The reservation of a remediation whose incident stays open. -/
theorem dispatched_incident_open_reserved :
    ∃ w w' e, (argus (defaultConfig .localQueue)).Reach ClosesIdle World.initial w ∧
      ClosesIdle w e ∧ (argus (defaultConfig .localQueue)).step w e = some w' ∧
      ∃ x ∈ w'.shared.db.dispatches, (∀ y ∈ w.shared.db.dispatches, y.id ≠ x.id) ∧
        ∃ r ∈ w.shared.db.remediations, r.id = x.remediationID ∧
          ∃ incident, w'.shared.db.incident r.incidentID = .ok incident ∧
            incident.status ≠ .resolved ∧ incident.status ≠ .cancelled := by
  obtain ⟨w, hw, hnext⟩ := Interleave.System.exists_reach_of_runIf
    (argus (defaultConfig .localQueue)) Shared.initial
    (approvedPod ++ [.start (.execute "rem_1" false "ops"), .act 2 {}, .act 2 {}])
    (fun w => ((argus (defaultConfig .localQueue)).step w (.act 2 {})).any (dispatches w))
    closesIdle_sound (by decide +kernel)
  obtain ⟨w', hstep, hdispatches⟩ := (Option.any_eq_true ..).mp hnext
  obtain ⟨x, hx, hnew⟩ := exists_of_dispatches hdispatches
  have hok : ClosesIdle w (.act 2 {}) := by
    rintro x ⟨⟩
  exact ⟨w, w', _, hw, hok, hstep, x, hx, hnew,
    dispatched_incident_open rfl hw hok hstep x hx hnew⟩

/-- The incident is resolved between the check of `Execute` and its reservation. -/
theorem dispatched_after_resolve :
    ∃ w w' e, Reachable (defaultConfig .localQueue) w ∧
      (argus (defaultConfig .localQueue)).step w e = some w' ∧
      ∃ x ∈ w'.shared.db.dispatches, (∀ y ∈ w.shared.db.dispatches, y.id ≠ x.id) ∧
        ∃ r ∈ w'.shared.db.remediations, r.id = x.remediationID ∧
          ∃ incident ∈ w'.shared.db.incidents, incident.id = r.incidentID ∧
            incident.status = .resolved := by
  obtain ⟨w, w', hw, hstep, hcheck⟩ := exists_step (defaultConfig .localQueue)
    (approvedPod ++ [.start (.execute "rem_1" false "ops"), .act 2 {}, .act 2 {},
      .environment (.incident { Remediation.localIncident with status := .resolved })])
    (.act 2 {})
    (fun w w' => w'.shared.db.dispatches.any fun x =>
      (w.shared.db.dispatches.all fun y => y.id != x.id) &&
      w'.shared.db.remediations.any fun r => r.id == x.remediationID &&
        w'.shared.db.incidents.any fun incident => incident.id == r.incidentID &&
          incident.status == .resolved) (by decide +kernel)
  simp only [List.any_eq_true, List.all_eq_true, Bool.and_eq_true, bne_iff_ne, beq_iff_eq]
    at hcheck
  exact ⟨w, w', _, hw, hstep, hcheck⟩

end Argus.System

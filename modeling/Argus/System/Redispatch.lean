import Argus.Base.Streaks
import Argus.System.OutboxDelivery

/-!
# Redispatches

The reconciler counts the redispatches of a remediation since it was last executed or replayed by the times
of its dispatch rows. Where transactions run at increasing times, that is the last streak of redispatches,
so no streak gets longer than the configured number, and a remediation is given up only after a full one.
-/

namespace Argus.System

open Remediation (Time RemediationAction Status)
open Outbox (Dispatch SameDispatch)
open Streaks (AtMost)

variable {cfg : Config} {d : Discipline} {i : ℕ} {l : Label} {o : Oracle} {s s' : Shared}
  {w w' : World}

/-- The dispatch rows of a remediation, in the order in which they were committed. -/
def Shared.dispatchesOf (s : Shared) (id : String) : List Dispatch :=
  s.db.dispatches.filter fun x => x.remediationID = id

/-- Every transaction runs later than the ones that wrote the dispatch rows it finds, as it does where the
times of transactions increase. -/
def ClockAdvances (w : World) (e : Event) : Prop :=
  ∀ i o, e = .act i o → ∀ x ∈ w.shared.db.dispatches, x.createdAt < o.now

/-! ## The rows of one remediation -/

/-- The invariant of the dispatch rows of each remediation. -/
structure Paced (cfg : Config) (s : Shared) : Prop where
  increasing : ∀ id, (s.dispatchesOf id).Pairwise fun x y => x.createdAt < y.createdAt
  bounded : ∀ id, AtMost (fun x : Dispatch => x.reason = .redispatch) cfg.outbox.maxRedispatches
    (s.dispatchesOf id)

/-- What the reconciler counts. -/
theorem redispatches_eq_countAfter (r : RemediationAction) (s : Shared) :
    Outbox.redispatches r s.db.dispatches = Streaks.countAfter
      (fun x : Dispatch => x.reason = .redispatch) (·.createdAt) (s.dispatchesOf r.id) := by
  refine List.countP_congr fun x _ => ?_
  simp only [List.forall_mem_map, Shared.dispatchesOf, List.mem_filter, decide_eq_true_eq, ne_eq,
    and_imp]

/-- Updates keep the columns that the count depends on. -/
theorem map_dispatchesOf {α : Type} {f : Dispatch → α}
    (hf : ∀ x y, SameDispatch x y → f y = f x)
    (h : List.Forall₂ SameDispatch s.db.dispatches s'.db.dispatches) (id : String) :
    (s'.dispatchesOf id).map f = (s.dispatchesOf id).map f := by
  unfold Shared.dispatchesOf
  generalize s.db.dispatches = xs at h
  generalize s'.db.dispatches = ys at h
  induction h with
  | nil => rfl
  | @cons x y _ _ hsame _ ih =>
    simp only [List.filter_cons, hsame.remediationID]
    split
    · rw [List.map_cons, List.map_cons, ih, hf x y hsame]
    · exact ih

theorem Paced.same (h : Paced cfg s)
    (hsame : List.Forall₂ SameDispatch s.db.dispatches s'.db.dispatches) : Paced cfg s' := by
  refine ⟨fun id => ?_, fun id => ?_⟩
  · have hcolumn := map_dispatchesOf (f := (·.createdAt)) (fun _ _ h => h.createdAt) hsame id
    have hincreasing := List.pairwise_map.mpr (h.increasing id)
    rw [← hcolumn] at hincreasing
    exact List.pairwise_map.mp hincreasing
  · have hcolumn := map_dispatchesOf (f := (·.reason)) (fun _ _ h => h.reason) hsame id
    have hbounded : AtMost (· = .redispatch) cfg.outbox.maxRedispatches
      ((s.dispatchesOf id).map (·.reason)) := Streaks.atMost_map_iff.mpr (h.bounded id)
    rw [← hcolumn] at hbounded
    exact Streaks.atMost_map_iff.mp hbounded

/-- The new rows of one remediation: none, or one. -/
theorem dispatchesOf_append {new : List Dispatch}
    (h : s'.db.dispatches = s.db.dispatches ++ new) (hnew : (new.map (·.remediationID)).Nodup)
    (id : String) : s'.dispatchesOf id = s.dispatchesOf id ∨
      ∃ x ∈ new, x.remediationID = id ∧ s'.dispatchesOf id = s.dispatchesOf id ++ [x] := by
  have hfilter : s'.dispatchesOf id =
      s.dispatchesOf id ++ new.filter fun x => x.remediationID = id := by
    rw [Shared.dispatchesOf, h, List.filter_append]
    rfl
  by_cases hx : ∃ x ∈ new, x.remediationID = id
  · obtain ⟨x, hx, rfl⟩ := hx
    rw [Table.filter_key_eq hnew hx] at hfilter
    exact .inr ⟨x, hx, rfl, hfilter⟩
  · have hnone : new.filter (fun x => x.remediationID = id) = [] :=
      List.filter_eq_nil_iff.mpr fun x hx' => by simpa using fun h => hx ⟨x, hx', h⟩
    rw [hnone, List.append_nil] at hfilter
    exact .inl hfilter

/-- One more row of a remediation. -/
theorem Paced.sent (h : Paced cfg s) {new : List Dispatch}
    (hdispatches : s'.db.dispatches = s.db.dispatches ++ new)
    (hnew : (new.map (·.remediationID)).Nodup)
    (hsent : ∀ x ∈ new, x.createdAt = o.now ∧ Sent cfg d l o s x)
    (hclock : ∀ x ∈ s.db.dispatches, x.createdAt < o.now) : Paced cfg s' := by
  refine ⟨fun id => ?_, fun id => ?_⟩ <;>
    rcases dispatchesOf_append hdispatches hnew id with heq | ⟨x, hx, rfl, heq⟩ <;> rw [heq]
  · exact h.increasing id
  · rw [List.pairwise_append]
    refine ⟨h.increasing _, List.pairwise_singleton .., fun y hy z hz => ?_⟩
    rw [List.mem_singleton.mp hz, (hsent x hx).1]
    exact hclock y (List.mem_filter.mp hy).1
  · exact h.bounded id
  · refine (h.bounded _).concat fun hreason before streak hsplit hstreak => ?_
    cases (hsent x hx).2 with
    | execute hreason' _ _ _ | replay hreason' _ _ _ => cases hreason'.symm.trans hreason
    | @redispatch r _ _ _ hid _ _ hcount =>
      -- the reconciler counted the whole streak
      rw [redispatches_eq_countAfter, hid] at hcount
      exact (Streaks.length_le_countAfter (h.increasing _) hsplit hstreak).trans_lt hcount

theorem Paced.step (h : Paced cfg s) (hids : s.db.Distinct)
    (hstep : Step cfg d i l o s s') (hclock : ∀ x ∈ s.db.dispatches, x.createdAt < o.now) :
    Paced cfg s' := by
  cases hstep.dispatchStep hids with
  | same hsame => exact h.same hsame
  | sent hdispatches hnew hsent => exact h.sent hdispatches hnew hsent hclock

/-- The invariant holds in every state of every run at increasing times. -/
theorem paced_of_reach (h : (argus cfg).Reach ClockAdvances World.initial w) :
    Reachable cfg w ∧ Paced cfg w.shared := by
  induction h with
  | refl =>
    exact ⟨.refl, fun _ => List.Pairwise.nil, fun _ => Streaks.atMost_nil _ _⟩
  | @tail w w' e _ hok hstep ih =>
    obtain ⟨hreach, hpaced⟩ := ih
    have hsound := sound_of_reachable hreach
    refine ⟨hreach.tail trivial hstep, ?_⟩
    have hkept (heq : w'.shared.db.dispatches = w.shared.db.dispatches) : Paced cfg w'.shared :=
      hpaced.same (heq ▸ forall₂_sameDispatch_refl _)
    cases happens hsound (disciplined_none cfg w e) hstep with
    | nothing heq => exact hkept (by rw [heq])
    | crash heq => exact hkept (by rw [heq, db_crash])
    | environment henv => exact hkept (environment_frame henv).2.dispatches
    | @step i o l _ _ hact => exact hpaced.step hsound.inv.ids hact (hok i o rfl)

/-! ## What the reconciler finds -/

/-- A worker that supports the action is alive, no job is waiting to be sent, and none was written or sent
for a while. -/
structure Overdue (cfg : Outbox.Config) (now : Time) (db : Db) (r : RemediationAction) : Prop where
  worker : ∃ h ∈ db.heartbeats, now - cfg.workerLiveWindow < h.lastHeartbeatAt ∧
    r.actionType ∈ h.supportedActions
  pending : ∀ x ∈ db.dispatches, x.remediationID = r.id → x.state ≠ .pending
  created : ∀ x ∈ db.dispatches, x.remediationID = r.id →
    x.createdAt ≤ now - cfg.redispatchAfter
  published : ∀ x ∈ db.dispatches, x.remediationID = r.id → ∀ t, x.publishedAt = some t →
    t ≤ now - cfg.redispatchAfter

theorem overdue_of_isStuck {cfg : Outbox.Config} {now : Time} {db : Db} {r : RemediationAction}
    (hstuck : Outbox.isStuck cfg now r db.dispatches = true)
    (hworker : Outbox.hasWorker cfg now r db.heartbeats = true) : Overdue cfg now db r := by
  have hown := (of_decide_eq_true hstuck).2
  have hrow {x : Dispatch} (hx : x ∈ db.dispatches) (hid : x.remediationID = r.id) :=
    hown x (List.mem_filter.mpr ⟨hx, by simpa using hid⟩)
  refine ⟨?_, fun x hx hid => (hrow hx hid).1, fun x hx hid => ?_, fun x hx hid t ht => ?_⟩
  · simpa [Outbox.hasWorker] using hworker
  · simpa using (hrow hx hid).2.1
  · simpa [ht] using (hrow hx hid).2.2

/-- What is timed out had its redispatches. -/
theorem Db.exhausted_of_foldlM {cfg : Outbox.Config} {now : Time} {fresh : String}
    {xs : List Db.Stuck} {acc acc' : Bool × Db}
    (h : xs.foldlM (Db.reconcileOne cfg now fresh) acc = .ok acc') {id : String}
    (hbefore : acc.2.statusOf id ≠ some .timedOut) (hafter : acc'.2.statusOf id = some .timedOut) :
    ∃ x ∈ xs, x.id = id ∧ x.hasWorker = true ∧ cfg.maxRedispatches ≤ x.redispatches := by
  induction xs generalizing acc with
  | nil =>
    obtain rfl : acc = acc' := Except.ok.inj h
    exact absurd hafter hbefore
  | cons x xs ih =>
    obtain ⟨acc₁, hone, hall⟩ := foldlM_cons_eq_ok h
    by_cases hlater : acc₁.2.statusOf id = some .timedOut
    · have hreconciles := Db.reconciles_of_reconcileOne hone
      generalize acc₁.2 = db₁ at hreconciles hlater
      cases hreconciles with
      | none => exact absurd hlater hbefore
      | @exhausted reason hworker hcount _ =>
        by_cases hid : id = x.id
        · exact ⟨x, List.mem_cons_self, hid.symm, hworker, hcount⟩
        · have hsame := Db.statusOf_write_ne hid acc.2 now
            (.complete .timedOut (.reason reason) reason)
          exact absurd (hsame.symm.trans hlater) hbefore
      | redispatched _ _ h =>
        obtain ⟨_, -, -, -, -, -, rfl⟩ := Db.redispatch_eq_ok h
        exact absurd hlater hbefore
    · obtain ⟨y, hy, hrest⟩ := ih hall hlater
      exact ⟨y, List.mem_cons_of_mem _ hy, hrest⟩

/-- A step of the dispatcher's reconciler changes remediations by its transaction only. -/
theorem Step.reconciled (h : Step cfg d i .reconcile o s s') :
    s'.db.remediations = s.db.remediations ∨ ∃ redispatched,
      s.db.reconcile cfg.outbox o.now o.fresh s.rowLocks = .ok (redispatched, s'.db) := by
  cases h with
  | quiet h _ => exact .inl h.remediations
  | settle _ hl => cases hl
  | replay h =>
    obtain ⟨_, -, -, -, -, -, rfl⟩ := Db.redispatch_eq_ok h
    exact .inl rfl
  | reconcile _ h => exact .inr ⟨_, h⟩
  | _ => exact .inl rfl

/-- A remediation that the reconciler gives up is overdue after a full streak of redispatches. -/
theorem Paced.gives_up (h : Paced cfg s) (hids : s.db.Distinct)
    (hids' : s'.db.Distinct) (hstep : Step cfg d i .reconcile o s s')
    {r r' : RemediationAction} (hr : r ∈ s.db.remediations) (hr' : r' ∈ s'.db.remediations)
    (hid : r'.id = r.id) (hstatus : r.status ≠ .timedOut) (hstatus' : r'.status = .timedOut) :
    Overdue cfg.outbox o.now s.db r ∧ ∃ before streak, s.dispatchesOf r.id = before ++ streak ∧
      (∀ x ∈ streak, x.reason = .redispatch) ∧
      (∀ y, before.getLast? = some y → y.reason ≠ .redispatch) ∧
      streak.length = cfg.outbox.maxRedispatches := by
  rcases hstep.reconciled with hrows | ⟨redispatched, hreconcile⟩
  · obtain rfl := Table.eq_of_key_eq hids' hr' (hrows ▸ hr) hid
    exact absurd hstatus' hstatus
  have hbefore : s.db.statusOf r.id ≠ some .timedOut := by
    rw [Db.statusOf_of_mem hids hr]
    exact fun heq => hstatus (Option.some.inj heq)
  have hafter : s'.db.statusOf r.id = some .timedOut := by
    rw [← hid, Db.statusOf_of_mem hids' hr', hstatus']
  obtain ⟨x, hx, hxid, hworker, hcount⟩ := Db.exhausted_of_foldlM hreconcile hbefore hafter
  obtain ⟨r₀, hr₀, hstuck, -, rfl⟩ := Db.exists_of_mem_stuck hx
  obtain rfl := Table.eq_of_key_eq hids hr₀ hr hxid
  refine ⟨overdue_of_isStuck hstuck hworker, ?_⟩
  obtain ⟨before, streak, hsplit, hstreak, hlast⟩ :=
    Streaks.exists_last (fun x : Dispatch => x.reason = .redispatch) (s.dispatchesOf r₀.id)
  refine ⟨before, streak, hsplit, hstreak, hlast, le_antisymm ?_ ?_⟩
  · exact h.bounded r₀.id before streak [] (by rw [List.append_nil]; exact hsplit) hstreak
  · -- the count is that of the last streak
    rw [← Streaks.countAfter_eq_length (h.increasing r₀.id) hsplit hstreak hlast,
      ← redispatches_eq_countAfter]
    exact hcount

/-! ## Every run -/

/-- In every run at increasing times, no remediation is redispatched more often than configured without
being executed or replayed in between. The reconciler sends a job again, or gives a remediation up, only
where it is overdue, and gives it up only after as many redispatches as configured. -/
theorem redispatch_bounded (h : (argus cfg).Reach ClockAdvances World.initial w) :
    (∀ id before streak after, w.shared.dispatchesOf id = before ++ streak ++ after →
      (∀ x ∈ streak, x.reason = .redispatch) → streak.length ≤ cfg.outbox.maxRedispatches) ∧
    (∀ e w', (argus cfg).step w e = some w' → ∀ x ∈ w'.shared.db.dispatches,
      (∀ y ∈ w.shared.db.dispatches, y.id ≠ x.id) → x.reason = .redispatch →
      ∃ i o, e = .act i o ∧ w.waiting i = some .reconcile ∧
        ∃ r ∈ w.shared.db.remediations, r.id = x.remediationID ∧
          Overdue cfg.outbox o.now w.shared.db r) ∧
    ∀ i o w', w.waiting i = some .reconcile → (argus cfg).step w (.act i o) = some w' →
      ∀ r ∈ w.shared.db.remediations, ∀ r' ∈ w'.shared.db.remediations, r'.id = r.id →
        r.status ≠ .timedOut → r'.status = .timedOut →
        Overdue cfg.outbox o.now w.shared.db r ∧
          ∃ before streak, w.shared.dispatchesOf r.id = before ++ streak ∧
            (∀ x ∈ streak, x.reason = .redispatch) ∧
            (∀ y, before.getLast? = some y → y.reason ≠ .redispatch) ∧
            streak.length = cfg.outbox.maxRedispatches := by
  obtain ⟨hreach, hpaced⟩ := paced_of_reach h
  have hsound := sound_of_reachable hreach
  refine ⟨hpaced.bounded, fun e w' hstep x hx hnew hreason => ?_,
    fun i o w' hwaiting hstep r hr r' hr' hid hstatus hstatus' => ?_⟩
  · have hold (heq : w'.shared.db.dispatches = w.shared.db.dispatches) : False :=
      hnew x (heq ▸ hx) rfl
    cases happens hsound (disciplined_none cfg w e) hstep with
    | nothing heq => exact (hold (by rw [heq])).elim
    | crash heq => exact (hold (by rw [heq, db_crash])).elim
    | environment henv => exact (hold (environment_frame henv).2.dispatches).elim
    | @step i o l hwaiting _ hact =>
      obtain ⟨-, hsent⟩ := (hact.dispatchStep hsound.inv.ids).sent_of_new hx hnew
      cases hsent with
      | execute hreason' _ _ _ => cases hreason'.symm.trans hreason
      | replay hreason' _ _ _ => cases hreason'.symm.trans hreason
      | redispatch hl _ hr hid hstuck hworker _ =>
        exact ⟨i, o, rfl, hl ▸ hwaiting, _, hr, hid, overdue_of_isStuck hstuck hworker⟩
  · have hids' := (invariant_of_reachable (hreach.tail trivial hstep)).ids
    cases happens hsound (disciplined_none cfg w (.act i o)) hstep with
    | nothing heq =>
      obtain rfl := Table.eq_of_key_eq hsound.inv.ids (heq ▸ hr') hr hid
      exact absurd hstatus' hstatus
    | step hwaiting' _ hact =>
      obtain rfl := Option.some.inj (hwaiting'.symm.trans hwaiting)
      exact hpaced.gives_up hsound.inv.ids hids' hact hr hr' hid hstatus hstatus'

/-- The check of `ClockAdvances`. -/
def clockAdvances (w : World) : Event → Bool
  | .act _ o => w.shared.db.dispatches.all fun x => x.createdAt < o.now
  | _ => true

theorem clockAdvances_sound (w : World) (e : Event) (_ : Interleave.System.Numbered w)
    (h : clockAdvances w e = true) : ClockAdvances w e := by
  rintro i o rfl x hx
  exact of_decide_eq_true (List.all_eq_true.mp h x hx)

/-- A round of the reconciler while a worker is alive, with its publishing. -/
private def reconcileRound (pid : ℕ) (now : Time) (fresh : String) : List Event :=
  [.environment (.heartbeat ⟨"worker-1", ["restart_pod"], now⟩), .start .reconcile,
    .act pid { now := now, fresh := fresh }, .act pid { now := now + 1 },
    .act pid { now := now + 1 }, .act pid { now := now + 1 }]

/-- A job that is sent four times, the last time half an hour after the first. -/
private def lostJobs : List Event :=
  reservedPod false ++ [.act 2 { now := 1 }, .act 2 { now := 1 }, .act 2 { now := 1 }] ++
    reconcileRound 3 (10 ^ 12) "disp_1" ++ reconcileRound 4 (2 * 10 ^ 12) "disp_2" ++
    reconcileRound 5 (3 * 10 ^ 12) "disp_3" ++
    [.environment (.heartbeat ⟨"worker-1", ["restart_pod"], 4 * 10 ^ 12⟩), .start .reconcile]

private def isReconcile : Label → Bool
  | .reconcile => true
  | _ => false

private theorem eq_reconcile (h : isReconcile l = true) : l = .reconcile := by
  cases l <;> first | rfl | cases h

/-- A remediation that the reconciler gives up. -/
private def givesUp (w w' : World) : Bool :=
  w.shared.db.remediations.any fun r => w'.shared.db.remediations.any fun r' =>
    r'.id == r.id && r.status != .timedOut && r'.status == .timedOut

/-- A remediation whose jobs are all lost, when the reconciler gives it up. -/
theorem redispatch_bounded_lost :
    ∃ w w', (argus (defaultConfig .localQueue)).Reach ClockAdvances World.initial w ∧
      (argus (defaultConfig .localQueue)).step w (.act 6 { now := 4 * 10 ^ 12 }) = some w' ∧
      ∃ r ∈ w.shared.db.remediations, ∃ r' ∈ w'.shared.db.remediations, r'.id = r.id ∧
        r.status ≠ .timedOut ∧ r'.status = .timedOut ∧
        ∃ before streak, w.shared.dispatchesOf r.id = before ++ streak ∧ streak.length = 3 := by
  obtain ⟨w, hw, hnext⟩ := Interleave.System.exists_reach_of_runIf
    (argus (defaultConfig .localQueue)) Shared.initial lostJobs
    (fun w => (w.waiting 6).any isReconcile &&
      ((argus (defaultConfig .localQueue)).step w (.act 6 { now := 4 * 10 ^ 12 })).any (givesUp w))
    clockAdvances_sound (by decide +kernel)
  obtain ⟨hwaiting, hnext⟩ := Bool.and_eq_true_iff.mp hnext
  obtain ⟨l, hl, hreconcile⟩ := (Option.any_eq_true ..).mp hwaiting
  obtain ⟨w', hstep, hgivesUp⟩ := (Option.any_eq_true ..).mp hnext
  obtain ⟨r, hr, r', hr', ⟨hid, hstatus⟩, hstatus'⟩ :
      ∃ r ∈ w.shared.db.remediations, ∃ r' ∈ w'.shared.db.remediations,
        (r'.id = r.id ∧ r.status ≠ .timedOut) ∧ r'.status = .timedOut := by
    simpa [givesUp] using hgivesUp
  obtain ⟨-, before, streak, hsplit, -, -, hlength⟩ := (redispatch_bounded hw).2.2 6 _ w'
    (eq_reconcile hreconcile ▸ hl) hstep r hr r' hr' hid hstatus hstatus'
  exact ⟨w, w', hw, hstep, r, hr, r', hr', hid, hstatus, hstatus', before, streak, hsplit, hlength⟩

end Argus.System

import Argus.System.Commits

/-!
# Statuses, reservations and locks

How a step moves the status of a remediation, and the invariant of the locks: the rows that a reconciler
holds are queued or running and nobody else changes them, and a reservation that an `Execute` call
holds is neither released nor made again by another.
-/

namespace Argus.System

open Remediation (Time RemediationAction Failure Result Status Write)

/-! ## How statuses move -/

/-- What executors and reconcilers do to a status. -/
inductive Advances (source : Status) : Status → Prop
  | same : Advances source source
  | run {target : Status} (hsource : source.isDispatchable = true)
      (htarget : isClaimed target = true) : Advances source target
  | abandon (h : source = .queued) : Advances source .cancelled

variable {redispatched : Bool} {db db' : Db} {r : RemediationAction} {a b status : Status}
  {fresh id : String} {now : Time} {w : Write}

theorem Advances.trans {c : Status} (h : Advances a b) (h' : Advances b c) : Advances a c := by
  cases h' with
  | same => exact h
  | run hb hc =>
    cases h with
    | same => exact .run hb hc
    | run ha _ => exact .run ha hc
    | abandon _ => cases hb
  | abandon hb =>
    cases h with
    | same => exact .abandon hb
    | run _ hclaimed =>
      rw [hb] at hclaimed
      cases hclaimed
    | abandon _ => cases hb

theorem Advances.isReserved (h : Advances a b) (ha : isReserved a = true) :
    System.isReserved b = true := by
  cases h with
  | same => exact ha
  | run _ hclaimed => cases b <;> simp_all [System.isReserved, isClaimed]
  | abandon _ => rfl

/-- How a step of process `i` moves the status of a remediation. -/
inductive Transition (cfg : Config) (d : Discipline) (i : ℕ) (l : Label) (s s' : Shared)
    (id : String) (source : Status) : Status → Prop
  | advance {target : Status} (h : Advances source target) : Transition cfg d i l s s' id source target
  | settle {target : Status} (hsource : source = .awaitingApproval)
      (htarget : target = .approved ∨ target = .rejected ∨ target = .cancelled ∨
        target = .timedOut) : Transition cfg d i l s s' id source target
  | cancel (hl : l = .cancel id source) (hcan : source.canTransition .cancelled = true) :
      Transition cfg d i l s s' id source .cancelled
  | reserve (h : source = .approved)
      (hopen : d.incidents → ∀ r ∈ s.db.remediations, r.id = id → IncidentOpen s r.incidentID) :
      Transition cfg d i l s s' id source .queued
  | release (hcfg : cfg.executor = .helios) (h : source = .queued) (hl : l = .release id)
      (hheld : (i, id) ∈ s.holders)
      (hends : ∀ x ∈ s'.holders, x.1 ≠ i) : Transition cfg d i l s s' id source .approved

namespace Db

variable {db db' : Db} {id id' : String} {status : Status}

theorem exists_statusOf_write (h : db.statusOf id' = some status) (now : Time) (id : String)
    (w : Write) : ∃ status', (db.write now id w).statusOf id' = some status' ∧
      (status' = status ∨ id' = id ∧ w.guard status = true ∧ status' = w.status) := by
  refine ⟨_, by rw [statusOf_write, h]; rfl, ?_⟩
  dsimp only
  split
  · rename_i hguard
    exact .inr ⟨hguard.1, hguard.2, rfl⟩
  · exact .inl rfl

theorem statusOf_inserted {action : RemediationAction} {rows : List RemediationAction}
    (h : Remediation.Inserted action db.remediations rows) (hdb : db'.remediations = rows)
    (hid : db.statusOf id = some status) : db'.statusOf id = some status := by
  rw [statusOf, hdb, h.eq, Remediation.getRemediation, List.find?_append]
  rw [statusOf, Remediation.getRemediation] at hid
  obtain ⟨r, hr, rfl⟩ := Option.map_eq_some_iff.mp hid
  rw [hr]
  rfl

/-- A status that was written was reached by its guard. -/
theorem advances_write (hguard : ∀ st, w.guard st = true → Advances st w.status)
    (h : db.statusOf id' = some status) (now : Time) (id : String) :
    ∃ status', (db.write now id w).statusOf id' = some status' ∧ Advances status status' := by
  obtain ⟨status', h', rfl | ⟨-, hg, rfl⟩⟩ := exists_statusOf_write h now id w
  · exact ⟨status', h', .same⟩
  · exact ⟨w.status, h', hguard status hg⟩

theorem advances_reconciles {cfg : Outbox.Config} {x : Stuck}
    (h : Reconciles cfg now fresh x db db') (hid : db.statusOf id = some status) :
    ∃ status', db'.statusOf id = some status' ∧ Advances status status' := by
  cases h with
  | none => exact ⟨status, hid, .same⟩
  | @exhausted reason _ _ _ =>
    exact advances_write (w := .complete .timedOut (.reason reason) reason)
      (fun _ hst => .run hst rfl) hid now x.id
  | redispatched _ _ h =>
    obtain ⟨r, -, -, -, -, -, rfl⟩ := redispatch_eq_ok h
    exact ⟨status, hid, .same⟩

theorem advances_reconcile {cfg : Outbox.Config} {held : List String}
    (h : db.reconcile cfg now fresh held = .ok (redispatched, db'))
    (hid : db.statusOf id = some status) :
    ∃ status', db'.statusOf id = some status' ∧ Advances status status' := by
  let R (a b : Bool × Db) : Prop := ∀ status, a.2.statusOf id = some status →
    ∃ status', b.2.statusOf id = some status' ∧ Advances status status'
  refine rel_of_foldlM (R := R) (fun _ status h => ⟨status, h, .same⟩) ?_ ?_ h status hid
  · intro a b c hab hbc status hstatus
    obtain ⟨status₁, h₁, hadv₁⟩ := hab status hstatus
    obtain ⟨status₂, h₂, hadv₂⟩ := hbc status₁ h₁
    exact ⟨status₂, h₂, hadv₁.trans hadv₂⟩
  · intro acc x _ acc' hone status hstatus
    exact advances_reconciles (reconciles_of_reconcileOne hone) hstatus

end Db

theorem HeliosUpdate.advances {d : Discipline} {s : Shared} {u : Db.Update}
    (h : HeliosUpdate d s u) : Advances u.source u.target := by
  cases h with
  | running | succeeded => exact .run rfl rfl
  | ended hstatus _ _ => rcases hstatus with rfl | rfl <;> exact .run rfl rfl
  | overdue => exact .run rfl rfl
  | abandoned => exact .abandon rfl

theorem Db.advances_applyAll {updates : List Db.Update}
    (hadvances : ∀ u ∈ updates, Advances u.source u.target)
    (hconsistent : Consistent db.statusOf updates) (h : db.applyAll now updates = .ok db')
    (hid : db.statusOf id = some status) :
    ∃ status', db'.statusOf id = some status' ∧ Advances status status' := by
  induction updates generalizing db status with
  | nil =>
    obtain rfl : db = db' := Except.ok.inj h
    exact ⟨status, hid, .same⟩
  | cons u updates ih =>
    obtain ⟨htruthful, hsource, hrest⟩ := hconsistent
    obtain ⟨db₁, hone, hall⟩ := foldlM_cons_eq_ok h
    have hstatuses := Db.statusOf_applyOne hone htruthful hsource
    have hfirst : ∃ status₁, db₁.statusOf id = some status₁ ∧ Advances status status₁ := by
      rw [hstatuses]
      by_cases heq : id = u.id
      · subst heq
        obtain rfl := Option.some.inj (hid.symm.trans hsource)
        exact ⟨u.target, Function.update_self .., hadvances u List.mem_cons_self⟩
      · exact ⟨status, by rw [Function.update_of_ne heq, hid], .same⟩
    obtain ⟨status₁, h₁, hadv₁⟩ := hfirst
    obtain ⟨status₂, h₂, hadv₂⟩ :=
      ih (fun v hv => hadvances v (List.mem_cons_of_mem _ hv)) (hstatuses ▸ hrest) hall h₁
    exact ⟨status₂, h₂, hadv₁.trans hadv₂⟩

/-- The outcome of a call moves a status that is queued or running. -/
theorem Db.advances_outcome {actor : String} {outcome : Db.Outcome}
    (h : db.applyOne now (outcome.update id actor) = .ok db') {id' : String}
    (hid : db.statusOf id' = some status) :
    ∃ status', db'.statusOf id' = some status' ∧ Advances status status' := by
  obtain rfl := Db.applyOne_eq h
  cases outcome with
  | running result =>
    exact Db.advances_write (w := .markRunning result) (fun _ hst => .run hst rfl) hid now id
  | succeeded result =>
    obtain ⟨status₁, h₁, hadv₁⟩ :=
      Db.advances_write (w := .claim) (fun _ hst => .run hst rfl) hid now id
    obtain ⟨status₂, h₂, hadv₂⟩ := Db.advances_write (w := .complete .succeeded result "")
      (fun _ hst => .run hst rfl) h₁ now id
    exact ⟨status₂, h₂, hadv₁.trans hadv₂⟩

section

variable {cfg : Config} {d : Discipline} {i : ℕ} {l : Label} {o : Oracle} {s s' : Shared}

/-- How a step moves the status of a remediation. -/
theorem Step.transition (h : Step cfg d i l o s s') (hid : s.db.statusOf id = some status) :
    ∃ status', s'.db.statusOf id = some status' ∧ Transition cfg d i l s s' id status status' := by
  have hkept (hrows : s'.db.remediations = s.db.remediations) :
      ∃ status', s'.db.statusOf id = some status' ∧ Transition cfg d i l s s' id status status' :=
    ⟨status, (Db.statusOf_congr hrows id).trans hid, .advance .same⟩
  have hadvance {db : Db} (hdb : s'.db = db)
      (h : ∃ status', db.statusOf id = some status' ∧ Advances status status') :
      ∃ status', s'.db.statusOf id = some status' ∧ Transition cfg d i l s s' id status status' := by
    obtain ⟨status', h', hadv⟩ := h
    exact ⟨status', hdb ▸ h', .advance hadv⟩
  cases h with
  | quiet h _ => exact hkept h.remediations
  | insert h _ =>
    obtain ⟨rows, hins, rfl⟩ := Db.insertRemediation_eq_ok h
    exact ⟨status, Db.statusOf_inserted hins rfl hid, .advance .same⟩
  | settle h =>
    obtain ⟨now, q, aw, w, -, -, hsettles, -⟩ := h
    obtain ⟨status', h', rfl | ⟨rfl, hguard, rfl⟩⟩ :=
      Db.exists_statusOf_write hid now q.remediationID w
    · exact ⟨status', h', .advance .same⟩
    · refine ⟨w.status, h', .settle ((hsettles.guard_iff status).mp hguard) ?_⟩
      cases hsettles with
      | approve => exact .inl rfl
      | deny => exact .inr (.inl rfl)
      | cancel => exact .inr (.inr (.inl rfl))
      | expire => exact .inr (.inr (.inr rfl))
  | @cancel _ _ id₀ actor expected hne hcan _ _ _ =>
    obtain ⟨status', h', rfl | ⟨rfl, hguard, rfl⟩⟩ :=
      Db.exists_statusOf_write hid o.now id₀ (.cancel expected)
    · exact ⟨status', h', .advance .same⟩
    · obtain rfl : status = expected := by simpa [Write.guard] using hguard
      exact ⟨.cancelled, h', .cancel rfl hcan⟩
  | @reserve _ _ remediation dryRun actor dispatchID db h _ _ hopen =>
    obtain ⟨-, dispatches, -, rfl⟩ := Db.reserve_eq_ok h
    obtain ⟨status', h', rfl | ⟨rfl, hguard, rfl⟩⟩ :=
      Db.exists_statusOf_write hid o.now remediation.id (.markQueued dryRun)
    · exact ⟨status', h', .advance .same⟩
    · exact ⟨.queued, h', .reserve (by simpa [Write.guard] using hguard) hopen⟩
  | replay h =>
    obtain ⟨r, -, -, -, -, -, rfl⟩ := Db.redispatch_eq_ok h
    exact hkept rfl
  | reconcile _ h => exact hadvance rfl (Db.advances_reconcile h hid)
  | @release _ _ id₀ actor hcfg hheld _ _ =>
    obtain ⟨status', h', rfl | ⟨rfl, hguard, rfl⟩⟩ :=
      Db.exists_statusOf_write hid o.now id₀ .release
    · exact ⟨status', h', .advance .same⟩
    · refine ⟨.approved, h', .release hcfg (by simpa [Write.guard] using hguard) rfl hheld ?_⟩
      exact fun x hx => by simpa using (List.mem_filter.mp hx).2
  | outcome _ _ _ _ h => exact hadvance rfl (Db.advances_outcome h hid)
  | claim =>
    exact hadvance rfl (Db.advances_write (w := .claim) (fun _ hst => .run hst rfl) hid o.now _)
  | @finish _ _ id₀ error action status₀ result _ hstatus _ _ _ =>
    refine hadvance rfl (Db.advances_write (w := .complete status₀ result error)
      (fun _ hst => .run hst ?_) hid o.now _)
    rcases hstatus with rfl | rfl | rfl <;> rfl
  | commit _ hplanned h =>
    exact hadvance rfl (Db.advances_applyAll (fun u hu => (hplanned.told u hu).advances)
      hplanned.consistent h hid)
  | _ => exact hkept rfl

/-! ## Who holds what -/

/-- How a step changes the rows that a reconciler holds. -/
inductive LockStep (d : Discipline) (i : ℕ) (s s' : Shared) : Prop
  | same (hreconciler : s'.reconciler = s.reconciler) (hlocks : s'.rowLocks = s.rowLocks)
  | first (hnone : s.reconciler = none) (hreconciler : s'.reconciler = some i)
      (hids : ∀ id ∈ s'.rowLocks, s.db.statusOf id = some .running) (hdb : s'.db = s.db)
      (hholders : s'.holders = s.holders)
  | more {ids : List String} (hsome : s.reconciler = some i) (hreconciler : s'.reconciler = some i)
      (hlocks : s'.rowLocks = s.rowLocks ++ ids)
      (hids : ∀ id ∈ ids, s.db.statusOf id = some .queued) (hdb : s'.db = s.db)
      (hholders : s'.holders = s.holders) (hunheld : d.exclusive → ∀ id ∈ ids, Unheld s id)
  | last (hsome : s.reconciler = some i) (hreconciler : s'.reconciler = none)
      (hlocks : s'.rowLocks = []) (hholders : s'.holders = s.holders)

theorem Step.lockStep (h : Step cfg d i l o s s') : LockStep d i s s' := by
  cases h with
  | quiet h _ => exact .same h.reconciler h.rowLocks
  | lockRunning hnone hids => exact .first hnone rfl hids rfl rfl
  | lockLost hreconciler hids hunheld => exact .more hreconciler hreconciler rfl hids rfl rfl hunheld
  | commit _ hplanned _ => exact .last hplanned.reconciler rfl rfl rfl
  | endReconcile hreconciler => exact .last hreconciler rfl rfl rfl
  | _ => exact .same rfl rfl

/-- How a step changes who holds a reservation. -/
inductive HoldStep (i : ℕ) (s s' : Shared) : Prop
  | same (h : s'.holders = s.holders)
  | reserve {id : String} (h : s'.holders = s.holders ++ [(i, id)])
      (happroved : ∃ r ∈ s.db.remediations, r.id = id ∧ r.status = .approved)
      (hqueued : ∃ r ∈ s'.db.remediations, r.id = id ∧ r.status = .queued)
      (hfree : id ∉ s'.rowLocks)
  | last (h : s'.holders = s.holders.filter fun x => x.1 ≠ i)

theorem Step.holdStep (h : Step cfg d i l o s s') : HoldStep i s s' := by
  cases h with
  | quiet h _ => exact .same h.holders
  | @reserve _ _ remediation dryRun actor dispatchID db h _ hfree _ =>
    obtain ⟨haffects, dispatches, -, rfl⟩ := Db.reserve_eq_ok h
    cases hcfg : cfg.executor with
    | localQueue => exact .same (by simp [Shared.reserved, hcfg])
    | helios =>
      obtain ⟨r, hr, hid, hguard⟩ := Remediation.affects_iff.mp haffects
      have hholders (db : Db) : (s.reserved cfg i remediation.id dryRun db).holders =
          s.holders ++ [(i, remediation.id)] := by simp [Shared.reserved, hcfg]
      refine .reserve (hholders _) ⟨r, hr, hid, by simpa [Write.guard] using hguard⟩ ?_ hfree
      obtain ⟨r', hr', ⟨-, hnot⟩ | ⟨rfl, -, -⟩⟩ :=
        Remediation.exists_mem_updateWhere o.now remediation.id (.markQueued dryRun) hr
      · exact absurd ⟨hid, hguard⟩ hnot
      · exact ⟨_, hr', hid, rfl⟩
  | release | outcome | endHold => exact .last rfl
  | _ => exact .same rfl

/-! ## Rows that are held stay as they are -/

/-- An update leaves a row alone that it does not match. -/
theorem Db.mem_write_iff (now : Time)
    (h : ∀ r₀ ∈ db.remediations, r₀.id = r.id → ¬ (r₀.id = id ∧ w.guard r₀.status = true)) :
    r ∈ (db.write now id w).remediations ↔ r ∈ db.remediations := by
  constructor
  · intro hr
    obtain ⟨r₀, hr₀, rfl | ⟨rfl, hmatch⟩⟩ := Remediation.mem_updateWhere hr
    · exact hr₀
    · exact absurd hmatch (h r₀ hr₀ (w.sameProposal_set now r₀).id.symm)
  · intro hr
    obtain ⟨r', hr', ⟨rfl, -⟩ | ⟨-, hmatch⟩⟩ := Remediation.exists_mem_updateWhere now id w hr
    · exact hr'
    · exact absurd hmatch (h r hr rfl)

theorem Db.mem_reconciles_iff {cfg : Outbox.Config} {x : Db.Stuck}
    (h : Db.Reconciles cfg now fresh x db db') (hne : r.id ≠ x.id) :
    r ∈ db'.remediations ↔ r ∈ db.remediations := by
  cases h with
  | none => exact Iff.rfl
  | exhausted => exact Db.mem_writeAll_of_ne hne now [_]
  | redispatched _ _ h =>
    obtain ⟨_, -, -, -, -, -, rfl⟩ := Db.redispatch_eq_ok h
    exact Iff.rfl

theorem Db.mem_reconcile_iff {cfg : Outbox.Config} {held : List String}
    (h : db.reconcile cfg now fresh held = .ok (redispatched, db')) (hr : r.id ∈ held) :
    r ∈ db'.remediations ↔ r ∈ db.remediations := by
  let R (a b : Bool × Db) : Prop := r ∈ b.2.remediations ↔ r ∈ a.2.remediations
  refine rel_of_foldlM (R := R) (fun _ => Iff.rfl) (fun h h' => Iff.trans h' h) ?_ h
  intro acc x hx acc' hone
  obtain ⟨r₀, -, -, hfree, rfl⟩ := Db.exists_of_mem_stuck hx
  have hne : r.id ≠ r₀.id := fun heq => hfree (heq ▸ hr)
  exact Db.mem_reconciles_iff (Db.reconciles_of_reconcileOne hone) hne

/-- The invariant of locks. -/
structure Locks (s : Shared) : Prop where
  free : s.reconciler = none → s.rowLocks = []
  locked : ∀ id ∈ s.rowLocks, ∃ status, s.db.statusOf id = some status ∧
    status.isDispatchable = true
  holders : (s.holders.map (·.2)).Nodup
  held : ∀ x ∈ s.holders, ∃ status, s.db.statusOf x.2 = some status ∧ isReserved status = true

/-- A row that a reconciler holds stays as it is until it ends. -/
theorem Step.untouched (h : Step cfg d i l o s s') (hlocks : Locks s) (hids : s.db.Distinct)
    (hr : r.id ∈ s.rowLocks) (hkept : r.id ∈ s'.rowLocks) :
    r ∈ s'.db.remediations ↔ r ∈ s.db.remediations := by
  obtain ⟨status, hstatus, hdispatchable⟩ := hlocks.locked r.id hr
  have hne {id : String} (hfree : id ∉ s.rowLocks) : r.id ≠ id := fun heq => hfree (heq ▸ hr)
  cases h with
  | quiet h _ => rw [h.remediations]
  | insert h _ =>
    obtain ⟨rows, hins, rfl⟩ := Db.insertRemediation_eq_ok h
    show r ∈ rows ↔ _
    rw [hins.eq, List.mem_append, List.mem_singleton]
    refine ⟨fun hmem => hmem.resolve_right fun heq => ?_, .inl⟩
    obtain ⟨r₀, hr₀, hid, -⟩ := Db.exists_of_statusOf hstatus
    exact hins.id r₀ hr₀ (hid.trans (congrArg RemediationAction.id heq))
  | settle h =>
    obtain ⟨now, q, aw, w, -, -, hsettles, -⟩ := h
    refine Db.mem_write_iff now fun r₀ hr₀ hid hmatch => ?_
    have hst := Db.statusOf_of_mem hids hr₀
    rw [hid, hstatus, (hsettles.guard_iff _).mp hmatch.2] at hst
    rw [Option.some.inj hst] at hdispatchable
    cases hdispatchable
  | cancel _ _ hfree _ _ => exact Db.mem_writeAll_of_ne (hne hfree) o.now [_]
  | reserve h _ hfree _ =>
    obtain ⟨-, dispatches, -, rfl⟩ := Db.reserve_eq_ok h
    exact Db.mem_writeAll_of_ne (hne hfree) o.now [_]
  | replay h =>
    obtain ⟨_, -, -, -, -, -, rfl⟩ := Db.redispatch_eq_ok h
    exact Iff.rfl
  | reconcile _ h => exact Db.mem_reconcile_iff h hr
  | release _ _ hfree _ => exact Db.mem_writeAll_of_ne (hne hfree) o.now [_]
  | @outcome _ _ id actor outcome db _ _ hfree _ h =>
    obtain rfl := Db.applyOne_eq h
    have hid : (outcome.update id actor).id = id := by cases outcome <;> rfl
    exact Db.mem_writeAll_of_ne (fun heq => hne hfree (heq.trans hid)) o.now _
  | claim _ hfree | finish _ _ _ hfree _ => exact Db.mem_writeAll_of_ne (hne hfree) o.now [_]
  | commit => cases hkept
  | _ => exact Iff.rfl

namespace Locks

/-- One holder for each reservation. -/
theorem holder_unique (h : Locks s) {j : ℕ} (hi : (i, id) ∈ s.holders) (hj : (j, id) ∈ s.holders) :
    i = j :=
  congrArg Prod.fst (Table.eq_of_key_eq h.holders hi hj rfl)

/-- A reservation that is held is not made again. -/
theorem not_approved (h : Locks s) (hids : s.db.Distinct) {x : ℕ × String} (hx : x ∈ s.holders)
    (hr : r ∈ s.db.remediations) (hid : r.id = x.2) : r.status ≠ .approved := by
  intro happroved
  obtain ⟨status, hstatus, hreserved⟩ := h.held x hx
  rw [← hid, Db.statusOf_of_mem hids hr, happroved] at hstatus
  obtain rfl := Option.some.inj hstatus
  cases hreserved

private theorem locked' (h : Locks s) (hids : s.db.Distinct)
    (hids' : s'.db.Distinct) (hstep : Step cfg d i l o s s') :
    ∀ id ∈ s'.rowLocks, ∃ status, s'.db.statusOf id = some status ∧
      status.isDispatchable = true := by
  intro id hid
  cases hstep.lockStep with
  | same hreconciler hlocks =>
    rw [hlocks] at hid
    obtain ⟨status, hstatus, hdispatchable⟩ := h.locked id hid
    obtain ⟨r, hr, rfl, rfl⟩ := Db.exists_of_statusOf hstatus
    have hr' := (hstep.untouched h hids hid (hlocks ▸ hid)).mpr hr
    exact ⟨r.status, Db.statusOf_of_mem hids' hr', hdispatchable⟩
  | first _ _ hrunning hdb _ => exact ⟨.running, hdb ▸ hrunning id hid, rfl⟩
  | more _ _ hlocks hqueued hdb _ _ =>
    rw [hlocks, List.mem_append] at hid
    rw [hdb]
    rcases hid with hid | hid
    · exact h.locked id hid
    · exact ⟨.queued, hqueued id hid, rfl⟩
  | last _ _ hlocks _ =>
    rw [hlocks] at hid
    cases hid

private theorem held' (h : Locks s)
    (hids' : s'.db.Distinct) (hstep : Step cfg d i l o s s') :
    ∀ x ∈ s'.holders, ∃ status, s'.db.statusOf x.2 = some status ∧ isReserved status = true := by
  -- whoever still holds a reservation after a step keeps it reserved
  have hold {x : ℕ × String} (hx : x ∈ s.holders)
      (hx' : x ∈ s'.holders) : ∃ status, s'.db.statusOf x.2 = some status ∧
        isReserved status = true := by
    obtain ⟨status, hstatus, hreserved⟩ := h.held x hx
    obtain ⟨status', hstatus', htransition⟩ := hstep.transition hstatus
    refine ⟨status', hstatus', ?_⟩
    cases htransition with
    | advance hadvance => exact hadvance.isReserved hreserved
    | settle hsource _ =>
      rw [hsource] at hreserved
      cases hreserved
    | cancel => rfl
    | reserve => rfl
    | release _ _ _ hheld hends =>
      -- the release ends the hold of the only holder
      have heq : x = (i, x.2) := Table.eq_of_key_eq h.holders hx hheld rfl
      exact absurd (congrArg Prod.fst heq) (hends x hx')
  intro x hx
  cases hstep.holdStep with
  | same heq => exact hold (heq ▸ hx) hx
  | reserve heq _ hqueued _ =>
    have hmem := hx
    rw [heq, List.mem_append, List.mem_singleton] at hmem
    rcases hmem with hmem | rfl
    · exact hold hmem hx
    · obtain ⟨r, hr, rfl, hstatus⟩ := hqueued
      exact ⟨.queued, hstatus ▸ Db.statusOf_of_mem hids' hr, rfl⟩
  | last heq =>
    have hmem := hx
    rw [heq, List.mem_filter] at hmem
    exact hold hmem.1 hx

/-- Every step keeps the invariant. -/
theorem step (h : Locks s) (hids : s.db.Distinct)
    (hids' : s'.db.Distinct) (hstep : Step cfg d i l o s s') :
    Locks s' where
  free hnone := by
    cases hstep.lockStep with
    | same hreconciler hlocks => exact hlocks.trans (h.free (hreconciler.symm.trans hnone))
    | first _ hreconciler _ _ _ | more _ hreconciler _ _ _ _ _ => simp [hreconciler] at hnone
    | last _ _ hlocks _ => exact hlocks
  locked := h.locked' hids hids' hstep
  holders := by
    cases hstep.holdStep with
    | same heq => exact heq ▸ h.holders
    | reserve heq happroved _ _ =>
      rw [heq]
      refine Table.nodup_map_concat h.holders fun x hx hid => ?_
      obtain ⟨r, hr, hrid, hstatus⟩ := happroved
      exact h.not_approved hids hx hr (hrid.trans hid.symm) hstatus
    | last heq =>
      rw [heq]
      exact h.holders.sublist (List.filter_sublist.map _)
  held := h.held' hids' hstep

/-- The death of a call ends what it held. -/
theorem crash (h : Locks s) (i : ℕ) : Locks (crash i s) := by
  have hdrop : Locks ((s.endHold i).dropDispatches i) :=
    ⟨h.free, h.locked, h.holders.sublist (List.filter_sublist.map _),
      fun x hx => h.held x (List.mem_filter.mp hx).1⟩
  unfold System.crash
  dsimp only
  split
  · exact ⟨fun _ => rfl, fun id hid => (by cases hid), hdrop.holders, hdrop.held⟩
  · exact hdrop

/-- What others do leaves locks and statuses alone. -/
theorem environment (h : Locks s) {e : Environment} (henv : environment e s = some s') :
    Locks s' := by
  cases e with
  | incident _ | heartbeat _ | workflow _ _ =>
    obtain rfl := Option.some.inj henv
    exact ⟨h.free, h.locked, h.holders, h.held⟩
  | submission id state =>
    simp only [System.environment] at henv
    split at henv
    · cases henv
    · obtain rfl := Option.some.inj henv
      exact ⟨h.free, h.locked, h.holders, h.held⟩

end Locks

end

end Argus.System

import Argus.System.Steps

/-!
# What transactions commit

One specification for each transaction, and the changes that a step makes: a sequence of changes of single
rows, or the insert of a row.
-/

namespace Argus.System

open Remediation (Time RemediationAction Failure Candidate Result Status Write)
open Approvals (Request SameRequest RequestFor Decision)
open Outbox (Dispatch)
open Helios (Workflow)

/-! ## Transactions -/

variable {dryRun : Bool} {e : Environment} {held : List String} {o : Oracle}
  {reason : Outbox.Reason} {remediation : RemediationAction}
  {actor actorID actorType dispatchID id : String} {x : Stuck}

namespace Db

variable {db db' : Db}

theorem remediation_eq_ok {r : RemediationAction} (h : db.remediation id = .ok r) :
    ∃ r₀, Remediation.getRemediation db.remediations id = some r₀ ∧ r = r₀.decoded := by
  unfold remediation at h
  split at h
  · rename_i r₀ hget
    exact ⟨r₀, hget, (Except.ok.inj h).symm⟩
  · cases h

theorem insertRemediation_eq_ok {action : RemediationAction}
    (h : db.insertRemediation action actor = .ok db') :
    ∃ rows, Remediation.Inserted action db.remediations rows ∧
      db' = Db.record { db with remediations := rows } (remediationEntry actor "user"
        "remediation.proposed" action.id none action.status) := by
  unfold insertRemediation at h
  split at h
  · cases h
  split at h
  · cases h
  · rename_i rows hcreate
    exact ⟨rows, Remediation.inserted_of_createRemediation hcreate, (Except.ok.inj h).symm⟩

/-- The dispatches after a reservation. -/
inductive Reserved (executor : Executor) (now : Time) (fresh : String)
    (remediation : RemediationAction) (dryRun : Bool) (dispatches : List Dispatch) :
    List Dispatch → Prop
  | helios (h : executor = .helios) :
      Reserved executor now fresh remediation dryRun dispatches dispatches
  | localQueue {id : String} (h : executor = .localQueue)
      (hnew : ∀ x ∈ dispatches, x.id ≠ id) :
      Reserved executor now fresh remediation dryRun dispatches (dispatches ++
        [Outbox.newDispatch now { remediation with queuedAt := some now, dryRun := dryRun } id
          .execute])

variable {fresh : String} {now : Time}

theorem reserve_eq_ok {executor : Executor}
    (h : db.reserve executor now fresh remediation dryRun actor = .ok (dispatchID, db')) :
    db.affects remediation.id (.markQueued dryRun) = true ∧
      ∃ dispatches, Reserved executor now fresh remediation dryRun db.dispatches dispatches ∧
        db' = { (db.write now remediation.id (.markQueued dryRun)).record
          (remediationEntry actor "user" "remediation.execute_requested" remediation.id
            (some remediation.status) (some .queued)) with dispatches := dispatches } := by
  unfold reserve at h
  split_ifs at h with haffects
  refine ⟨by simpa using haffects, ?_⟩
  cases executor with
  | helios =>
    cases h
    exact ⟨db.dispatches, .helios rfl, rfl⟩
  | localQueue =>
    simp only at h
    split at h
    · cases h
    · rename_i dispatches henqueue
      cases h
      unfold Outbox.enqueue at henqueue
      split_ifs at henqueue with hexists
      obtain rfl := Option.some.inj henqueue
      exact ⟨_, .localQueue rfl (by simpa using hexists), rfl⟩

theorem redispatch_eq_ok
    (h : db.redispatch now fresh id reason actorID actorType = .ok (dispatchID, db')) :
    ∃ r ∈ db.remediations, r.id = id ∧ r.status.isDispatchable = true ∧
      db.statusOf id = some r.status ∧ (∀ x ∈ db.dispatches, x.id ≠ dispatchID) ∧
      db' = Db.record { db with
        dispatches := db.dispatches ++ [Outbox.newDispatch now r.decoded dispatchID reason] }
        (remediationEntry actorID actorType "remediation.redispatched" id (some r.status)
          (some r.status)) := by
  unfold redispatch at h
  split at h
  · cases h
  · rename_i r hget
    obtain ⟨r₀, hget₀, rfl⟩ := remediation_eq_ok hget
    obtain ⟨hr₀, hid⟩ := Remediation.mem_of_getRemediation hget₀
    split_ifs at h with hdispatchable
    simp only at h
    split at h
    · cases h
    · rename_i dispatches henqueue
      cases h
      unfold Outbox.enqueue at henqueue
      split_ifs at henqueue with hexists
      obtain rfl := Option.some.inj henqueue
      have hstatus : r₀.decoded.status.isDispatchable = true := by simpa using hdispatchable
      refine ⟨r₀, hr₀, hid, hstatus, ?_, by simpa using hexists, rfl⟩
      rw [statusOf, hget₀]
      rfl

/-- What the dispatcher's reconciler does with one stuck remediation. -/
inductive Reconciles (cfg : Outbox.Config) (now : Time) (fresh : String) (x : Stuck) (db : Db) :
    Db → Prop
  | none : Reconciles cfg now fresh x db db
  | exhausted {reason : String} (hworker : x.hasWorker = true)
      (hcount : cfg.maxRedispatches ≤ x.redispatches)
      (haffects : db.affects x.id (.complete .timedOut (.reason reason) reason) = true) :
      Reconciles cfg now fresh x db
        ((db.write now x.id (.complete .timedOut (.reason reason) reason)).record
          (remediationEntry "" "system" "remediation.dispatch_exhausted" x.id (some x.status)
            (some .timedOut)))
  | redispatched {dispatchID : String} {db' : Db} (hworker : x.hasWorker = true)
      (hcount : x.redispatches < cfg.maxRedispatches)
      (h : db.redispatch now fresh x.id .redispatch "" "system" = .ok (dispatchID, db')) :
      Reconciles cfg now fresh x db db'

theorem reconciles_of_reconcileOne {cfg : Outbox.Config} {acc acc' : Bool × Db}
    (h : reconcileOne cfg now fresh acc x = .ok acc') :
    Reconciles cfg now fresh x acc.2 acc'.2 := by
  unfold reconcileOne at h
  simp only at h
  split_ifs at h with hworker hcount
  · obtain rfl := Except.ok.inj h
    exact .none
  · have hworker : x.hasWorker = true := by simpa using hworker
    split at h
    · rename_i db₁ hfinish
      obtain rfl := Except.ok.inj h
      unfold finish at hfinish
      split at hfinish
      · rename_i haffects
        obtain ⟨-, rfl⟩ := Prod.mk.inj hfinish
        exact .exhausted hworker hcount haffects
      · cases hfinish
    · cases h
  · have hworker : x.hasWorker = true := by simpa using hworker
    obtain ⟨⟨dispatchID, db₁⟩, hre, rfl⟩ := exists_of_map_eq_ok h
    exact .redispatched hworker (not_le.mp hcount) hre

/-- What the reconciler read of a stuck remediation. -/
theorem exists_of_mem_stuck {cfg : Outbox.Config} (h : x ∈ db.stuck cfg now held) :
    ∃ r ∈ db.remediations, Outbox.isStuck cfg now r db.dispatches = true ∧ r.id ∉ held ∧
      x = ⟨r.id, r.status, Outbox.redispatches r db.dispatches,
        Outbox.hasWorker cfg now r db.heartbeats⟩ := by
  unfold stuck at h
  obtain ⟨r, hr, rfl⟩ := List.mem_map.mp h
  obtain ⟨hmem, hstuck⟩ := Table.mem_of_mem_select hr
  simp only [Bool.and_eq_true, Bool.not_eq_true', List.contains_eq_mem, decide_eq_false_iff_not]
    at hstuck
  exact ⟨r, hmem, hstuck.1, hstuck.2, rfl⟩

theorem nodup_stuck (hids : db.Distinct) (cfg : Outbox.Config) (now : Time)
    (held : List String) : ((db.stuck cfg now held).map Stuck.id).Nodup := by
  unfold stuck
  rw [List.map_map]
  exact Table.nodup_select hids

end Db

/-! ## Changes -/

section

variable {cfg : Config} {d : Discipline} {l : Label} {s : Shared}

variable {db : Db}

/-- A change of the database that keeps what the invariants speak of, apart from remediation rows. -/
theorem SameRest.of_db (happrovals : db.approvals = s.db.approvals)
    (hdispatches : db.dispatches = s.db.dispatches) (hcontrol : db.control = s.db.control) :
    SameRest s (s.withDb db) :=
  ⟨happrovals, hdispatches, hcontrol, rfl, rfl, rfl, rfl, rfl, rfl, rfl, .refl _⟩

variable {s' : Shared}

/-- A step that touches nothing the invariants speak of. -/
theorem Changes.frame (hrows : s'.db.remediations = s.db.remediations) (hrest : SameRest s s') :
    Changes cfg d l s s' := .single (.frame hrows hrest)

/-- Audit entries are outside of the invariants. -/
theorem Changes.record (h : Changes cfg d l s (s.withDb db)) (entry : AuditEntry) :
    Changes cfg d l s (s.withDb (db.record entry)) :=
  h.tail (.frame rfl (SameRest.of_db (s := s.withDb db) rfl rfl rfl))

variable {now : Time}

/-- An update with its entry. -/
theorem Changes.write {w : Write} (h : Licensed cfg d s id w) (entry : AuditEntry) :
    Changes cfg d l s (s.withDb ((s.db.write now id w).record entry)) :=
  Changes.record (.single (.write now id w h)) entry

/-- So are locks, and who holds a reservation. -/
theorem Changes.bookkeeping {s₁ : Shared} (h : Changes cfg d l s s₁) (hdb : s'.db = s₁.db)
    (hrest : SameRest s₁ s') : Changes cfg d l s s' :=
  h.tail (.frame (congrArg Db.remediations hdb) hrest)

theorem settlement_changes (h : Settlement cfg s.db db) : Changes cfg d l s (s.withDb db) := by
  obtain ⟨now, q, aw, w, hq, hpending, hsettles, -⟩ := h
  refine Changes.record (Changes.record ?_ _) _
  exact .single (.settle now q aw w hq hpending hsettles)

variable {fresh : String}

theorem reserve_changes {pid : ℕ}
    (h : s.db.reserve cfg.executor now fresh remediation dryRun actor = .ok (dispatchID, db)) :
    Changes cfg d l s (s.reserved cfg pid remediation.id dryRun db) := by
  obtain ⟨haffects, dispatches, hreserved, rfl⟩ := Db.reserve_eq_ok h
  have henqueues : Enqueues cfg s remediation.id dryRun dispatches := by
    unfold Enqueues
    cases hreserved with
    | helios hcfg => rw [hcfg]
    | localQueue hcfg hnew =>
      rw [hcfg]
      exact ⟨_, rfl, ⟨rfl, rfl, rfl, rfl, rfl, hnew⟩, rfl⟩
  refine .tail (.single (.reserve now pid remediation.id dryRun dispatches haffects henqueues)) ?_
  exact .frame rfl ⟨rfl, rfl, rfl, rfl, rfl, rfl, rfl, rfl, rfl, rfl, .refl _⟩

theorem redispatch_changes (hreason : reason ≠ .execute)
    (h : s.db.redispatch now fresh id reason actorID actorType = .ok (dispatchID, db)) :
    Changes cfg d l s (s.withDb db) := by
  obtain ⟨r, hr, rfl, hstatus, -, hnew, rfl⟩ := Db.redispatch_eq_ok h
  refine Changes.record (.single (.enqueue _ hr hstatus ⟨rfl, rfl, rfl, rfl, rfl, hnew⟩ ?_)) _
  exact hreason

theorem reconciles_changes {x : Db.Stuck} (h : Db.Reconciles cfg.outbox now fresh x s.db db) :
    Changes cfg d l s (s.withDb db) := by
  cases h with
  | none => exact .refl
  | exhausted =>
    refine Changes.write ?_ _
    refine ⟨fun workflowID name hresult => ?_, trivial⟩
    cases hresult
  | redispatched _ _ h => exact redispatch_changes (by decide) h

theorem reconcile_changes {redispatched : Bool}
    (h : s.db.reconcile cfg.outbox now fresh held = .ok (redispatched, db)) :
    Changes cfg d l s (s.withDb db) := by
  let R (a b : Bool × Db) : Prop := Changes cfg d l (s.withDb a.2) (s.withDb b.2)
  have htrans {a b c : Bool × Db} (h : R a b) (h' : R b c) : R a c :=
    Relation.ReflTransGen.trans h h'
  refine rel_of_foldlM (R := R) (fun _ => .refl) htrans ?_ h
  intro acc x _ acc' hone
  exact reconciles_changes (s := s.withDb acc.2) (Db.reconciles_of_reconcileOne hone)

/-! ### Updates that follow Helios -/

variable {u : Db.Update}

/-- Helios did nothing since: what it told is still right. -/
theorem HeliosUpdate.congr (h : HeliosUpdate d s u) (hworkflows : s'.workflows = s.workflows)
    (hreservations : s'.reservations = s.reservations)
    (hattempts : s'.cancelAttempts = s.cancelAttempts) : HeliosUpdate d s' u := by
  have hsubmitted {id : String} {w : Workflow} (hw : Submitted d s id w) : Submitted d s' id w :=
    ⟨hworkflows ▸ hw.mem, hw.remediationID, fun hd => by
      rw [Shared.reservationsOf, hreservations]
      exact hw.current hd⟩
  have hreports {id : String} {status : Status} {result : Result}
      (hr : Reports d s id status result) : Reports d s' id status result := by
    intro workflowID name hresult
    obtain ⟨w, hid, hw, hstate⟩ := hr workflowID name hresult
    exact ⟨w, hid, hsubmitted hw, hstate⟩
  have hlive {id : String} {w : Workflow} (hw : Live s' id w) : Live s id w :=
    ⟨hworkflows ▸ hw.mem, hw.remediationID, hw.active⟩
  cases h with
  | running h honly => exact .running (hreports h) fun hd w hw => honly hd w (hlive hw)
  | succeeded h hno => exact .succeeded (hreports h) fun hd w hw => hno hd w (hlive hw)
  | ended hstatus h hno => exact .ended hstatus (hreports h) fun hd w hw => hno hd w (hlive hw)
  | overdue h honly =>
    exact .overdue (hreports h) fun hd =>
      ⟨fun w hw => (honly hd).1 w (hlive hw), hattempts ▸ (honly hd).2⟩
  | abandoned hno => exact .abandoned fun hd w hw => hno hd w (hlive hw)

theorem HeliosUpdate.truthful (h : HeliosUpdate d s u) : u.Truthful := by
  cases h <;> rfl

/-- One update from the status that its entry names. -/
theorem applyOne_changes (hcfg : cfg.executor = .helios) (htold : HeliosUpdate d s u)
    (hqueued : u.target = .cancelled → s.db.statusOf u.id = some .queued)
    (h : s.db.applyOne now u = .ok db) : Changes cfg d l s (s.withDb db) := by
  have hdone : cfg.executor = .localQueue → Done cfg s u.id := fun hlocal => by
    rw [hcfg] at hlocal
    cases hlocal
  obtain rfl := Db.applyOne_eq h
  refine Changes.record ?_ _
  cases htold with
  | running hreports _ => exact .single (.write now _ _ hreports)
  | succeeded hreports _ =>
    refine .tail (.single (.write now _ .claim trivial)) (.write now _ _ ⟨?_, fun hlocal => ?_⟩)
    · intro workflowID name hresult
      obtain ⟨w, hid, hw, hstate⟩ := hreports workflowID name hresult
      exact ⟨w, hid, ⟨hw.mem, hw.remediationID, hw.current⟩, hstate⟩
    · rw [hcfg] at hlocal
      cases hlocal
  | ended hstatus hreports _ =>
    refine .single (.write now _ _ ⟨hreports, ?_⟩)
    rcases hstatus with rfl | rfl
    · exact hdone
    · trivial
  | overdue hreports _ => exact .single (.write now _ _ ⟨hreports, trivial⟩)
  | abandoned _ =>
    refine .single (.write now _ _ ⟨?_, hcfg, ?_, ?_⟩)
    · intro workflowID name hresult
      cases hresult
    · intro workflowID name hresult
      cases hresult
    · exact Db.exists_of_statusOf (hqueued rfl)

/-- A cancellation is planned for a queued row only. -/
theorem HeliosUpdate.source_of_cancelled (h : HeliosUpdate d s u) (htarget : u.target = .cancelled) :
    u.source = .queued := by
  cases h with
  | ended hstatus _ _ =>
    rcases hstatus with rfl | rfl <;> cases htarget
  | running | succeeded | overdue => cases htarget
  | abandoned => rfl

theorem applyAll_changes {updates : List Db.Update} (hcfg : cfg.executor = .helios)
    (hconsistent : Consistent s.db.statusOf updates) (htold : ∀ u ∈ updates, HeliosUpdate d s u)
    (h : s.db.applyAll now updates = .ok db) : Changes cfg d l s (s.withDb db) := by
  induction updates generalizing s with
  | nil =>
    obtain rfl : s.db = db := Except.ok.inj h
    exact .refl
  | cons u updates ih =>
    obtain ⟨htruthful, hsource, hrest⟩ := hconsistent
    rw [Db.applyAll, List.foldlM_cons] at h
    cases hone : s.db.applyOne now u with
    | error e =>
      rw [hone] at h
      cases h
    | ok db₁ =>
      rw [hone] at h
      have hu := htold u List.mem_cons_self
      have hfirst : Changes cfg d l s (s.withDb db₁) :=
        applyOne_changes hcfg hu (fun htarget => hu.source_of_cancelled htarget ▸ hsource) hone
      refine hfirst.trans (ih (s := s.withDb db₁) ?_ ?_ h)
      · show Consistent db₁.statusOf updates
        rw [Db.statusOf_applyOne hone htruthful hsource]
        exact hrest
      · exact fun v hv => (htold v (List.mem_cons_of_mem _ hv)).congr rfl rfl rfl

/-! ### Steps -/

/-- A step that inserts a row, with what its call counted. -/
structure Inserts (cfg : Config) (d : Discipline) (l : Label) (s s' : Shared) : Prop where
  row : ∃ incident c actor role id clock recent failed,
    l = .insert (c.identity incident) c.parameters ∧
    Remediation.Inserted
      (Remediation.newRemediation cfg.engine incident c actor role id clock recent failed)
      s.db.remediations s'.db.remediations ∧
    (d.proposals → Counted (c.identity incident) recent s ∧ c.parameters.Plain)
  rest : SameRest s s'

variable {i : ℕ}

/-- Every step inserts a row, or is a sequence of changes of rows. -/
theorem Step.changes_or_inserts (h : Step cfg d i l o s s') :
    Changes cfg d .read s s' ∨ Inserts cfg d l s s' := by
  cases h with
  | quiet _ hchanges => exact .inl hchanges
  | insert h hcounted =>
    obtain ⟨rows, hins, rfl⟩ := Db.insertRemediation_eq_ok h
    exact .inr ⟨⟨_, _, _, _, _, _, _, _, rfl, hins, hcounted⟩, .of_db rfl rfl rfl⟩
  | settle h => exact .inl (settlement_changes h)
  | cancel hne hcan _ _ _ =>
    refine .inl (Changes.write ?_ _)
    exact ⟨hne, hcan⟩
  | reserve h _ _ _ => exact .inl (reserve_changes h)
  | replay h => exact .inl (redispatch_changes (by decide) h)
  | reconcile _ h => exact .inl (reconcile_changes h)
  | release hcfg _ _ _ =>
    refine .inl (Changes.bookkeeping (Changes.write ?_ _) rfl ?_)
    · exact hcfg
    · exact ⟨rfl, rfl, rfl, rfl, rfl, rfl, rfl, rfl, rfl, rfl, .refl _⟩
  | @outcome _ _ id actor outcome db hcfg _ _ htold h =>
    refine .inl (Changes.bookkeeping (applyOne_changes hcfg htold (fun htarget => ?_) h) rfl ?_)
    · cases outcome <;> cases htarget
    · exact ⟨rfl, rfl, rfl, rfl, rfl, rfl, rfl, rfl, rfl, rfl, .refl _⟩
  | claim => exact .inl (.single (.write o.now _ .claim trivial))
  | finish _ _ hlicensed _ _ => exact .inl (Changes.write hlicensed _)
  | submit hnew hrow _ _ => exact .inl (.single (.submit _ _ _ hnew hrow))
  | cancelWorkflow h =>
    refine .inl (Changes.frame rfl ⟨rfl, rfl, rfl, rfl, rfl, rfl, rfl, rfl, rfl, rfl, ?_⟩)
    rcases h with rfl | rfl
    · exact .refl _
    · exact .move _ _ _
  | commit hcfg hplanned h =>
    refine .inl (Changes.bookkeeping
      (applyAll_changes hcfg hplanned.consistent hplanned.told h) rfl ?_)
    exact ⟨rfl, rfl, rfl, rfl, rfl, rfl, rfl, rfl, rfl, rfl, .refl _⟩
  | _ => exact .inl (Changes.frame rfl ⟨rfl, rfl, rfl, rfl, rfl, rfl, rfl, rfl, rfl, rfl, .refl _⟩)

theorem Step.changes (h : Step cfg d i l o s s') : ∃ l', Changes cfg d l' s s' := by
  rcases h.changes_or_inserts with h | ⟨⟨_, _, _, _, _, _, _, _, -, hins, -⟩, hrest⟩
  · exact ⟨.read, h⟩
  · exact ⟨_, .single (.insert hins hrest)⟩

/-- What others do to incidents, heartbeats and workflows is outside of the invariants. -/
theorem environment_frame (h : environment e s = some s') :
    s'.db.remediations = s.db.remediations ∧ SameRest s s' := by
  cases e with
  | incident _ | heartbeat _ =>
    obtain rfl := Option.some.inj h
    exact ⟨rfl, rfl, rfl, rfl, rfl, rfl, rfl, rfl, rfl, rfl, rfl, .refl _⟩
  | workflow id state =>
    obtain rfl := Option.some.inj h
    exact ⟨rfl, rfl, rfl, rfl, rfl, rfl, rfl, rfl, rfl, rfl, rfl, .move _ _ _⟩
  | submission id state =>
    simp only [environment] at h
    split at h
    · cases h
    · rename_i hnew
      obtain rfl := Option.some.inj h
      refine ⟨rfl, rfl, rfl, rfl, rfl, rfl, rfl, rfl, rfl, rfl, rfl, .cons rfl ?_⟩
      simpa using hnew

theorem environment_change (h : environment e s = some s') : Change cfg d l s s' :=
  .frame (environment_frame h).1 (environment_frame h).2

theorem crash_frame (i : ℕ) (s : Shared) :
    (crash i s).db.remediations = s.db.remediations ∧ SameRest s (crash i s) := by
  unfold crash
  dsimp only
  split <;> exact ⟨rfl, rfl, rfl, rfl, rfl, rfl, rfl, rfl, rfl, rfl, rfl, .refl _⟩

theorem crash_change (i : ℕ) (s : Shared) : Change cfg d l s (crash i s) :=
  .frame (crash_frame i s).1 (crash_frame i s).2

theorem Moves.changes (h : Moves cfg d i s s') : ∃ l, Changes cfg d l s s' := by
  cases h with
  | step _ h => exact h.changes
  | environment h => exact ⟨.read, .single (environment_change h)⟩
  | crash _ => exact ⟨.read, .single (crash_change _ s)⟩

end

end Argus.System

import Argus.System.ApprovalSafety

/-!
# Safety of the dispatcher

A publisher decides what to write for a dispatch from a status that it read without a lock, and from the
answers of JetStream. What it decided stays right until it commits: a remediation that has ended stays
so, and what JetStream accepted it keeps.
-/

namespace Argus.System

open Interleave (Spec Safe Yields)
open Remediation (Time RemediationAction Failure Status)
open Outbox (Dispatch SameDispatch)

variable {cfg : Config} {d : Discipline} {i : ℕ} {l : Label} {o : Oracle} {s s' : Shared}

/-! ## Dispatch rows -/

/-- Every dispatch row is kept. -/
theorem Change.dispatch (h : Change cfg d l s s') {x : Dispatch} (hx : x ∈ s.db.dispatches) :
    ∃ x' ∈ s'.db.dispatches, SameDispatch x x' := by
  cases h with
  | frame _ hrest | insert _ hrest => exact ⟨x, hrest.dispatches ▸ hx, .refl x⟩
  | reserve now pid id dryRun dispatches _ henqueues =>
    refine ⟨x, ?_, .refl x⟩
    show x ∈ dispatches
    unfold Enqueues at henqueues
    split at henqueues
    · exact henqueues ▸ hx
    · obtain ⟨y, rfl, -, -⟩ := henqueues
      exact List.mem_append_left _ hx
  | enqueue => exact ⟨x, List.mem_append_left _ hx, .refl x⟩
  | publish y _ =>
    obtain ⟨x', hx', ⟨rfl, -⟩ | ⟨rfl, -⟩⟩ := Outbox.exists_mem_update y.1 y.2 hx
    · exact ⟨x', hx', .refl x'⟩
    · exact ⟨_, hx', y.2.sameDispatch_set x⟩
  | _ => exact ⟨x, hx, .refl x⟩

/-- The remediation of a dispatch has ended. -/
def Ended (s : Shared) (id : String) : Prop :=
  ∃ r ∈ s.db.remediations, r.id = id ∧ r.status.isTerminalState = true

theorem keeps_ended (cfg : Config) (d : Discipline) (id : String) :
    Keeps cfg d fun s => Ended s id := by
  rintro l s s' - hchange ⟨r, hr, hid, hterminal⟩
  obtain ⟨r', hr', hrow⟩ := hchange.row hr
  refine ⟨r', hr', hrow.sameProposal.id.trans hid, ?_⟩
  rw [(hrow.terminal hterminal).1]
  exact hterminal

/-- What a publisher may write stays so. -/
theorem keeps_justified (cfg : Config) (d : Discipline) (x : String × Outbox.Write) :
    Keeps cfg d fun s => Justified cfg s x := by
  obtain ⟨id, w⟩ := x
  intro l s s' htables hchange h
  cases w with
  | skipped =>
    intro hlocal
    obtain ⟨y, hy, hid, hended⟩ := h hlocal
    obtain ⟨y', hy', hsame⟩ := hchange.dispatch hy
    refine ⟨y', hy', hsame.id.trans hid, ?_⟩
    rw [hsame.remediationID]
    exact keeps_ended cfg d y.remediationID l s s' htables hchange hended
  | published now =>
    obtain ⟨y, hy, hid, hevent⟩ := h
    obtain ⟨y', hy', hsame⟩ := hchange.dispatch hy
    refine ⟨y', hy', hsame.id.trans hid, ?_⟩
    rw [hsame.event]
    exact hchange.grows.stream hevent
  | failed attempts retryAt => trivial

/-- What a publisher knows of a row that it picked, with the status it read. -/
def Picked (cfg : Config) (s : Shared) (x : Dispatch × Status) : Prop :=
  ∃ y ∈ s.db.dispatches, y.id = x.1.id ∧ y.event = x.1.event ∧
    (cfg.executor = .localQueue → x.2.isDispatchable = false → Ended s y.remediationID)

theorem keeps_picked (cfg : Config) (d : Discipline) (x : Dispatch × Status) :
    Keeps cfg d fun s => Picked cfg s x := by
  rintro l s s' htables hchange ⟨y, hy, hid, hevent, hended⟩
  obtain ⟨y', hy', hsame⟩ := hchange.dispatch hy
  refine ⟨y', hy', hsame.id.trans hid, hsame.event.trans hevent, fun hlocal hstatus => ?_⟩
  rw [hsame.remediationID]
  exact keeps_ended cfg d y.remediationID l s s' htables hchange (hended hlocal hstatus)

/-- A reserved remediation that is not dispatchable has ended. -/
theorem isTerminalState_of_isReserved {status : Status} (h : isReserved status = true)
    (hnot : status.isDispatchable = false) : status.isTerminalState = true := by
  cases status <;> simp_all [isReserved, Status.isDispatchable, Status.isTerminalState]

variable {writes : List (String × Outbox.Write)} {onlyID : String} {now : Time}

theorem picked_of_mem_due (hinv : Invariant cfg d s) {x : Dispatch × Status}
    (hx : x ∈ s.due cfg now onlyID) : Picked cfg s x := by
  unfold Shared.due at hx
  obtain ⟨y, hy, heq⟩ := List.mem_filterMap.mp hx
  obtain ⟨r, hget, rfl⟩ := Option.map_eq_some_iff.mp heq
  have hdue := List.mem_of_mem_take hy
  rw [List.mem_insertionSort, List.mem_filter] at hdue
  refine ⟨y, hdue.1, rfl, rfl, fun hlocal hstatus => ?_⟩
  obtain ⟨hr, hid⟩ := Remediation.mem_of_getRemediation hget
  obtain ⟨r', hr', hid', hreserved, -⟩ := hinv.tables.delivery.rows hlocal y hdue.1
  obtain rfl := Table.eq_of_key_eq hinv.ids hr hr' (hid.trans hid'.symm)
  exact ⟨r, hr, hid, isTerminalState_of_isReserved hreserved hstatus⟩

/-! ## The commit -/

theorem sameDispatch_update (id : String) (w : Outbox.Write) (dispatches : List Dispatch) :
    List.Forall₂ SameDispatch dispatches (Outbox.update id w dispatches) := by
  rw [Outbox.update, Table.updateIf, List.forall₂_map_right_iff]
  refine List.forall₂_same.mpr fun x _ => ?_
  split
  · exact w.sameDispatch_set x
  · exact .refl x

theorem sameDispatch_trans {xs ys zs : List Dispatch} (h : List.Forall₂ SameDispatch xs ys)
    (h' : List.Forall₂ SameDispatch ys zs) : List.Forall₂ SameDispatch xs zs := by
  induction h generalizing zs with
  | nil => exact h'
  | cons hxy _ ih =>
    cases h' with
    | cons hyz hrest => exact .cons (hxy.trans hyz) (ih hrest)

theorem sameDispatch_writeDispatches (writes : List (String × Outbox.Write)) (s : Shared) :
    List.Forall₂ SameDispatch s.db.dispatches (s.writeDispatches writes).db.dispatches := by
  induction writes generalizing s with
  | nil => exact forall₂_sameDispatch_refl _
  | cons w writes ih =>
    exact sameDispatch_trans (sameDispatch_update w.1 w.2 s.db.dispatches)
      (ih (s.writeDispatches [w]))

theorem writeDispatches_changes (htables : Tables cfg d s) (h : ∀ w ∈ writes, Justified cfg s w) :
    Changes cfg d l s (s.writeDispatches writes) := by
  induction writes generalizing s with
  | nil => exact .refl
  | cons w writes ih =>
    have hfirst : Change cfg d l s (s.writeDispatches [w]) :=
      .publish w (h w List.mem_cons_self)
    refine .head hfirst (ih (s := s.writeDispatches [w]) (htables.change hfirst) fun w' hw' => ?_)
    exact keeps_justified cfg d w' l s _ htables hfirst (h w' (List.mem_cons_of_mem _ hw'))

/-- The state that a publisher needs to commit. -/
def PublisherReady (cfg : Config) (batch : List (Dispatch × Status))
    (writes : List (String × Outbox.Write)) (s : Shared) : Prop :=
  (∀ x ∈ batch, Picked cfg s x) ∧ ∀ w ∈ writes, Justified cfg s w

theorem keeps_publisherReady (cfg : Config) (d : Discipline) (batch : List (Dispatch × Status))
    (writes : List (String × Outbox.Write)) : Keeps cfg d (PublisherReady cfg batch writes) :=
  fun l s s' htables hchange h =>
    ⟨fun x hx => keeps_picked cfg d x l s s' htables hchange (h.1 x hx),
      fun w hw => keeps_justified cfg d w l s s' htables hchange (h.2 w hw)⟩

theorem commitPublish_safe (hs : ∀ w ∈ writes, Justified cfg s w) :
    Safe (specification cfg d) i (fun _ _ => True) (commitPublish i writes) s := by
  have hkeeps : Keeps cfg d fun s => ∀ w ∈ writes, Justified cfg s w :=
    fun l s s' htables hchange h w hw => keeps_justified cfg d w l s s' htables hchange (h w hw)
  refine Safe.perform _ (hkeeps.stable i _) hs ?_
  intro s₁ o b s₂ hinv hjust _ hact
  have hact := Option.some.inj hact
  split at hact <;> cases hact
  · refine ⟨.quiet ⟨rfl, fun _ h => h.congr rfl, sameDispatch_writeDispatches writes s₁,
      ⟨[], (List.append_nil _).symm, by simp⟩, rfl, rfl, rfl, rfl, rfl, rfl⟩ ?_, trivial⟩
    exact (writeDispatches_changes hinv.tables hjust).bookkeeping rfl
      ⟨rfl, rfl, rfl, rfl, rfl, rfl, rfl, rfl, rfl, rfl, .refl _⟩
  · refine ⟨.quiet (.of_db_eq rfl rfl rfl rfl rfl rfl rfl) ?_, trivial⟩
    exact Changes.frame rfl ⟨rfl, rfl, rfl, rfl, rfl, rfl, rfl, rfl, rfl, rfl, .refl _⟩

/-! ## Publishing -/

/-- A job that was accepted is in the stream. -/
theorem sendJob_safe {job : Outbox.Job} {Q : Except Failure Unit → Shared → Prop}
    (P : Shared → Prop) (hP : Keeps cfg d P) (hs : P s)
    (hok : ∀ s₁, P s₁ → job ∈ s₁.stream → Q (.ok ()) s₁) (herr : ∀ e s₁, P s₁ → Q (.error e) s₁) :
    Safe (specification cfg d) i Q (sendJob job) s := by
  refine Safe.perform P (hP.stable i _) hs ?_
  intro s₁ o b s₂ hinv hp _ hact
  have haccept : Change cfg d .read s₁ (s₁.accept job) := .accept job
  have hstep : Step cfg d i .bookkeeping o s₁ (s₁.accept job) :=
    .quiet (.of_db_eq rfl rfl rfl rfl rfl rfl rfl) (.single haccept)
  have hp' : P (s₁.accept job) := hP _ _ _ hinv.tables haccept hp
  have hact := Option.some.inj hact
  split_ifs at hact <;> cases hact
  · refine ⟨hstep, hok _ hp' ?_⟩
    exact List.mem_append_right _ (List.mem_singleton.mpr rfl)
  · exact ⟨hstep, herr _ _ hp'⟩
  · exact ⟨Step.nothing o _, herr _ _ hp⟩

theorem publishEach_safe {batch : List (Dispatch × Status)} (hs : PublisherReady cfg batch writes s) :
    Safe (specification cfg d) i (fun _ _ => True) (publishEach i now batch writes) s := by
  induction batch generalizing writes s with
  | nil => exact commitPublish_safe hs.2
  | cons x rest ih =>
    obtain ⟨x, status⟩ := x
    have hrest {s₁ : Shared} (h : PublisherReady cfg ((x, status) :: rest) writes s₁)
        {w : Outbox.Write} (hw : Justified cfg s₁ (x.id, w)) :
        (∀ y ∈ rest, Picked cfg s₁ y) ∧ ∀ y ∈ writes ++ [(x.id, w)], Justified cfg s₁ y :=
      ⟨fun y hy => h.1 y (List.mem_cons_of_mem _ hy),
        List.forall_mem_append.mpr ⟨h.2, List.forall_mem_singleton.mpr hw⟩⟩
    rw [publishEach]
    split
    · rename_i hstatus
      obtain ⟨y, hy, hid, -, hended⟩ := hs.1 (x, status) List.mem_cons_self
      exact ih (hrest hs fun hlocal => ⟨y, hy, hid, hended hlocal (by simpa using hstatus)⟩)
    · refine Safe.bind (sendJob_safe _ (keeps_publisherReady cfg d _ writes) hs ?_ ?_)
      · intro s₁ h hstream
        obtain ⟨y, hy, hid, hevent, -⟩ := h.1 (x, status) List.mem_cons_self
        exact ih (hrest h ⟨y, hy, hid, hevent ▸ hstream⟩)
      · intro e s₁ h
        exact commitPublish_safe (hrest (w := .failed _ _) h trivial).2

theorem publish_yields : Yields (specification cfg d) i (fun _ => True) (publish cfg i onlyID) := by
  constructor
  intro s
  refine Safe.bind (safe_transact (fun _ => True) ((keeps_const cfg d _).stable i _) trivial ?_
    fun e s₁ _ _ => Safe.ret trivial)
  intro o s₁ b s₂ hinv _ _ hf
  cases hf
  refine ⟨.quiet (.of_db_eq rfl rfl rfl rfl rfl rfl rfl) ?_, publishEach_safe ⟨fun x hx => ?_, ?_⟩⟩
  · exact Changes.frame rfl ⟨rfl, rfl, rfl, rfl, rfl, rfl, rfl, rfl, rfl, rfl, .refl _⟩
  · exact picked_of_mem_due hinv hx
  · exact fun w hw => by cases hw

/-! ## Sending again -/

theorem replay_yields {id actor : String} :
    Yields (specification cfg d) i (fun _ => True) (replay cfg i id actor) := by
  refine Yields.bind (transactOn_yields ?_) ?_
  · intro o s b s' _ _ _ hf
    obtain ⟨⟨dispatchID, db⟩, hdb, heq⟩ := exists_of_map_eq_ok hf
    cases heq
    exact .replay hdb
  · rintro (e | dispatchID) -
    · exact Yields.ret trivial
    · exact Yields.bind publish_yields fun _ _ => Yields.ret trivial

theorem reconcile_yields :
    Yields (specification cfg d) i (fun _ => True) (reconcile cfg i) := by
  refine Yields.bind (transact_yields ?_) ?_
  · intro o s b s' _ hpermitted hf
    obtain ⟨⟨redispatched, db⟩, hdb, heq⟩ := exists_of_map_eq_ok hf
    cases heq
    exact .reconcile hpermitted.exclusive hdb
  · rintro (e | redispatched) -
    · exact Yields.ret trivial
    · cases redispatched with
      | false => exact Yields.ret trivial
      | true => exact Yields.bind publish_yields fun _ _ => Yields.ret trivial

end Argus.System

import Argus.System.DispatchSafety

/-!
# Safety of the worker

The worker carries what it read of its job from the claim to the outcome: with the local executor a reserved
remediation keeps its mode, so a claimed job runs in the mode of its reservation. A success is recorded only
after the handler sent one, and it sends one only once the receipt of its effect is there.
-/

namespace Argus.System

open Interleave (Spec Safe Yields)
open Remediation (Time RemediationAction Failure Result Status SameAction)
open Workers (Handler findHandler)

variable {cfg : Config} {d : Discipline} {i : ℕ} {o : Oracle} {s s' : Shared}

/-! ## Jobs -/

/-- What the worker read is still right, as far as the mode of a reservation goes. -/
structure Readable (cfg : Config) (job : RemediationAction) (s : Shared) : Prop where
  row : ∃ r ∈ s.db.remediations, SameAction job r ∧
    (cfg.executor = .localQueue → isReserved r.status = true ∧ r.dryRun = job.dryRun)
  plain : job.parameters.Plain

theorem keeps_readable (cfg : Config) (d : Discipline) (job : RemediationAction) :
    Keeps cfg d (Readable cfg job) := by
  rintro l s s' - hchange ⟨⟨r, hr, hsame, hmode⟩, hplain⟩
  obtain ⟨r', hr', hrow⟩ := hchange.row hr
  refine ⟨⟨r', hr', hsame.trans hrow.sameAction, fun hlocal => ?_⟩, hplain⟩
  obtain ⟨hreserved, hdry⟩ := hrow.reserved hlocal (hmode hlocal).1
  exact ⟨hreserved, hdry.trans (hmode hlocal).2⟩

theorem keeps_runnable (cfg : Config) (d : Discipline) (job : RemediationAction) :
    Keeps cfg d fun s => Runnable cfg s job :=
  fun _ _ _ _ hchange h => h.change hchange

theorem keeps_opened (cfg : Config) (d : Discipline) (job : RemediationAction) (channel : ℕ) :
    Keeps cfg d fun s => s.jobs[channel]? = some job :=
  fun _ _ _ _ hchange h => hchange.grows.getElem_jobs h

theorem keeps_recorded (cfg : Config) (d : Discipline) (job : RemediationAction) :
    Keeps cfg d fun s => Recorded cfg s job :=
  fun _ _ _ _ hchange h => h.mono hchange.grows

variable {job : RemediationAction}

/-- A claimed job may run. -/
theorem runnable_of_claim (hinv : Invariant cfg d s) (now : Time) (hs : Readable cfg job s)
    (h : s.db.affects job.id .claim = true) :
    Runnable cfg (s.withDb (s.db.write now job.id .claim)) job := by
  obtain ⟨⟨r, hr, hsame, hmode⟩, hplain⟩ := hs
  obtain ⟨r₁, hr₁, hid, hguard⟩ := Remediation.affects_iff.mp h
  obtain rfl := Table.eq_of_key_eq hinv.ids hr₁ hr (hid.trans hsame.id.symm)
  obtain ⟨r', hr', ⟨-, hnot⟩ | ⟨rfl, -, -⟩⟩ :=
    Remediation.exists_mem_updateWhere now job.id .claim hr
  · exact absurd ⟨hid, hguard⟩ hnot
  have hset := Remediation.Write.sameAction_set now .claim r₁
  refine ⟨⟨_, hr', hsame.trans hset, fun hlocal => ⟨rfl, (hmode hlocal).2⟩⟩, fun hlocal => ?_,
    hplain⟩
  have hdispatched : isDispatched r₁.status = true := by
    cases hst : r₁.status <;>
      simp_all [Remediation.Write.guard, Status.isDispatchable, isDispatched]
  obtain ⟨x, hx, hxid, hdry⟩ := hinv.tables.effects.dispatched hlocal r₁ hr hdispatched
  exact ⟨x, hx, hxid.trans hid, hdry.trans (hmode hlocal).2⟩

/-! ## Outcomes -/

variable {msg : Message} {result : Result} {status : Status}

theorem finishAndAck_safe {id error action : String} (P : Shared → Prop) (hP : Keeps cfg d P)
    (hs : P s) (hstatus : status = .failed ∨ status = .timedOut ∨ status = .succeeded)
    (h : ∀ s₁, P s₁ → Licensed cfg d s₁ id (.complete status result error)) :
    Safe (specification cfg d) i (fun _ _ => True)
      (finishAndAck cfg msg id status result error action) s := by
  refine Safe.bind (safe_transactOn P (hP.stable i _) hs ?_ fun e s₁ _ _ => Safe.ret trivial)
  intro o s₁ b s₂ _ hpermitted hfree hp hf
  cases hf
  refine ⟨?_, Safe.ret trivial⟩
  unfold Db.finish
  split
  · rename_i haffects
    exact .finish hpermitted.exclusive hstatus (h s₁ hp) hfree haffects
  · exact Step.nothing o s₁

/-- The results of handlers report no workflow. -/
theorem OfHandler.reports (h : OfHandler result) (id : String) (status : Status) :
    Reports d s id status result :=
  fun workflowID name hresult => absurd hresult (h workflowID name)

theorem ofHandler_null : OfHandler .null := by
  rintro workflowID name ⟨⟩

/-- An outcome that says nothing about effects. -/
theorem finishAndAck_yields {id error action : String} (h : status = .failed ∨ status = .timedOut) :
    Yields (specification cfg d) i (fun _ => True)
      (finishAndAck cfg msg id status .null error action) := by
  have hstatus : status = .failed ∨ status = .timedOut ∨ status = .succeeded :=
    h.imp_right .inl
  refine ⟨fun s => finishAndAck_safe (fun _ => True) (keeps_const cfg d _) trivial hstatus ?_⟩
  intro s₁ _
  refine And.intro (ofHandler_null.reports id status) ?_
  rcases h with rfl | rfl <;> trivial

variable {h : Handler} {channel : ℕ}

theorem conclude_safe {outcome : Option HandlerOutcome}
    (hhandler : findHandler cfg.handlers job.actionType = some h)
    (hopened : s.jobs[channel]? = some job)
    (hsent : ∀ result, outcome = some (.ok result) → Recorded cfg s job ∧ OfHandler result) :
    Safe (specification cfg d) i (fun _ _ => True) (conclude cfg msg job outcome) s := by
  rcases outcome with _ | e | result
  · exact (finishAndAck_yields (.inr rfl)).safe s
  · rw [conclude]
    split
    · exact Safe.ret trivial
    · exact (finishAndAck_yields (.inl rfl)).safe s
  · obtain ⟨hrecorded, hresult⟩ := hsent result rfl
    refine finishAndAck_safe _ ((keeps_opened cfg d job channel).and (keeps_recorded cfg d job))
      ⟨hopened, hrecorded⟩ (.inr (.inr rfl)) ?_
    rintro s₁ ⟨hjob, hdone⟩
    exact And.intro (hresult.reports job.id .succeeded)
      fun _ => ⟨job, List.mem_of_getElem? hjob, rfl, hdone, h, hhandler⟩

/-! ## The message -/

/-- What a handler sent for a job. -/
theorem sent_of_find (hinv : Invariant cfg d s) (hopened : s.jobs[channel]? = some job)
    {x : ℕ × HandlerOutcome} (hx : (s.channels.find? fun c => c.1 == channel) = some x)
    (hok : x.2 = .ok result) : Recorded cfg s job ∧ OfHandler result := by
  obtain ⟨job', hjob', hsent⟩ := hinv.tables.effects.channels x (List.mem_of_find?_eq_some hx)
  have hchannel : x.1 = channel := by simpa using List.find?_some hx
  rw [hchannel, hopened] at hjob'
  obtain rfl := Option.some.inj hjob'
  exact hsent result hok

/-- Whatever only concerns handlers is quiet. -/
theorem Step.handler {s s' : Shared} (hchange : Change cfg d .read s s') (hquiet : Quiet s s') :
    Step cfg d i .handler o s s' :=
  .quiet hquiet (.single hchange)

theorem awaitOutcome_safe (hs : s.jobs[channel]? = some job) :
    Safe (specification cfg d) i (fun outcome s => s.jobs[channel]? = some job ∧
      ∀ result, outcome = some (.ok result) → Recorded cfg s job ∧ OfHandler result)
      (awaitOutcome channel) s := by
  refine Safe.perform _ ((keeps_opened cfg d job channel).stable i _) hs ?_
  intro s₁ o outcome s₂ hinv hopened _ hact
  split at hact
  · cases hact
    refine ⟨Step.nothing o _, hopened, ?_⟩
    rintro result ⟨⟩
  · obtain ⟨x, hx, heq⟩ := Option.map_eq_some_iff.mp hact
    cases heq
    exact ⟨Step.nothing o _, hopened,
      fun result hok => sent_of_find hinv hopened hx (Option.some.inj hok)⟩

theorem claimAndRun_safe (hhandler : findHandler cfg.handlers job.actionType = some h)
    (hs : Readable cfg job s) :
    Safe (specification cfg d) i (fun _ _ => True) (claimAndRun cfg msg h job) s := by
  refine Safe.bind (safe_transactOn _ ((keeps_readable cfg d job).stable i _) hs ?_
    fun e s₁ _ _ => Safe.ret trivial)
  intro o s₁ claimed s₂ hinv hpermitted hfree hread hf
  obtain ⟨hclaimed, rfl⟩ := Prod.mk.inj (Except.ok.inj hf)
  refine ⟨.claim hpermitted.exclusive hfree, ?_⟩
  cases claimed with
  | false => exact Safe.bind ((query_yields.safe _).mono fun _ _ _ => Safe.ret trivial)
  | true =>
    -- the channel, the handler, its outcome
    have hrunnable := runnable_of_claim hinv o.now hread hclaimed
    refine Safe.bind (Safe.perform _ ((keeps_runnable cfg d job).stable i _) hrunnable ?_)
    intro s₃ o₃ channel s₄ _ hrun _ hact
    cases hact
    refine ⟨.handler (.run hrun) (.of_db_eq rfl rfl rfl rfl rfl rfl rfl), ?_⟩
    have hopened : (s₃.jobs ++ [job])[s₃.jobs.length]? = some job := by simp
    refine Safe.bind (Safe.spawn _ ((keeps_opened cfg d job s₃.jobs.length).stable i _) hopened ?_)
    intro s₅ _ hopened
    refine ⟨fun j h' job' channel' hcall => ?_, ?_⟩
    · obtain ⟨rfl, rfl, rfl⟩ := Call.handler.inj hcall
      exact ⟨hopened, hhandler⟩
    · refine Safe.bind ((awaitOutcome_safe hopened).mono ?_)
      rintro outcome s₆ ⟨hopened, hsent⟩
      exact conclude_safe hhandler hopened hsent

theorem isReserved_of_isDispatchable (h : status.isDispatchable = true) :
    isReserved status = true := by
  cases status <;> simp_all [Status.isDispatchable, isReserved]

theorem handleRemediation_safe {r : RemediationAction} (hr : r ∈ s.db.remediations) :
    Safe (specification cfg d) i (fun _ _ => True) (handleRemediation cfg msg r.decoded) s := by
  unfold handleRemediation
  split
  · exact Safe.ret trivial
  rename_i hstatus
  split
  · exact (finishAndAck_yields (.inl rfl)).safe s
  rename_i h hhandler
  split
  · exact (finishAndAck_yields (.inl rfl)).safe s
  · refine claimAndRun_safe hhandler ⟨⟨r, hr, Remediation.sameAction_decoded r, fun _ => ⟨?_, rfl⟩⟩,
      Parameters.plain_decoded r.parameters⟩
    have hstatus : r.decoded.status.isDispatchable = true := by simpa using hstatus
    exact isReserved_of_isDispatchable hstatus

theorem handleMessage_yields :
    Yields (specification cfg d) i (fun _ => True) (handleMessage cfg msg) := by
  unfold handleMessage
  split
  · exact Yields.ret trivial
  constructor
  intro s
  refine Safe.bind (safe_query (fun _ => True) ((keeps_const cfg d _).stable i _) trivial ?_ ?_)
  · intro o s₁ job _ _ hjob
    obtain ⟨r, hget, rfl⟩ := Db.remediation_eq_ok hjob
    exact handleRemediation_safe (Remediation.mem_of_getRemediation hget).1
  · intro e s₁ _ _
    cases e <;> exact Safe.ret trivial

/-! ## The handler -/

theorem ofHandler_preview (control : Workers.Control) (m : Workers.Merge) :
    OfHandler (Workers.preview control m) := by
  rintro workflowID name ⟨⟩

theorem ofHandler_applyOnce (hinv : Invariant cfg d s) (m : Workers.Merge) :
    OfHandler (Workers.applyOnce s.db.control m).1 := by
  rcases Workers.result_applyOnce s.db.control m with ⟨x, hx, heq⟩ | ⟨_, _, _, _, _, heq⟩
  · have hresult := hinv.tables.effects.receipts x hx
    rw [heq]
    cases hx' : x.result with
    | helios workflowID name => exact absurd hx' (hresult workflowID name)
    | null | reason | message | control => rintro workflowID name ⟨⟩
  · rw [heq]
    rintro workflowID name ⟨⟩

/-- A merge that a handler asks for and may apply. -/
theorem Step.applyMerge {m : Workers.Merge} (hjob : job ∈ s.jobs) (hdry : job.dryRun = false)
    (h : AskedBy cfg job m) : Step cfg d i .handler o s ((s.applyMerge m).ask m) :=
  .quiet ⟨rfl, fun _ h => h.congr rfl, forall₂_sameDispatch_refl _,
    ⟨[], (List.append_nil _).symm, by simp⟩, rfl, rfl, rfl, rfl, rfl, rfl⟩
    (.tail (.single (.apply m hjob hdry h)) (.ask m hjob h))

theorem Step.ask {m : Workers.Merge} (hjob : job ∈ s.jobs) (h : AskedBy cfg job m) :
    Step cfg d i .handler o s (s.ask m) :=
  .handler (.ask m hjob h) (.of_db_eq rfl rfl rfl rfl rfl rfl rfl)

theorem handle_safe (hs : HandlerReady cfg h job channel s) :
    Safe (specification cfg d) i (fun outcome s => s.jobs[channel]? = some job ∧
      ∀ result, outcome = .ok result → Recorded cfg s job ∧ OfHandler result) (handle h job) s := by
  obtain ⟨hopened, hhandler⟩ := hs
  cases h with
  | static name message =>
    refine Safe.ret ⟨hopened, ?_⟩
    rintro result ⟨⟩
    refine ⟨fun t ht => ?_, by rintro workflowID name ⟨⟩⟩
    rw [hhandler] at ht
    cases ht
  | typed t =>
    dsimp only [handle]
    split
    · refine Safe.ret ⟨hopened, ?_⟩
      rintro result ⟨⟩
    rename_i hvalid
    have hasked : AskedBy cfg job (t.merge job) := ⟨t, hhandler, hvalid, rfl⟩
    split
    · -- a preview changes nothing
      rename_i hdry
      refine Safe.perform _ ((keeps_opened cfg d job channel).stable i _) hopened ?_
      intro s₁ o outcome s₂ _ hopened _ hact
      cases hact
      refine ⟨.ask (List.mem_of_getElem? hopened) hasked, hopened, fun result hok => ?_⟩
      split at hok
      · obtain rfl := Except.ok.inj hok
        refine ⟨fun t' _ hmode => ?_, ofHandler_preview _ _⟩
        rw [hdry] at hmode
        cases hmode
      · cases hok
    · rename_i hdry
      have hdry : job.dryRun = false := by simpa using hdry
      refine Safe.perform _ ((keeps_opened cfg d job channel).stable i _) hopened ?_
      intro s₁ o outcome s₂ hinv hopened _ hact
      have hjob : job ∈ s₁.jobs := List.mem_of_getElem? hopened
      have hact := Option.some.inj hact
      split_ifs at hact <;> cases hact
      · refine ⟨.applyMerge hjob hdry hasked, hopened, ?_⟩
        rintro result ⟨⟩
        exact ⟨fun t' _ _ => Workers.exists_receipt_applyOnce _ (t.merge job),
          ofHandler_applyOnce hinv (t.merge job)⟩
      · refine ⟨.applyMerge hjob hdry hasked, hopened, ?_⟩
        rintro result ⟨⟩
      · refine ⟨.ask hjob hasked, hopened, ?_⟩
        rintro result ⟨⟩

theorem handler_safe (hs : HandlerReady cfg h job channel s) :
    Safe (specification cfg d) i (fun _ _ => True) (handler h job channel) s := by
  obtain ⟨hopened, hhandler⟩ := hs
  refine Safe.bind (Safe.perform _ ((keeps_opened cfg d job channel).stable i _) hopened ?_)
  intro s₁ o _ s₂ _ hopened _ hact
  cases hact
  refine ⟨.handler (.start (List.mem_of_getElem? hopened)) (.of_db_eq rfl rfl rfl rfl rfl rfl rfl), ?_⟩
  have hready : HandlerReady cfg h job channel
      { s₁ with started := s₁.started ++ [(job.id, job.dryRun)] } := ⟨hopened, hhandler⟩
  refine Safe.bind ((handle_safe hready).mono ?_)
  rintro outcome s₃ ⟨hopened, hsent⟩
  have hkeeps : Keeps cfg d fun s =>
      ∀ result, outcome = .ok result → Recorded cfg s job ∧ OfHandler result :=
    fun l s s' htables hchange h result hok =>
      (h result hok).imp_left (keeps_recorded cfg d job l s s' htables hchange)
  refine Safe.bind (Safe.perform _ (((keeps_opened cfg d job channel).and hkeeps).stable i _)
    ⟨hopened, hsent⟩ ?_)
  rintro s₄ o₄ _ s₅ _ ⟨hopened, hsent⟩ _ hact
  cases hact
  exact ⟨.handler (.send hopened hsent) (.of_db_eq rfl rfl rfl rfl rfl rfl rfl), Safe.ret trivial⟩

end Argus.System

import Argus.System.WorkerSafety

/-!
# Safety of `Execute`

A call that submits a workflow owns its remediation, by its reservation or by the locks of a reconciliation.
While it polls, the workflow it submitted stays the one of the current reservation, and nobody submits
another, so what it reports is still right when it is recorded.
-/

namespace Argus.System

open Interleave (Spec Safe Yields)
open Remediation (Time RemediationAction Failure Result Status)
open Helios (Workflow)

variable {cfg : Config} {d : Discipline} {i : ℕ} {s s' : Shared} {id : String} {dryRun : Bool}

/-! ## Submissions -/

theorem Undisturbed.exempt (h : Undisturbed d i none s s') (e : Option String) :
    Undisturbed d i e s s' :=
  { h with live := fun hd id howned _ => h.live hd id howned (by simp) }

/-- What a process that submits a workflow keeps of the remediation it owns. -/
structure Submitter (cfg : Config) (d : Discipline) (i : ℕ) (id : String) (dryRun : Bool)
    (P : Shared → Prop) : Prop where
  keeps : Owns cfg d i (some id) P
  owned : ∀ s, P s → Owned i id s
  mode : ∀ s, P s → InMode s id dryRun
  queued : d.exclusive → ∀ s, Invariant cfg d s → P s → s.db.statusOf id = some .queued

variable {P : Shared → Prop}

theorem Submitter.owns (h : Submitter cfg d i id dryRun P) : Owns cfg d i none P :=
  fun s s' hinv hinv' hundisturbed => h.keeps s s' hinv hinv' (hundisturbed.exempt (some id))

theorem owns_and {exempt : Option String} {Q : Shared → Prop} (hP : Owns cfg d i exempt P)
    (hQ : ∀ s s', Invariant cfg d s → Invariant cfg d s' → Undisturbed d i exempt s s' → P s → Q s
      → Q s') : Owns cfg d i exempt fun s => P s ∧ Q s :=
  fun s s' hinv hinv' hundisturbed h =>
    ⟨hP s s' hinv hinv' hundisturbed h.1, hQ s s' hinv hinv' hundisturbed h.1 h.2⟩

/-- The workflow that a process follows. -/
structure Tracked (d : Discipline) (id workflowID : String) (s : Shared) : Prop where
  submitted : ∃ w, w.id = workflowID ∧ Submitted d s id w
  only : d.exclusive → OnlyLive s id workflowID

variable {workflowID : String}

theorem Tracked.undisturbed (h : Undisturbed d i none s s') (howned : Owned i id s)
    (htracked : Tracked d id workflowID s) : Tracked d id workflowID s' := by
  obtain ⟨⟨w, hid, hw⟩, honly⟩ := htracked
  obtain ⟨w', hmoved, hw'⟩ := h.submitted howned hw
  exact ⟨⟨w', hmoved.id.trans hid, hw'⟩, fun hd => h.onlyLive hd howned (by simp) (honly hd)⟩

variable {outcome : Db.Outcome} {remediation : RemediationAction} {dispatchID : String}

section

variable {w : Workflow}

section

variable (h : Tracked d id w.id s) (hinv : Invariant cfg d s)

include h hinv

/-- The workflow that Helios shows is the one that is followed. -/
theorem Tracked.mem (hw : w ∈ s.workflows) : Submitted d s id w := by
  obtain ⟨w', hid, hw'⟩ := h.submitted
  obtain rfl := Table.eq_of_key_eq hinv.tables.following.ids hw'.mem hw hid
  exact hw'

theorem Tracked.noLive (hd : d.exclusive) (hw : w ∈ s.workflows) (hended : w.state.isActive = false) :
    NoLive s id := by
  intro w' hw'
  obtain rfl := Table.eq_of_key_eq hinv.tables.following.ids hw'.mem hw (h.only hd w' hw')
  exact absurd (hw'.active.symm.trans hended) (by simp)

theorem Tracked.reports (hw : w ∈ s.workflows) (status : Status)
    (hstate : finalState status w.state) (name : String) :
    Reports d s id status (.helios w.id name) := by
  intro workflowID name' hresult
  obtain ⟨hid, -⟩ := Result.helios.inj hresult
  exact ⟨w, hid, h.mem hinv hw, hstate⟩

/-- What a polled workflow means is what Helios says about it. -/
theorem Tracked.heliosUpdate (hw : w ∈ s.workflows) (hok : outcomeOf w = .ok outcome)
    (actor : String) : HeliosUpdate d s (outcome.update id actor) := by
  unfold outcomeOf at hok
  cases hstate : w.state with
  | active name =>
    rw [hstate] at hok
    obtain rfl := Except.ok.inj hok
    exact .running (h.reports hinv hw .running trivial _) h.only
  | succeeded =>
    rw [hstate] at hok
    obtain rfl := Except.ok.inj hok
    refine .succeeded (h.reports hinv hw .succeeded hstate _) fun hd => ?_
    exact h.noLive hinv hd hw (by rw [hstate]; rfl)
  | failed | cancelled =>
    rw [hstate] at hok
    cases hok

end

end

/-! ## Talking to Helios -/

theorem getWorkflow_safe (hP : Owns cfg d i none P) (hs : P s) :
    Safe (specification cfg d) i (fun r s => P s ∧ Invariant cfg d s ∧
      ∀ w, r = .ok w → w ∈ s.workflows ∧ w.id = workflowID) (getWorkflow workflowID) s := by
  refine Safe.perform P (hP.stable _) hs ?_
  intro s₁ o r s₂ hinv hp _ hact
  replace hact := Option.some.inj hact
  split at hact
  · rename_i w _ hget
    cases hact
    refine ⟨Step.nothing o _, hp, hinv, ?_⟩
    rintro w' ⟨⟩
    exact ⟨List.mem_of_find?_eq_some hget, by simpa using List.find?_some hget⟩
  · cases hact
    refine ⟨Step.nothing o _, hp, hinv, ?_⟩
    rintro w' ⟨⟩

theorem pollWorkflow_safe (hP : Owns cfg d i none P) (polls : ℕ) (hs : P s) :
    Safe (specification cfg d) i (fun r s => P s ∧ Invariant cfg d s ∧
      ∀ w, r = .ok w → w ∈ s.workflows ∧ w.id = workflowID) (pollWorkflow workflowID polls) s := by
  induction polls generalizing s with
  | zero => exact getWorkflow_safe hP hs
  | succ polls ih =>
    refine Safe.bind ((getWorkflow_safe hP hs).mono ?_)
    rintro (e | w) s₁ ⟨hp, hinv, hshown⟩
    · refine Safe.ret ⟨hp, hinv, ?_⟩
      rintro w ⟨⟩
    · dsimp only
      split
      · exact ih hp
      · exact Safe.ret ⟨hp, hinv, hshown⟩

theorem addWorkflow_tracked (hno : d.exclusive → NoLive s id) :
    Tracked d id workflowID (s.addWorkflow workflowID id dryRun) := by
  refine ⟨⟨_, rfl, List.mem_cons_self, rfl, fun _ => rfl⟩, fun hd w hw => ?_⟩
  rcases List.mem_cons.mp hw.mem with rfl | hmem
  · rfl
  · exact absurd ⟨hmem, hw.remediationID, hw.active⟩ (hno hd w)

theorem submitWorkflow_safe (hP : Submitter cfg d i id dryRun P) (hs : P s)
    (hno : d.exclusive → NoLive s id) :
    Safe (specification cfg d) i (fun r s => P s ∧
      ∀ workflowID polls, r = .ok (workflowID, polls) → Tracked d id workflowID s)
      (submitWorkflow id dryRun) s := by
  have howns : Owns cfg d i none fun s => P s ∧ (d.exclusive → NoLive s id) :=
    owns_and hP.owns fun s s' _ _ hundisturbed hp hno hd =>
      hundisturbed.noLive hd (hP.owned s hp) (by simp) (hno hd)
  refine Safe.perform _ (howns.stable _) ⟨hs, hno⟩ ?_
  rintro s₁ o r s₂ hinv ⟨hp, hno⟩ _ hact
  split at hact
  · cases hact
  rename_i hnew
  have hnew : ∀ w ∈ s₁.workflows, w.id ≠ o.fresh := by simpa using hnew
  have hstep : Step cfg d i (.submit id) o s₁ (s₁.addWorkflow o.fresh id dryRun) :=
    .submit hnew (hP.mode s₁ hp) (hP.owned s₁ hp) fun hd => ⟨hno hd, hP.queued hd s₁ hinv hp⟩
  have hp' : P (s₁.addWorkflow o.fresh id dryRun) :=
    hP.keeps s₁ _ hinv (hinv.step hstep) (undisturbed_addWorkflow d i s₁ o.fresh id dryRun) hp
  replace hact := Option.some.inj hact
  split_ifs at hact <;> cases hact
  · refine ⟨hstep, hp', ?_⟩
    rintro workflowID polls ⟨⟩
    exact addWorkflow_tracked hno
  · refine ⟨hstep, hp', ?_⟩
    rintro workflowID polls ⟨⟩
  · refine ⟨Step.nothing o _, hp, ?_⟩
    rintro workflowID polls ⟨⟩

/-- What `HeliosExecutor.Execute` returns is what Helios says. -/
theorem heliosExecute_safe (hP : Submitter cfg d i id dryRun P) (hs : P s)
    (hno : d.exclusive → NoLive s id) :
    Safe (specification cfg d) i (fun r s => P s ∧
      ∀ outcome, r = .ok outcome → ∀ actor, HeliosUpdate d s (outcome.update id actor))
      (heliosExecute id dryRun) s := by
  refine Safe.bind ((submitWorkflow_safe hP hs hno).mono ?_)
  rintro (e | ⟨workflowID, polls⟩) s₁ ⟨hp, htracked⟩
  · refine Safe.ret ⟨hp, ?_⟩
    rintro outcome ⟨⟩
  · have howns : Owns cfg d i none fun s => P s ∧ Tracked d id workflowID s :=
      owns_and hP.owns fun s s' _ _ hundisturbed hp htracked =>
        htracked.undisturbed hundisturbed (hP.owned s hp)
    refine Safe.bind ((pollWorkflow_safe howns polls
      ⟨hp, htracked workflowID polls rfl⟩).mono ?_)
    rintro (e | w) s₂ ⟨⟨hp, htracked⟩, hinv, hshown⟩
    · refine Safe.ret ⟨hp, ?_⟩
      rintro outcome ⟨⟩
    · obtain ⟨hw, rfl⟩ := hshown w rfl
      exact Safe.ret ⟨hp, fun outcome hok => htracked.heliosUpdate hinv hw hok⟩

/-! ## The call that holds a reservation -/

/-- What a call knows of the reservation it holds. -/
def Holds (i : ℕ) (id : String) (dryRun : Bool) (s : Shared) : Prop :=
  (i, id) ∈ s.holders ∧ InMode s id dryRun

theorem submitter_holds (cfg : Config) (d : Discipline) (i : ℕ) (id : String) (dryRun : Bool) :
    Submitter cfg d i id dryRun (Holds i id dryRun) where
  keeps _ _ _ _ hundisturbed h :=
    ⟨hundisturbed.holders id h.1, hundisturbed.modes id (.inl h.1) dryRun h.2⟩
  owned _ h := .inl h.1
  mode _ h := h.2
  queued hd _ hinv h := ((hinv.exclusive hd).held _ h.1).1

variable {actor : String}

theorem releaseReservation_safe (hcfg : cfg.executor = .helios) (hs : Holds i id dryRun s) :
    Safe (specification cfg d) i (fun _ _ => True) (releaseReservation i id actor) s := by
  refine Safe.perform _ ((submitter_holds cfg d i id dryRun).owns.stable _) hs ?_
  intro s₁ o r s₂ _ hp hpermitted hact
  split at hact
  · cases hact
  rename_i hfree
  replace hact := Option.some.inj hact
  split at hact <;> cases hact
  · exact ⟨.release hcfg hp.1 hfree hpermitted.exclusive, trivial⟩
  · exact ⟨.endHold, trivial⟩

theorem id_update (outcome : Db.Outcome) (id actor : String) :
    (outcome.update id actor).id = id := by
  cases outcome <;> rfl

theorem recordOutcome_safe (hcfg : cfg.executor = .helios) (hs : Holds i id dryRun s)
    (htold : HeliosUpdate d s (outcome.update id actor)) :
    Safe (specification cfg d) i (fun _ _ => True) (recordOutcome i id actor outcome) s := by
  have howns : Owns cfg d i none fun s =>
      Holds i id dryRun s ∧ HeliosUpdate d s (outcome.update id actor) :=
    owns_and (submitter_holds cfg d i id dryRun).owns fun s s' _ _ hundisturbed hp htold =>
      htold.undisturbed hundisturbed (by rw [id_update]; exact .inl hp.1) (by simp)
  refine Safe.perform _ (howns.stable _) ⟨hs, htold⟩ ?_
  rintro s₁ o r s₂ _ ⟨hp, htold⟩ _ hact
  split at hact
  · cases hact
  rename_i hfree
  replace hact := Option.some.inj hact
  split at hact
  · split at hact <;> cases hact
    · rename_i db hdb
      exact ⟨.outcome hcfg hp.1 hfree htold hdb, trivial⟩
    · exact ⟨.endHold, trivial⟩
  · cases hact
    exact ⟨.endHold, trivial⟩

/-! ## Execute -/

/-- The call reserved the remediation. -/
def Reserves (i : ℕ) (id : String) (dryRun : Bool) (s : Shared) : Prop :=
  ⟨i, id, dryRun⟩ ∈ s.reservations

theorem keeps_reserves (cfg : Config) (d : Discipline) (i : ℕ) (id : String) (dryRun : Bool) :
    Keeps cfg d (Reserves i id dryRun) :=
  fun _ _ _ _ hchange h => hchange.grows.reservations h

/-- The incident that a call found open is the one of its remediation. -/
structure Admits (d : Discipline) (id incidentID : String) (s : Shared) : Prop where
  row : ∃ r ∈ s.db.remediations, r.id = id ∧ r.incidentID = incidentID
  incident : d.incidents → IncidentOpen s incidentID

theorem keeps_row (cfg : Config) (d : Discipline) (id incidentID : String) :
    Keeps cfg d fun s => ∃ r ∈ s.db.remediations, r.id = id ∧ r.incidentID = incidentID := by
  rintro l s s' - hchange ⟨r, hr, hid, hincident⟩
  obtain ⟨r', hr', hrow⟩ := hchange.row hr
  exact ⟨r', hr', hrow.sameProposal.id.trans hid, hrow.sameProposal.incidentID.trans hincident⟩

theorem stable_admits (cfg : Config) (d : Discipline) (i : ℕ) (id incidentID : String) :
    (specification cfg d).Stable i (some (.reserve id)) (Admits d id incidentID) := by
  rintro s s' ⟨hinv, hothers, hinv'⟩ ⟨hrow, hopen⟩
  refine ⟨(keeps_row cfg d id incidentID).stable i _ s s' ⟨hinv, hothers, hinv'⟩ hrow,
    fun hd => ?_⟩
  rcases hothers.incidents hd id rfl incidentID (hopen hd) with hopen' | hnone
  · exact hopen'
  · obtain ⟨r, hr, hid, hincident⟩ := hrow
    exact absurd hincident (hnone r hr hid)

/-- The state right after a reservation. -/
structure JustReserved (cfg : Config) (d : Discipline) (i : ℕ) (id : String) (dryRun : Bool)
    (s : Shared) : Prop where
  reserves : Reserves i id dryRun s
  holds : cfg.executor = .helios → Holds i id dryRun s
  noLive : d.exclusive → NoLive s id

/-- An approved remediation has no workflow that has not ended. -/
theorem noLive_of_affects (hinv : Invariant cfg d s) (hd : d.exclusive)
    (h : s.db.affects id (.markQueued dryRun) = true) : NoLive s id := by
  intro w hw
  obtain ⟨r, hr, hid, hguard⟩ := Remediation.affects_iff.mp h
  have happroved : r.status = .approved := by simpa [Remediation.Write.guard] using hguard
  cases (hinv.exclusive hd).follows id w hw r hr hid with
  | queued hstatus | running hstatus _ | timedOut hstatus _ => simp [happroved] at hstatus

theorem justReserved (hinv : Invariant cfg d s) {now : Time} {fresh : String} {db : Db}
    (h : s.db.reserve cfg.executor now fresh remediation dryRun actor = .ok (dispatchID, db)) :
    JustReserved cfg d i remediation.id dryRun (s.reserved cfg i remediation.id dryRun db) := by
  obtain ⟨haffects, dispatches, hreserved, rfl⟩ := Db.reserve_eq_ok h
  refine ⟨List.mem_append_right _ (List.mem_singleton.mpr rfl), fun hcfg => ⟨?_, ?_⟩,
    fun hd w hw => ?_⟩
  · simp [Shared.reserved, hcfg]
  · obtain ⟨r, hr, hid, hguard⟩ := Remediation.affects_iff.mp haffects
    obtain ⟨r', hr', ⟨-, hnot⟩ | ⟨rfl, -, -⟩⟩ :=
      Remediation.exists_mem_updateWhere now remediation.id (.markQueued dryRun) hr
    · exact absurd ⟨hid, hguard⟩ hnot
    · exact ⟨_, hr', hid, rfl⟩
  · exact noLive_of_affects hinv hd haffects w ⟨hw.mem, hw.remediationID, hw.active⟩

theorem reserve_safe {incidentID : String} (hs : Admits d remediation.id incidentID s)
    (happroved : remediation.status = .approved) :
    Safe (specification cfg d) i (fun r s =>
      ∀ dispatchID, r = .ok dispatchID → JustReserved cfg d i remediation.id dryRun s)
      (reserve cfg i remediation dryRun actor) s := by
  refine safe_transactOn _ (stable_admits cfg d i remediation.id incidentID) hs ?_ ?_
  · intro o s₁ dispatchID s₂ hinv _ hfree hadmits hf
    obtain ⟨⟨dispatchID', db⟩, hdb, heq⟩ := exists_of_map_eq_ok hf
    cases heq
    refine ⟨.reserve hdb happroved hfree fun hd r hr hid => ?_, fun _ _ => justReserved hinv hdb⟩
    obtain ⟨r₀, hr₀, hid₀, hincident⟩ := hadmits.row
    obtain rfl := Table.eq_of_key_eq hinv.ids hr₀ hr (hid₀.trans hid.symm)
    exact hincident ▸ hadmits.incident hd
  · rintro e s₁ _ _ dispatchID ⟨⟩

theorem dispatchReserved_safe (hs : JustReserved cfg d i id dryRun s) :
    Safe (specification cfg d) i (fun _ s => Reserves i id dryRun s)
      (dispatchReserved cfg i id dryRun actor dispatchID) s := by
  refine ((keeps_reserves cfg d i id dryRun).frame hs.reserves (Q := fun _ _ => True) ?_).mono
    fun _ _ h => h.2
  unfold dispatchReserved
  split
  · exact Safe.bind ((publish_yields.safe s).mono fun _ _ _ => Safe.ret trivial)
  · rename_i hcfg
    refine Safe.bind ((heliosExecute_safe (submitter_holds cfg d i id dryRun) (hs.holds hcfg)
      hs.noLive).mono ?_)
    rintro (e | outcome) s₁ ⟨hholds, htold⟩
    · exact Safe.bind ((releaseReservation_safe hcfg hholds).mono fun _ _ _ => Safe.ret trivial)
    · refine Safe.bind ((recordOutcome_safe hcfg hholds (htold outcome rfl actor)).mono ?_)
      rintro (e | _) s₂ - <;> exact Safe.ret trivial

theorem approved_of_executable {status : Status} (hnot : reusable status = false)
    (h : executable status = .ok ()) : status = .approved := by
  cases status with
  | approved => rfl
  | queued | running | succeeded => cases hnot
  | _ => cases h

/-- A call that answers that it executed the remediation reserved it. -/
def Executes (i : ℕ) (id : String) (dryRun : Bool) (a : Answer) (s : Shared) : Prop :=
  a = .executed false → Reserves i id dryRun s

theorem execute_safe :
    Safe (specification cfg d) i (Executes i id dryRun) (execute cfg i id dryRun actor) s := by
  have hother {a : Answer} (h : a ≠ .executed false) (s : Shared) : Executes i id dryRun a s :=
    fun heq => absurd heq h
  refine Safe.bind (safe_query (fun _ => True) ((keeps_const cfg d _).stable i _) trivial ?_
    fun e s₁ _ _ => Safe.ret (hother (by simp) s₁))
  intro o s₁ remediation hinv _ hread
  obtain ⟨r, hget, rfl⟩ := Db.remediation_eq_ok hread
  obtain ⟨hr, rfl⟩ := Remediation.mem_of_getRemediation hget
  dsimp only
  split
  · exact Safe.ret (hother (by simp) s₁)
  rename_i hreusable
  split
  · exact Safe.ret (hother (by simp) s₁)
  rename_i hexecutable
  have happroved := approved_of_executable (by simpa using hreusable) hexecutable
  have hrow : ∃ r' ∈ s₁.db.remediations, r'.id = r.id ∧ r'.incidentID = r.incidentID :=
    ⟨r, hr, rfl, rfl⟩
  refine Safe.bind (safe_query _ ((keeps_row cfg d r.id r.incidentID).stable i _) hrow ?_
    fun e s₂ _ _ => Safe.ret (hother (by simp) s₂))
  intro o₂ s₂ incident _ hrow hincident
  dsimp only
  split
  · exact Safe.ret (hother (by simp) s₂)
  rename_i hopen
  have hadmits : Admits d r.decoded.id r.incidentID s₂ :=
    ⟨hrow, fun _ => ⟨incident, hincident, by simpa using hopen⟩⟩
  refine Safe.bind ((reserve_safe hadmits happroved).mono ?_)
  rintro (e | dispatchID) s₃ hreserved
  · -- somebody else was faster, or nobody may
    refine Safe.bind ((query_yields.safe s₃).mono ?_)
    rintro (_ | latest) s₄ -
    · exact Safe.ret (hother (by simp) s₄)
    · refine Safe.ret (hother ?_ s₄)
      split <;> simp
  · have hjust : JustReserved cfg d i r.id dryRun s₃ := hreserved dispatchID rfl
    have hexecutes (a : Answer) (s : Shared) (h : Reserves i r.id dryRun s) :
        Executes i r.id dryRun a s := fun _ => h
    exact (dispatchReserved_safe hjust).mono hexecutes

end Argus.System

import Argus.System.ExecuteSafety

/-!
# Safety of the Helios reconciler

The reconciler collects its updates under row locks. Each of them says what Helios told about a row that is
still locked, so the plan stays right until it is committed; a lost submission is resubmitted only when
none of its workflows was found.
-/

namespace Argus.System

open Interleave (Spec Safe Yields)
open Remediation (Time RemediationAction Failure Result Status)
open Helios (Workflow)

variable {cfg : Config} {d : Discipline} {i : ℕ} {s s' : Shared} {id : String}

/-! ## Settling one workflow -/

variable {x : RunningHelios} {w : Workflow}

theorem heliosUpdate_settled (h : Tracked d x.id x.workflowID s) (hinv : Invariant cfg d s)
    (hw : w ∈ s.workflows) (hid : w.id = x.workflowID) (hended : w.state.isActive = false)
    {status : Status} (hstatus : status = .succeeded ∨ status = .failed)
    (hstate : finalState status w.state) (error : String) :
    HeliosUpdate d s (settled x w status error) := by
  rw [← hid] at h
  unfold settled
  rw [← hid]
  exact .ended hstatus (h.reports hinv hw status hstate w.state.name)
    fun hd => h.noLive hinv hd hw hended

/-- The updates that settle a workflow: at most one, from running. -/
inductive SettledBy (d : Discipline) (s : Shared) (id : String) : List Db.Update → Prop
  | nothing : SettledBy d s id []
  | update {u : Db.Update} (hid : u.id = id) (hsource : u.source = .running)
      (h : HeliosUpdate d s u) : SettledBy d s id [u]

variable {P : Shared → Prop}

/-- An attempt to cancel a workflow that a process follows. -/
theorem cancelWorkflow_safe {workflowID : String} (hP : Owns cfg d i none P) (hs : P s) :
    Safe (specification cfg d) i (fun _ s => P s ∧ workflowID ∈ s.cancelAttempts)
      (cancelWorkflow workflowID) s := by
  refine Safe.perform P (hP.stable _) hs ?_
  intro s₁ o r s₂ hinv hp _ hact
  cases hact
  have hmoves : (if o.effect = true then Helios.move workflowID .cancelled s₁.workflows
        else s₁.workflows) = s₁.workflows ∨
      (if o.effect = true then Helios.move workflowID .cancelled s₁.workflows
        else s₁.workflows) = Helios.move workflowID .cancelled s₁.workflows := by
    split <;> simp
  have hstep : Step cfg d i .workflow o s₁ _ := .cancelWorkflow hmoves
  refine ⟨hstep, hP s₁ _ hinv (hinv.step hstep) (undisturbed_cancelWorkflow d i s₁ hmoves) hp, ?_⟩
  exact List.mem_append_right _ (List.mem_singleton.mpr rfl)

theorem settleHelios_safe (hP : Owns cfg d i none P) (howned : ∀ s, P s → Owned i x.id s) (hs : P s)
    (hinv : Invariant cfg d s) (htracked : Tracked d x.id x.workflowID s) (hw : w ∈ s.workflows)
    (hid : w.id = x.workflowID) :
    Safe (specification cfg d) i (fun more s => P s ∧ SettledBy d s x.id more)
      (settleHelios x w) s := by
  unfold settleHelios
  cases hstate : w.state with
  | succeeded =>
    refine Safe.ret ⟨hs, .update rfl rfl (heliosUpdate_settled htracked hinv hw hid ?_ (.inl rfl)
      hstate _)⟩
    rw [hstate]
    rfl
  | failed =>
    refine Safe.ret ⟨hs, .update rfl rfl (heliosUpdate_settled htracked hinv hw hid ?_ (.inr rfl)
      (.inl hstate) _)⟩
    rw [hstate]
    rfl
  | cancelled =>
    refine Safe.ret ⟨hs, .update rfl rfl (heliosUpdate_settled htracked hinv hw hid ?_ (.inr rfl)
      (.inr hstate) _)⟩
    rw [hstate]
    rfl
  | active name =>
    dsimp only
    split
    · exact Safe.ret ⟨hs, .nothing⟩
    · -- too late: the workflow is cancelled, and the remediation times out
      have howns : Owns cfg d i none fun s => P s ∧ Tracked d x.id x.workflowID s :=
        owns_and hP fun s s' _ _ hundisturbed hp htracked =>
          htracked.undisturbed hundisturbed (howned s hp)
      have hupdate {s : Shared} (htracked : Tracked d x.id x.workflowID s)
          (hattempt : x.workflowID ∈ s.cancelAttempts) (error : String) :
          HeliosUpdate d s (settled x w .timedOut error) := by
        refine .overdue (fun workflowID name hresult => ?_) fun hd => ⟨htracked.only hd, hattempt⟩
        obtain ⟨hid, -⟩ := Result.helios.inj hresult
        obtain ⟨w', hid', hw'⟩ := htracked.submitted
        exact ⟨w', hid'.trans hid, hw', trivial⟩
      refine Safe.bind ((cancelWorkflow_safe howns ⟨hs, htracked⟩).mono ?_)
      rintro (e | _) s₁ ⟨⟨hp, htracked⟩, hattempt⟩
      · exact Safe.ret ⟨hp, .update rfl rfl (hupdate htracked hattempt _)⟩
      · exact Safe.ret ⟨hp, .update rfl rfl (hupdate htracked hattempt _)⟩

/-! ## Plans -/

variable {more updates : List Db.Update}

/-- More updates for another row. -/
theorem Planned.append (h : Planned d i updates s) (id : String)
    (hmore : Consistent s.db.statusOf more) (hid : ∀ u ∈ more, u.id = id)
    (hlocked : id ∈ s.rowLocks) (hne : ∀ u ∈ updates, u.id ≠ id)
    (htold : ∀ u ∈ more, HeliosUpdate d s u) : Planned d i (updates ++ more) s where
  reconciler := h.reconciler
  consistent := h.consistent.append hmore fun u hu v hv => by
    rw [hid v hv]
    exact (hne u hu).symm
  locked u hu := by
    rcases List.mem_append.mp hu with hu | hu
    · exact h.locked u hu
    · exact hid u hu ▸ hlocked
  told u hu := by
    rcases List.mem_append.mp hu with hu | hu
    · exact h.told u hu
    · exact htold u hu

/-! ## Running remediations -/

/-- A running row that the reconciler holds. -/
structure Holding (x : RunningHelios) (s : Shared) : Prop where
  locked : x.id ∈ s.rowLocks
  row : ∃ r ∈ s.db.remediations, r.id = x.id ∧ r.status = .running ∧
    workflowOf r.result = some x.workflowID

/-- The state of the reconciler while it settles running remediations. -/
structure Settling (d : Discipline) (i : ℕ) (updates : List Db.Update) (items : List RunningHelios)
    (s : Shared) : Prop where
  planned : Planned d i updates s
  running : ∀ u ∈ updates, s.db.statusOf u.id = some .running
  holding : ∀ x ∈ items, Holding x s
  nodup : (items.map RunningHelios.id).Nodup
  fresh : ∀ u ∈ updates, ∀ x ∈ items, u.id ≠ x.id

theorem owns_settling (cfg : Config) (d : Discipline) (i : ℕ) (updates : List Db.Update)
    (items : List RunningHelios) : Owns cfg d i none (Settling d i updates items) := by
  intro s s' hinv hinv' hundisturbed h
  have hreconciler := h.planned.reconciler
  refine ⟨h.planned.undisturbed hundisturbed hinv'.ids (by simp), fun u hu => ?_, fun x hx => ?_,
    h.nodup, h.fresh⟩
  · exact hundisturbed.statusOf hinv'.ids hreconciler (h.planned.locked u hu) (h.running u hu)
  · obtain ⟨hlocked, r, hr, hid, hrunning⟩ := h.holding x hx
    refine ⟨(hundisturbed.locks hreconciler).2 ▸ hlocked, r, ?_, hid, hrunning⟩
    exact (hundisturbed.rows hreconciler r (hid ▸ hlocked)).mpr hr

theorem workflowOf_eq_some {result : Result} {workflowID : String}
    (h : workflowOf result = some workflowID) : ∃ name, result = .helios workflowID name := by
  cases result with
  | helios workflowID' name =>
    rw [workflowOf] at h
    split at h
    · cases h
    · obtain rfl := Option.some.inj h
      exact ⟨name, rfl⟩
  | null | reason | message | control => cases h

/-- A running remediation follows the workflow that its result names. -/
theorem Holding.tracked (h : Holding x s) (hinv : Invariant cfg d s) :
    Tracked d x.id x.workflowID s := by
  obtain ⟨r, hr, hid, hrunning, hworkflow⟩ := h.row
  obtain ⟨name, hresult⟩ := workflowOf_eq_some hworkflow
  obtain ⟨-, hreports⟩ := hinv.tables.following.results r hr x.workflowID name hresult
  obtain ⟨w, hwid, hw, -⟩ := hreports x.workflowID name hresult
  refine ⟨⟨w, hwid, hid ▸ hw⟩, fun hd w' hw' => ?_⟩
  cases (hinv.exclusive hd).follows x.id w' hw' r hr hid with
  | queued hstatus => simp [hrunning] at hstatus
  | running _ hresult' => exact (Result.helios.inj (hresult'.symm.trans hresult)).1
  | timedOut hstatus _ => simp [hrunning] at hstatus

variable {items : List RunningHelios}

theorem Settling.tail (h : Settling d i updates (x :: items) s) : Settling d i updates items s :=
  ⟨h.planned, h.running, fun y hy => h.holding y (List.mem_cons_of_mem _ hy), h.nodup.of_cons,
    fun u hu y hy => h.fresh u hu y (List.mem_cons_of_mem _ hy)⟩

theorem Settling.append (hinv : s.db.Distinct)
    (h : Settling d i updates (x :: items) s) (hmore : SettledBy d s x.id more) :
    Settling d i (updates ++ more) items s := by
  cases hmore with
  | nothing => simpa using h.tail
  | @update u hid hsource htold =>
    obtain ⟨hlocked, r, hr, hrid, hrunning, -⟩ := h.holding x List.mem_cons_self
    have hstatus : s.db.statusOf u.id = some .running := by
      rw [hid, ← hrid, Db.statusOf_of_mem hinv hr, hrunning]
    have hnot : ∀ y ∈ items, u.id ≠ y.id := by
      intro y hy heq
      refine (List.nodup_cons.mp h.nodup).1 ?_
      rw [← hid, heq]
      exact List.mem_map_of_mem hy
    refine
      { planned := h.planned.append x.id ⟨htold.truthful, hsource ▸ hstatus, trivial⟩ ?_ hlocked
          (fun v hv => h.fresh v hv x List.mem_cons_self) ?_
        running := fun v hv => ?_
        holding := h.tail.holding
        nodup := h.tail.nodup
        fresh := fun v hv y hy => ?_ }
    · exact List.forall_mem_singleton.mpr hid
    · exact List.forall_mem_singleton.mpr htold
    · rcases List.mem_append.mp hv with hv | hv
      · exact h.running v hv
      · exact List.mem_singleton.mp hv ▸ hstatus
    · rcases List.mem_append.mp hv with hv | hv
      · exact h.tail.fresh v hv y hy
      · exact List.mem_singleton.mp hv ▸ hnot y hy

theorem settleRunningHelios_safe (hs : Settling d i updates items s) :
    Safe (specification cfg d) i (fun updates s => Settling d i updates [] s)
      (settleRunningHelios updates items) s := by
  induction items generalizing updates s with
  | nil => exact Safe.ret hs
  | cons x items ih =>
    have howns := owns_settling cfg d i updates (x :: items)
    refine Safe.bind ((getWorkflow_safe howns hs).mono ?_)
    rintro (e | w) s₁ ⟨hsettling, hinv, hshown⟩
    · exact ih hsettling.tail
    · obtain ⟨hw, hid⟩ := hshown w rfl
      have hholding := hsettling.holding x List.mem_cons_self
      have howned (s : Shared) (h : Settling d i updates (x :: items) s) : Owned i x.id s :=
        .inr ⟨h.planned.reconciler, (h.holding x List.mem_cons_self).locked⟩
      have hkeeps : Owns cfg d i none fun s =>
          Settling d i updates (x :: items) s ∧ s.db.Distinct :=
        owns_and howns fun _ _ _ hinv' _ _ _ => hinv'.ids
      refine Safe.bind ((settleHelios_safe hkeeps (fun s h => howned s h.1)
        ⟨hsettling, hinv.ids⟩ hinv (hholding.tracked hinv) hw hid).mono ?_)
      rintro more s₂ ⟨⟨hsettling, hids⟩, hmore⟩
      exact ih (hsettling.append hids hmore)

/-! ## Lost submissions -/

/-- The state of the reconciler while it recovers lost submissions. -/
structure Recovering (d : Discipline) (i : ℕ) (updates : List Db.Update) (lost : List String)
    (s : Shared) : Prop where
  planned : Planned d i updates s
  locked : ∀ id ∈ lost, id ∈ s.rowLocks
  queued : ∀ id ∈ lost, s.db.statusOf id = some .queued
  nodup : lost.Nodup
  fresh : ∀ u ∈ updates, u.id ∉ lost

theorem Recovering.owned (h : Recovering d i updates (id :: lost) s) : Owned i id s :=
  .inr ⟨h.planned.reconciler, h.locked id List.mem_cons_self⟩

theorem owns_recovering (cfg : Config) (d : Discipline) (i : ℕ) (lost : List String)
    {exempt : Option String} (hne : ∀ u ∈ updates, some u.id ≠ exempt) :
    Owns cfg d i exempt (Recovering d i updates lost) := by
  intro s s' hinv hinv' hundisturbed h
  have hreconciler := h.planned.reconciler
  refine ⟨h.planned.undisturbed hundisturbed hinv'.ids hne, fun id hid => ?_, fun id hid => ?_,
    h.nodup, h.fresh⟩
  · exact (hundisturbed.locks hreconciler).2 ▸ h.locked id hid
  · exact hundisturbed.statusOf hinv'.ids hreconciler (h.locked id hid) (h.queued id hid)

variable {lost : List String}

theorem Recovering.tail (h : Recovering d i updates (id :: lost) s) :
    Recovering d i updates lost s :=
  ⟨h.planned, fun x hx => h.locked x (List.mem_cons_of_mem _ hx),
    fun x hx => h.queued x (List.mem_cons_of_mem _ hx), h.nodup.of_cons,
    fun u hu hx => h.fresh u hu (List.mem_cons_of_mem _ hx)⟩

theorem Recovering.append (h : Recovering d i updates (id :: lost) s)
    (hmore : Consistent s.db.statusOf more) (hid : ∀ u ∈ more, u.id = id)
    (htold : ∀ u ∈ more, HeliosUpdate d s u) : Recovering d i (updates ++ more) lost s := by
  refine { h.tail with
    planned := h.planned.append id hmore hid (h.locked id List.mem_cons_self) ?_ htold
    fresh := fun u hu => ?_ }
  · rintro u hu rfl
    exact h.fresh u hu List.mem_cons_self
  · rcases List.mem_append.mp hu with hu | hu
    · exact h.tail.fresh u hu
    · rw [hid u hu]
      exact (List.nodup_cons.mp h.nodup).1

/-- The workflow that is found is the newest one. -/
theorem newest_of_find (h : Helios.find s.workflows id = some w) :
    newest s.workflows id = some w := by
  unfold Helios.find at h
  rw [newest, ← List.take_append_drop 500 s.workflows, List.find?_append, h]
  rfl

/-- A workflow that was found can be adopted. -/
theorem tracked_of_find (hinv : Invariant cfg d s)
    (hpermitted : Permitted cfg d (.findWorkflow id) s) (h : Helios.find s.workflows id = some w) :
    Tracked d id w.id s := by
  have hmem : w ∈ s.workflows := List.mem_of_mem_take (List.mem_of_find?_eq_some h)
  have hid : w.remediationID = some id := by
    simpa [Helios.find] using List.find?_some h
  refine ⟨⟨w, rfl, hmem, hid, fun hd => hpermitted.adoption hd id rfl w h⟩, fun hd w' hw' => ?_⟩
  have hnewest := (hinv.exclusive hd).newest id w' hw'
  rw [newest_of_find h] at hnewest
  rw [Option.some.inj hnewest]

/-- If no workflow is found, none is live. -/
theorem noLive_of_find (hpermitted : Permitted cfg d (.findWorkflow id) s)
    (h : Helios.find s.workflows id = none) (hd : d.exclusive) : NoLive s id := by
  intro w hw
  have hmem := hpermitted.exclusive hd w hw
  rw [Helios.find, List.find?_eq_none] at h
  exact absurd (by simpa using hw.remediationID) (h w hmem)

theorem findWorkflow_safe (hP : Owns cfg d i none P) (hs : P s) :
    Safe (specification cfg d) i (fun r s => P s ∧ Invariant cfg d s ∧
      (∀ w, r = .ok (some w) → w ∈ s.workflows ∧ Tracked d id w.id s) ∧
      (r = .ok none → d.exclusive → NoLive s id)) (findWorkflow id) s := by
  refine Safe.perform P (hP.stable _) hs ?_
  intro s₁ o r s₂ hinv hp hpermitted hact
  cases hact
  refine ⟨Step.nothing o _, hp, hinv, fun w hr => ?_, fun hr => ?_⟩
  · split at hr
    · have hfind := Except.ok.inj hr
      exact ⟨List.mem_of_mem_take (List.mem_of_find?_eq_some hfind),
        tracked_of_find hinv hpermitted hfind⟩
    · cases hr
  · split at hr
    · exact noLive_of_find hpermitted (Except.ok.inj hr)
    · cases hr

theorem heliosUpdate_adopted (h : Tracked d id w.id s) (hinv : Invariant cfg d s)
    (hw : w ∈ s.workflows) : HeliosUpdate d s (adopted id w) :=
  .running (h.reports hinv hw .running trivial w.state.name) h.only

theorem consistent_adopted (hqueued : s.db.statusOf id = some .queued)
    (hmore : SettledBy d s id more) : Consistent s.db.statusOf (adopted id w :: more) := by
  refine ⟨rfl, hqueued, ?_⟩
  cases hmore with
  | nothing => trivial
  | update hid hsource htold =>
    refine ⟨htold.truthful, ?_, trivial⟩
    rw [hid, hsource]
    exact Function.update_self ..

theorem adopt_safe (hs : Recovering d i updates (id :: lost) s) (hinv : Invariant cfg d s)
    (htracked : Tracked d id w.id s) (hw : w ∈ s.workflows) :
    Safe (specification cfg d) i (fun more s => Recovering d i (updates ++ more) lost s)
      (adopt id w) s := by
  have hkeeps : Owns cfg d i none fun s =>
      Recovering d i updates (id :: lost) s ∧ HeliosUpdate d s (adopted id w) :=
    owns_and (owns_recovering cfg d i (id :: lost) (by simp))
      fun s s' _ _ hundisturbed h htold => htold.undisturbed hundisturbed h.owned (by simp)
  refine Safe.bind ((settleHelios_safe hkeeps (fun s h => h.1.owned)
    ⟨hs, heliosUpdate_adopted htracked hinv hw⟩ hinv htracked hw rfl).mono ?_)
  rintro more s₁ ⟨⟨hrecovering, htold⟩, hmore⟩
  refine Safe.ret (hrecovering.append (consistent_adopted
    (hrecovering.queued id List.mem_cons_self) hmore) ?_ ?_)
  · refine List.forall_mem_cons.mpr ⟨rfl, ?_⟩
    cases hmore with
    | nothing => simp
    | update hid _ _ => exact List.forall_mem_singleton.mpr hid
  · refine List.forall_mem_cons.mpr ⟨htold, ?_⟩
    cases hmore with
    | nothing => simp
    | update _ _ h => exact List.forall_mem_singleton.mpr h

/-- What the reconciler knows of a lost submission that it sends again. -/
def Resending (d : Discipline) (i : ℕ) (updates : List Db.Update) (id : String)
    (lost : List String) (dryRun : Bool) (s : Shared) : Prop :=
  Recovering d i updates (id :: lost) s ∧ InMode s id dryRun

theorem submitter_resending {cfg : Config} {d : Discipline} {i : ℕ} {id : String} {dryRun : Bool}
    (hfresh : ∀ u ∈ updates, u.id ∉ id :: lost) :
    Submitter cfg d i id dryRun (Resending d i updates id lost dryRun) where
  keeps := owns_and
    (owns_recovering cfg d i (id :: lost) fun u hu heq => by
      obtain rfl := Option.some.inj heq
      exact hfresh u hu List.mem_cons_self)
    fun _ _ _ _ hundisturbed h hmode => hundisturbed.modes id h.owned dryRun hmode
  owned _ h := h.1.owned
  mode _ h := h.2
  queued _ _ _ h := h.1.queued id List.mem_cons_self

theorem resubmit_safe (hs : Recovering d i updates (id :: lost) s) (hno : d.exclusive → NoLive s id) :
    Safe (specification cfg d) i (fun r s => s.reconciler = some i ∧
      ∀ more, r = .ok more → Recovering d i (updates ++ more) lost s) (resubmit id) s := by
  have hkeeps : Owns cfg d i none fun s =>
      Recovering d i updates (id :: lost) s ∧ (d.exclusive → NoLive s id) :=
    owns_and (owns_recovering cfg d i (id :: lost) (by simp))
      fun s s' _ _ hundisturbed h hno hd => hundisturbed.noLive hd h.owned (by simp) (hno hd)
  have herror (e : Failure) {s : Shared} (h : Recovering d i updates (id :: lost) s) :
      Safe (specification cfg d) i (fun r s => s.reconciler = some i ∧
        ∀ more, r = .ok more → Recovering d i (updates ++ more) lost s)
        (pure (.error e) : Program (Except Failure (List Db.Update))) s := by
    refine Safe.ret ⟨h.planned.reconciler, ?_⟩
    rintro more ⟨⟩
  refine Safe.bind (safe_query _ (hkeeps.stable _) ⟨hs, hno⟩ ?_ fun e s₁ _ h => herror e h.1)
  rintro o s₁ remediation hinv ⟨hrecovering, hno⟩ hread
  obtain ⟨r, hget, rfl⟩ := Db.remediation_eq_ok hread
  obtain ⟨hr, rfl⟩ := Remediation.mem_of_getRemediation hget
  have hsubmitter : Submitter cfg d i r.id r.dryRun (Resending d i updates r.id lost r.dryRun) :=
    submitter_resending hrecovering.fresh
  have hkeeps' : Owns cfg d i none fun s =>
      Resending d i updates r.id lost r.dryRun s ∧ (d.exclusive → NoLive s r.id) :=
    owns_and hsubmitter.owns fun s s' _ _ hundisturbed h hno hd =>
      hundisturbed.noLive hd (hsubmitter.owned s h) (by simp) (hno hd)
  refine Safe.bind (safe_query _ (hkeeps'.stable _) ⟨⟨hrecovering, r, hr, rfl, rfl⟩, hno⟩ ?_
    fun e s₂ _ h => herror e h.1.1)
  rintro o₂ s₂ incident _ ⟨hresending, hno⟩ -
  dsimp only
  split
  · -- the incident was closed meanwhile
    refine Safe.ret ⟨hresending.1.planned.reconciler, ?_⟩
    rintro more ⟨⟩
    exact hresending.1.append ⟨rfl, hresending.1.queued r.id List.mem_cons_self, trivial⟩
      (List.forall_mem_singleton.mpr rfl) (List.forall_mem_singleton.mpr (.abandoned hno))
  · refine Safe.bind ((heliosExecute_safe hsubmitter hresending hno).mono ?_)
    rintro (e | outcome) s₃ ⟨hresending, htold⟩
    · refine Safe.ret ⟨hresending.1.planned.reconciler, ?_⟩
      rintro more ⟨⟩
      simpa using hresending.1.tail
    · refine Safe.ret ⟨hresending.1.planned.reconciler, ?_⟩
      rintro more ⟨⟩
      have hupdate := htold outcome rfl "system"
      refine hresending.1.append ⟨hupdate.truthful, ?_, trivial⟩
        (List.forall_mem_singleton.mpr (id_update outcome r.id "system"))
        (List.forall_mem_singleton.mpr hupdate)
      rw [id_update]
      have hqueued := hresending.1.queued r.id List.mem_cons_self
      cases outcome <;> exact hqueued

theorem recoverLost_safe (hs : Recovering d i updates lost s) :
    Safe (specification cfg d) i (fun r s => s.reconciler = some i ∧
      ∀ all, r = .ok all → Planned d i all s) (recoverLost updates lost) s := by
  induction lost generalizing updates s with
  | nil =>
    refine Safe.ret ⟨hs.planned.reconciler, ?_⟩
    rintro all ⟨⟩
    exact hs.planned
  | cons id lost ih =>
    refine Safe.bind ((findWorkflow_safe (owns_recovering cfg d i (id :: lost) (by simp))
      hs).mono ?_)
    rintro (e | _ | w) s₁ ⟨hrecovering, hinv, hfound, hnone⟩
    · exact ih hrecovering.tail
    · refine Safe.bind ((resubmit_safe hrecovering (hnone rfl)).mono ?_)
      rintro (e | more) s₂ ⟨hreconciler, hmore⟩
      · refine Safe.ret ⟨hreconciler, ?_⟩
        rintro all ⟨⟩
      · exact ih (hmore more rfl)
    · obtain ⟨hw, htracked⟩ := hfound w rfl
      refine Safe.bind ((adopt_safe hrecovering hinv htracked hw).mono ?_)
      intro more s₂ h
      exact ih h

/-! ## The transaction -/

variable {now : Time}

theorem map_id_runningHelios {db : Db} :
    (runningHelios cfg now db).map RunningHelios.id =
      (((db.remediations.filter fun r => r.status = .running && (workflowOf r.result).isSome).insertionSort
        fun r r' => r.startedAt.getD 0 ≤ r'.startedAt.getD 0).take 50).map RemediationAction.id := by
  unfold runningHelios
  rw [List.map_filterMap, ← List.filterMap_eq_map]
  refine List.filterMap_congr fun r hr => ?_
  obtain ⟨-, hselect⟩ := Table.mem_of_mem_select hr
  obtain ⟨workflowID, hworkflow⟩ := Option.isSome_iff_exists.mp
    ((Bool.and_eq_true _ _).mp hselect).2
  simp [hworkflow]

theorem row_of_mem_runningHelios {db : Db} (h : x ∈ runningHelios cfg now db) :
    ∃ r ∈ db.remediations, r.id = x.id ∧
      r.status = .running ∧ workflowOf r.result = some x.workflowID := by
  obtain ⟨r, hr, hx⟩ := List.mem_filterMap.mp h
  obtain ⟨hmem, hselect⟩ := Table.mem_of_mem_select hr
  obtain ⟨workflowID, hworkflow, rfl⟩ := Option.map_eq_some_iff.mp hx
  exact ⟨r, hmem, rfl, by simpa using ((Bool.and_eq_true _ _).mp hselect).1, hworkflow⟩

theorem lockRunning_safe :
    Safe (specification cfg d) i (fun r s => ∀ now running, r = .ok (some (now, running)) →
      Settling d i [] running s) (lockRunning cfg i) s := by
  refine safe_transact (fun _ => True) ((keeps_const cfg d _).stable i _) trivial ?_ ?_
  · intro o s₁ r s₂ hinv _ _ hf
    split at hf
    · cases hf
      refine ⟨Step.nothing o _, ?_⟩
      rintro now running ⟨⟩
    · rename_i hnone
      cases hf
      refine ⟨.lockRunning (by simpa using hnone) fun id hid => ?_, ?_⟩
      · obtain ⟨x, hx, rfl⟩ := List.mem_map.mp hid
        obtain ⟨r, hr, hrid, hrunning, -⟩ := row_of_mem_runningHelios hx
        rw [← hrid, Db.statusOf_of_mem hinv.ids hr, hrunning]
      · rintro now running ⟨⟩
        refine ⟨⟨rfl, trivial, by simp, by simp⟩, by simp, fun x hx => ?_, ?_, by simp⟩
        · exact ⟨List.mem_map_of_mem hx, row_of_mem_runningHelios hx⟩
        · rw [map_id_runningHelios]
          exact Table.nodup_select hinv.ids
  · rintro e s₁ _ _ now running ⟨⟩

/-- What recovery selects was queued too long ago. -/
theorem exists_of_mem_lostSubmissions (h : id ∈ lostSubmissions cfg now s.db) :
    ∃ r ∈ s.db.remediations, r.id = id ∧ r.status = .queued ∧
      ∃ t, r.queuedAt = some t ∧ t < now - cfg.submitLostAfter := by
  obtain ⟨r, hr, rfl⟩ := List.mem_map.mp h
  obtain ⟨hmem, hselect⟩ := Table.mem_of_mem_select hr
  simp only [Bool.and_eq_true, decide_eq_true_eq, Option.any_eq_true] at hselect
  obtain ⟨⟨hqueued, t, ht, hlt⟩, -⟩ := hselect
  exact ⟨r, hmem, rfl, hqueued, t, ht, hlt⟩

theorem statusOf_of_mem_lostSubmissions (hids : s.db.Distinct)
    (h : id ∈ lostSubmissions cfg now s.db) : s.db.statusOf id = some .queued := by
  obtain ⟨r, hr, rfl, hqueued, -⟩ := exists_of_mem_lostSubmissions h
  rw [Db.statusOf_of_mem hids hr, hqueued]

theorem nodup_lostSubmissions (hids : s.db.Distinct) (now : Time) :
    (lostSubmissions cfg now s.db).Nodup :=
  Table.nodup_select hids

theorem lockLost_safe (hs : Settling d i updates [] s) :
    Safe (specification cfg d) i (fun r s => s.reconciler = some i ∧
      ∀ lost, r = .ok lost → Recovering d i updates lost s) (lockLost cfg now) s := by
  refine safe_transact _ ((owns_settling cfg d i updates []).stable _) hs ?_ ?_
  · intro o s₁ lost s₂ hinv hpermitted h hf
    cases hf
    have hqueued (id : String) (hid : id ∈ lostSubmissions cfg now s₁.db) :=
      statusOf_of_mem_lostSubmissions hinv.ids hid
    refine ⟨.lockLost h.planned.reconciler hqueued hpermitted.exclusive, h.planned.reconciler, ?_⟩
    rintro lost ⟨⟩
    refine ⟨⟨h.planned.reconciler, h.planned.consistent, fun u hu => ?_,
        fun u hu => (h.planned.told u hu).congr rfl rfl rfl⟩, fun id hid => List.mem_append_right _ hid,
      hqueued, nodup_lostSubmissions hinv.ids now, fun u hu hid => ?_⟩
    · exact List.mem_append_left _ (h.planned.locked u hu)
    · exact absurd ((h.running u hu).symm.trans (hqueued u.id hid)) (by simp)
  · intro e s₁ _ h
    refine ⟨h.planned.reconciler, ?_⟩
    rintro lost ⟨⟩

theorem owns_reconciler (cfg : Config) (d : Discipline) (i : ℕ) :
    Owns cfg d i none fun s => s.reconciler = some i :=
  fun _ _ _ _ hundisturbed h => (hundisturbed.locks h).1

theorem rollbackReconcile_safe (hs : s.reconciler = some i) :
    Safe (specification cfg d) i (fun _ _ => True) rollbackReconcile s := by
  refine Safe.perform _ ((owns_reconciler cfg d i).stable _) hs ?_
  intro s₁ o r s₂ _ h _ hact
  cases hact
  exact ⟨.endReconcile h, trivial⟩

theorem commitReconcile_safe (hcfg : cfg.executor = .helios) (hs : Planned d i updates s) :
    Safe (specification cfg d) i (fun _ _ => True) (commitReconcile now updates) s := by
  have howns : Owns cfg d i none (Planned d i updates) :=
    fun _ _ _ hinv' hundisturbed h => h.undisturbed hundisturbed hinv'.ids (by simp)
  refine Safe.perform _ (howns.stable _) hs ?_
  intro s₁ o r s₂ _ h _ hact
  replace hact := Option.some.inj hact
  split at hact
  · split at hact <;> cases hact
    · rename_i db hdb
      exact ⟨.commit hcfg h hdb, trivial⟩
    · exact ⟨.endReconcile h.reconciler, trivial⟩
  · cases hact
    exact ⟨.endReconcile h.reconciler, trivial⟩

theorem reconcileLocked_safe {running : List RunningHelios} (hcfg : cfg.executor = .helios)
    (hs : Settling d i [] running s) :
    Safe (specification cfg d) i (fun _ _ => True) (reconcileLocked cfg now running) s := by
  refine Safe.bind ((settleRunningHelios_safe hs).mono ?_)
  intro updates s₁ hsettling
  refine Safe.bind ((lockLost_safe hsettling).mono ?_)
  rintro (e | lost) s₂ ⟨hreconciler, hlost⟩
  · exact Safe.bind ((rollbackReconcile_safe hreconciler).mono fun _ _ _ => Safe.ret trivial)
  refine Safe.bind ((recoverLost_safe (hlost lost rfl)).mono ?_)
  rintro (e | all) s₃ ⟨hreconciler, hall⟩
  · exact Safe.bind ((rollbackReconcile_safe hreconciler).mono fun _ _ _ => Safe.ret trivial)
  refine Safe.bind ((commitReconcile_safe hcfg (hall all rfl)).mono ?_)
  rintro (e | _) s₄ - <;> exact Safe.ret trivial

theorem reconcileHelios_yields :
    Yields (specification cfg d) i (fun _ => True) (reconcileHelios cfg i) := by
  constructor
  intro s
  unfold reconcileHelios
  split
  · exact Safe.ret trivial
  · rename_i hcfg
    refine Safe.bind (lockRunning_safe.mono ?_)
    rintro (e | _ | ⟨now, running⟩) s₁ h
    · exact Safe.ret trivial
    · exact Safe.ret trivial
    · exact reconcileLocked_safe hcfg (h now running rfl)

end Argus.System

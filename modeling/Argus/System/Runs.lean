import Argus.Base.Answers
import Argus.Remediation.SequentialProposals
import Argus.System.ReconcileSafety

/-!
# Runs of the system

Every call is safe, so the invariant holds in every state of every run, every step is a `Step`, and every
answer is as promised. `Disciplined` says of the events of a run what a discipline assumes; without
assumptions it is true of all of them.
-/

namespace Argus.System

open Interleave (Spec Safe Silent Yields Obligations Compatible Tolerated Sound)
open Remediation (Time RemediationAction Failure Identity Status)

variable {cfg : Config} {d : Discipline} {i : ℕ} {l : Label} {o : Oracle} {s s' : Shared}

/-! ## Every call -/

/-- What an answer says about the state. -/
def Promised (i : ℕ) (c : Call) (a : Answer) : Shared → Prop :=
  match c, a with
  | .cancel id _, .done (.ok ()) => IsCancelled id
  | .execute id dryRun _, .executed false => Reserves i id dryRun
  | _, _ => fun _ => True

theorem keeps_promised (cfg : Config) (d : Discipline) (i : ℕ) (c : Call) (a : Answer) :
    Keeps cfg d (Promised i c a) := by
  unfold Promised
  split
  · exact keeps_isCancelled cfg d _
  · exact keeps_reserves cfg d i _ _
  · exact keeps_const cfg d True

variable {c : Call}

theorem program_safe
    (hpre : ∀ h job channel, c = .handler h job channel → HandlerReady cfg h job channel s) :
    Safe (specification cfg d) i (Promised i c) (program cfg i c) s := by
  -- most answers promise nothing
  have hfree {p : Program Answer} {Q : Answer → Shared → Prop} (hQ : ∀ a s, Q a s)
      (hp : Yields (specification cfg d) i (fun _ => True) p) :
      Safe (specification cfg d) i Q p s :=
    (hp.safe s).mono fun a s _ => hQ a s
  unfold program
  cases c with
  | propose incident candidates actor role => exact hfree (fun _ _ => trivial) propose_yields
  | decide id actor decision reason source => exact hfree (fun _ _ => trivial) decide_yields
  | decideByRemediation id actor decision reason =>
    exact hfree (fun _ _ => trivial) decideByRemediation_yields
  | cancelByRemediation id actor reason =>
    exact cancelByRemediation_safe.mono fun _ _ _ => trivial
  | expireDue => exact hfree (fun _ _ => trivial) expireDue_yields
  | execute id dryRun actor =>
    refine execute_safe.mono fun a s h => ?_
    rcases a with (e | _) | (_ | _) | _ | _ | _
    case executed.false => exact h rfl
    all_goals trivial
  | cancel id actor =>
    refine cancel_safe.mono fun a s h => ?_
    rcases a with (e | _) | (_ | _) | _ | _ | _
    case done.ok => exact h rfl
    all_goals trivial
  | publish onlyID =>
    refine hfree (fun _ _ => trivial) (Yields.bind publish_yields ?_)
    rintro (e | _) - <;> exact Yields.ret trivial
  | replay id actor => exact hfree (fun _ _ => trivial) replay_yields
  | reconcile => exact hfree (fun _ _ => trivial) reconcile_yields
  | handleMessage msg => exact hfree (fun _ _ => trivial) handleMessage_yields
  | handler h job channel =>
    exact (handler_safe (hpre h job channel rfl)).mono fun _ _ _ => trivial
  | reconcileHelios => exact hfree (fun _ _ => trivial) reconcileHelios_yields

theorem obligations (cfg : Config) (d : Discipline) :
    Obligations (argus cfg) (specification cfg d) Promised where
  program _ _ _ _ hpre := program_safe hpre
  external i c s hext _ h job channel heq := by
    subst heq
    cases hext
  post i c a := (keeps_promised cfg d i c a).stable i none

/-! ## Events -/

/-- What the discipline assumes of an event. -/
structure Disciplined (cfg : Config) (d : Discipline) (w : World) (e : Event) : Prop where
  permitted : ∀ i o l, e = .act i o → w.waiting i = some l → Permitted cfg d l w.shared
  proposals : d.proposals → ∀ i o k parameters, e = .act i o →
    w.waiting i = some (.insert k parameters) → ∀ j, j ≠ i → w.waiting j ≠ some (.countRecent k)
  incidents : d.incidents → ∀ x, e = .environment (.incident x) → x.status.isClosed = true →
    ∀ r ∈ w.shared.db.remediations, r.incidentID = x.id →
      r.status.isDispatchable = false ∧ ∀ j, w.waiting j ≠ some (.reserve r.id)

theorem disciplined_none (cfg : Config) (w : World) (e : Event) :
    Disciplined cfg .none w e where
  permitted _ _ _ _ _ := ⟨fun h => h.elim, fun h => h.elim, fun h => h.elim⟩
  proposals h := h.elim
  incidents h := h.elim

variable {w : World}

theorem waiting_of_procs {p : Program Answer} (h : w.procs i = some (c, p)) :
    w.waiting i = p.next := by
  rw [Interleave.World.waiting, h]
  rfl

/-- Only the insertion of one of its rows makes an identity active. -/
theorem NoActive.change {k : Identity} (h : NoActive k s) (hchange : Change cfg d l s s')
    (hl : ∀ parameters, l ≠ .insert k parameters) : NoActive k s' := by
  intro r' hr' hk
  rcases hchange.updates with
    ⟨f, hf, hrows⟩ | ⟨incident, c, actor, role, id, clock, n, failed, hlabel, hins⟩
  · rw [hrows] at hr'
    obtain ⟨r, hr, rfl⟩ := List.mem_map.mp hr'
    exact (hf.row r hr).inactive (h r hr ((hf.same r).identity.symm.trans hk))
  · rw [hins.eq, List.mem_append, List.mem_singleton] at hr'
    rcases hr' with hr' | rfl
    · exact h r' hr' hk
    · exact absurd (hk ▸ hlabel) (hl c.parameters)

theorem Step.noActive (h : Step cfg d i l o s s') {k : Identity}
    (hl : ∀ parameters, l ≠ .insert k parameters) (hs : NoActive k s) : NoActive k s' := by
  rcases h.changes_or_inserts with hchanges | ⟨⟨_, c, _, _, _, _, _, _, rfl, hins, -⟩, hrest⟩
  · clear h
    induction hchanges with
    | refl => exact hs
    | tail _ hstep ih => exact ih.change hstep fun _ => by simp
  · have hchange : Change cfg d _ s s' := .insert hins hrest
    exact hs.change hchange hl

theorem Db.incident_upsert_self (db : Db) (x : Incidents.Incident) :
    Db.incident { db with incidents := upsert (·.id) x db.incidents } x.id = .ok x := by
  have hnone : (db.incidents.filter fun i => i.id ≠ x.id).find? (fun i => i.id == x.id) = none := by
    rw [List.find?_eq_none]
    intro i hi
    simpa using (List.mem_filter.mp hi).2
  unfold Db.incident upsert
  dsimp only
  rw [List.find?_append, hnone]
  simp

variable {id : String}

theorem Db.incident_upsert_of_ne (db : Db) {x : Incidents.Incident} (h : x.id ≠ id) :
    Db.incident { db with incidents := upsert (·.id) x db.incidents } id = db.incident id := by
  have hfilter : (db.incidents.filter fun i => i.id ≠ x.id).find? (fun i => i.id == id) =
      db.incidents.find? fun i => i.id == id := by
    rw [List.find?_filter]
    refine congrFun (congrArg _ (funext fun i => ?_)) db.incidents
    by_cases hi : i.id = id
    · simp [hi, h.symm]
    · simp [hi]
  have hlast : [x].find? (fun i => i.id == id) = none := by simp [h]
  unfold Db.incident upsert
  dsimp only
  rw [List.find?_append, hfilter, hlast, Option.or_none]

/-- The environment closes an incident only by its own row. -/
theorem IncidentOpen.environment {e : Environment} (henv : environment e s = some s')
    (h : IncidentOpen s id) : IncidentOpen s' id ∨
      ∃ x, e = .incident x ∧ x.id = id ∧ x.status.isClosed = true := by
  cases e with
  | incident x =>
    obtain rfl := Option.some.inj henv
    by_cases hid : x.id = id
    · subst hid
      cases hclosed : x.status.isClosed with
      | false => exact .inl ⟨x, Db.incident_upsert_self s.db x, hclosed⟩
      | true => exact .inr ⟨x, rfl, rfl, hclosed⟩
    · obtain ⟨y, hy, hopen⟩ := h
      exact .inl ⟨y, (Db.incident_upsert_of_ne s.db hid).trans hy, hopen⟩
  | heartbeat _ | workflow _ _ =>
    obtain rfl := Option.some.inj henv
    exact .inl (h.congr rfl)
  | submission _ _ =>
    simp only [System.environment] at henv
    split at henv
    · cases henv
    · obtain rfl := Option.some.inj henv
      exact .inl (h.congr rfl)

theorem remediations_environment {e : Environment} (henv : environment e s = some s') :
    s'.db.remediations = s.db.remediations :=
  (environment_frame henv).1

theorem db_crash (i : ℕ) (s : Shared) : (crash i s).db = s.db := by
  unfold crash
  dsimp only
  split <;> rfl

theorem compatible (cfg : Config) (d : Discipline) :
    Compatible (argus cfg) (specification cfg d) (Disciplined cfg d) where
  permits w i o c β l act k hok hp := hok.permitted i o l rfl (waiting_of_procs hp)
  act w i o c β l act k b s' hok hp _ hinv hstep := by
    refine ⟨hinv.step hstep, fun j c' p hj hp' => ?_⟩
    have hji : j ≠ i := fun heq => hj (congrArg some heq)
    refine ⟨.step hji.symm hstep, fun hd k hk => ?_, fun _ _ _ _ hopen => .inl (hstep.incidentOpen hopen)⟩
    refine hstep.noActive fun parameters hl => ?_
    refine hok.proposals hd i o k parameters rfl ((waiting_of_procs hp).trans ?_) j hji
      ((waiting_of_procs hp').trans hk)
    rw [Interleave.Prog.next, hl]
  crash w i _ hinv := by
    refine ⟨hinv.crash i, fun j c p hj _ => ⟨.crash fun heq => hj (congrArg some heq.symm), ?_, ?_⟩⟩
    · intro _ k _ hactive r hr
      exact hactive r (db_crash i w.shared ▸ hr)
    · intro _ _ _ _ hopen
      exact .inl (hopen.congr (congrArg Db.incidents (db_crash i w.shared)))
  environment w e s' hok henv hinv := by
    have hrows := remediations_environment henv
    refine ⟨hinv.environment henv fun hd hlocal r hr hstatus => ?_,
      fun j c p _ hp => ⟨.environment henv, ?_, ?_⟩⟩
    · rw [hrows] at hr
      rcases (hinv.incidents hd hlocal r hr hstatus).environment henv with
        hopen | ⟨x, rfl, hid, hclosed⟩
      · exact hopen
      · rw [(hok.incidents hd x rfl hclosed r hr hid.symm).1] at hstatus
        cases hstatus
    · intro _ k _ hactive r hr
      exact hactive r (hrows ▸ hr)
    · intro hd id hl incidentID hopen
      rcases hopen.environment henv with hopen' | ⟨x, rfl, hid, hclosed⟩
      · exact .inl hopen'
      · refine .inr fun r hr hrid hincident => ?_
        have hwaiting := (hok.incidents hd x rfl hclosed r hr (hincident.trans hid.symm)).2 j
        exact hwaiting ((waiting_of_procs hp).trans (hrid ▸ hl))

/-! ## Every state -/

theorem tables_initial (cfg : Config) (d : Discipline) : Tables cfg d Shared.initial where
  coupling := by constructor <;> simp [Shared.initial]
  effects := by
    constructor
    case replayed => constructor <;> simp [Shared.initial]
    all_goals simp [Shared.initial]
  delivery := by constructor <;> simp [Shared.initial]
  following := by constructor <;> simp [Shared.initial]

theorem not_live_initial {w : Helios.Workflow} : ¬ Live Shared.initial id w :=
  fun h => by cases h.mem

theorem invariant_initial (cfg : Config) (d : Discipline) : Invariant cfg d Shared.initial where
  tables := tables_initial cfg d
  locks := by constructor <;> simp [Shared.initial]
  proposals _ := by
    refine ⟨?_, ?_, by simp [Shared.initial], by simp [Shared.initial]⟩
    · constructor <;> simp [Shared.initial]
    · intro k a hpos hle
      simp [Shared.initial, Remediation.countIdentity] at hle
      omega
  incidents _ _ r hr := by cases hr
  exclusive _ := ⟨fun _ _ h => absurd h not_live_initial, fun _ _ h => absurd h not_live_initial,
    by simp [Shared.initial]⟩

/-- The states of the runs from the empty tables. -/
abbrev Reachable (cfg : Config) (w : World) : Prop :=
  (argus cfg).Reach (fun _ _ => True) World.initial w

/-- The runs that continue from a state. -/
abbrev Continues (cfg : Config) (w w' : World) : Prop :=
  (argus cfg).Reach (fun _ _ => True) w w'

/-- In the runs of a discipline every call is safe. -/
theorem sound_of_reach (h : (argus cfg).Reach (Disciplined cfg d) World.initial w) :
    Sound (specification cfg d) Promised w := by
  have h₀ : Sound (specification cfg d) Promised World.initial :=
    ⟨invariant_initial cfg d, fun _ _ _ hp => by cases hp⟩
  exact Sound.reach (obligations cfg d) (compatible cfg d) h₀ h

theorem sound_of_reachable (h : Reachable cfg w) : Sound (specification cfg .none) Promised w :=
  sound_of_reach (h.mono fun w e _ => disciplined_none cfg w e)

/-- The invariant holds in every state of every run. -/
theorem invariant_of_reachable (h : Reachable cfg w) : Invariant cfg .none w.shared :=
  (sound_of_reachable h).inv

/-! ## Every step -/

/-- What an event does to the shared state. -/
inductive Happens (cfg : Config) (d : Discipline) (w w' : World) : Event → Prop
  | nothing {e : Event} (h : w'.shared = w.shared) : Happens cfg d w w' e
  | step {i : ℕ} {o : Oracle} {l : Label} (hwaiting : w.waiting i = some l)
      (hpermitted : Permitted cfg d l w.shared) (h : Step cfg d i l o w.shared w'.shared) :
      Happens cfg d w w' (.act i o)
  | crash {i : ℕ} (h : w'.shared = System.crash i w.shared) : Happens cfg d w w' (.crash i)
  | environment {x : Environment} (h : System.environment x w.shared = some w'.shared) :
      Happens cfg d w w' (.environment x)

variable {w' : World}

theorem happens {e : Event} (h : Sound (specification cfg d) Promised w)
    (hok : Disciplined cfg d w e) (hstep : (argus cfg).step w e = some w') :
    Happens cfg d w w' e := by
  rcases Interleave.System.step_shared hstep with
    heq | ⟨i, o, c, β, l, act, k, b, rfl, hp, hact, -⟩ | ⟨i, rfl, heq⟩ | ⟨x, rfl, henv⟩
  · exact .nothing heq
  · have hwaiting : w.waiting i = some l := waiting_of_procs hp
    have hpermitted := hok.permitted i o l rfl hwaiting
    exact .step hwaiting hpermitted (h.guarantee hp hpermitted hact).1
  · exact .crash heq
  · exact .environment henv

/-- Every event makes changes. -/
theorem Happens.changes {e : Event} (h : Happens cfg d w w' e) :
    ∃ l, Changes cfg d l w.shared w'.shared := by
  cases h with
  | nothing heq => exact ⟨.read, heq ▸ .refl⟩
  | step _ _ h => exact h.changes
  | crash heq => exact ⟨.read, heq ▸ .single (crash_change _ _)⟩
  | environment h => exact ⟨.read, .single (environment_change h)⟩

/-- What every change keeps holds for the rest of the run. -/
theorem Keeps.continues {P : Shared → Prop} (h : Keeps cfg .none P) (hw : Reachable cfg w)
    (hrun : Continues cfg w w') (hs : P w.shared) : Reachable cfg w' ∧ P w'.shared := by
  induction hrun with
  | refl => exact ⟨hw, hs⟩
  | tail _ _ hstep ih =>
    obtain ⟨hreach, hp⟩ := ih
    have hsound := sound_of_reachable hreach
    obtain ⟨l, hchanges⟩ := (happens hsound (disciplined_none cfg _ _) hstep).changes
    exact ⟨hreach.tail trivial hstep, h.changes hsound.inv.tables hchanges hp⟩

/-- What an answered call promised. -/
theorem promised_of_reachable (h : Reachable cfg w) {a : Answer} (hp : w.procs i = some (c, .ret a)) :
    Promised i c a w.shared :=
  ((sound_of_reachable h).safe i c _ hp).of_ret

/-! ## Statements that change nothing -/

section

variable {β : Type} {id : String} {f : Oracle → Shared → Except Failure (β × Shared)}

variable {Q : Except Failure β → Prop}

/-- A transaction that fails changes nothing. -/
theorem silent_transact (h : ∀ o s b s', f o s = .ok (b, s') → Q (.ok b) → s' = s) :
    Silent Q (transact l f) := by
  refine Silent.perform fun o s r s' hact hr => ?_
  rcases attempt_cases (Option.some.inj hact) with ⟨b, rfl, hf⟩ | ⟨e, rfl, rfl⟩
  · exact h o s b s' hf hr
  · rfl

theorem silent_transactOn (h : ∀ o s b s', f o s = .ok (b, s') → Q (.ok b) → s' = s) :
    Silent Q (transactOn l id f) := by
  refine Silent.perform fun o s r s' hact hr => ?_
  split at hact
  · cases hact
  · rcases attempt_cases (Option.some.inj hact) with ⟨b, rfl, hf⟩ | ⟨e, rfl, rfl⟩
    · exact h o s b s' hf hr
    · rfl

theorem silent_query {g : Oracle → Db → Except Failure β} : Silent Q (query l g) := by
  refine silent_transact fun o s b s' hf _ => ?_
  obtain ⟨b', -, heq⟩ := exists_of_map_eq_ok hf
  exact (Prod.mk.inj heq).2.symm

theorem silent_readClock {Q : Time → Prop} : Silent Q readClock := by
  refine Silent.perform fun o s b s' hact _ => ?_
  exact (Prod.mk.inj (Option.some.inj hact)).2.symm

end

/-! ## Runs on fixed events -/

/-- A run that ends as it should. -/
theorem exists_reachable (cfg : Config) (events : List Event) (p : World → Bool)
    (h : ((argus cfg).runIf (fun _ _ => true) World.initial events).any p = true) :
    ∃ w, Reachable cfg w ∧ p w = true :=
  Interleave.System.exists_reach_of_runIf (argus cfg) Shared.initial events p
    (fun _ _ _ _ => trivial) h

/-- A run whose next event does what it should. -/
theorem exists_step (cfg : Config) (events : List Event) (e : Event) (p : World → World → Bool)
    (h : ((argus cfg).runIf (fun _ _ => true) World.initial events).any
      (fun w => ((argus cfg).step w e).any (p w)) = true) :
    ∃ w w', Reachable cfg w ∧ (argus cfg).step w e = some w' ∧ p w w' = true := by
  obtain ⟨w, hw, hnext⟩ := exists_reachable cfg events _ h
  obtain ⟨w', hstep, hp⟩ := (Option.any_eq_true ..).mp hnext
  exact ⟨w, w', hw, hstep, hp⟩

private def seconds (n : ℤ) : Time := n * 10 ^ 9

/-- The defaults, with remediation enabled in the local environment. -/
def defaultConfig (executor : Executor) : Config where
  executor := executor
  engine := Remediation.localEngine
  allowSelf := false
  fold := Char.toLower
  approvalTimeout := seconds 900
  escalateAfter := seconds 300
  outbox := ⟨50, seconds 600, 3, seconds 900, seconds 60⟩
  handlers := Workers.typedHandlers
  maxDeliver := 5
  jobTimeout := "2m0s"
  heliosMaxRuntime := seconds 1800
  submitLostAfter := seconds 120

/-- An action that a typed handler carries out. -/
def podCandidate : Remediation.Candidate where
  actionType := "restart_pod"
  target := "local/web-1"
  risk := "medium"
  parameters := .empty

/-- A proposal of an action, and its approval by somebody else. -/
def approved (c : Remediation.Candidate) : List Event :=
  [.environment (.incident Remediation.localIncident),
    .start (.propose Remediation.localIncident [c] "ops" "operator"),
    .act 0 {}, .act 0 {}, .act 0 {}, .act 0 { fresh := "rem_1" }, .act 0 {},
    .act 0 { fresh := "req_1" }, .act 0 {},
    .start (.decide "req_1" "lead" "approve" "looks safe" "api"), .act 1 {}, .act 1 {}, .act 1 {}]

/-- Its reservation by process 2. -/
def reserved (c : Remediation.Candidate) (dryRun : Bool) : List Event :=
  approved c ++ [.start (.execute "rem_1" dryRun "ops"), .act 2 {}, .act 2 {}, .act 2 {}]

/-- Its execution by a worker. -/
def executed (c : Remediation.Candidate) : List Event :=
  reserved c false ++ [.act 2 {}, .act 2 {}, .act 2 {},
    .start (.handleMessage ⟨some "rem_1", 1⟩), .act 3 {}, .act 3 {}, .act 3 {}, .fork 3,
    .act 4 {}, .act 4 {}, .act 4 {}, .act 3 {}, .act 3 {}]

def approvedPod : List Event := approved podCandidate

def reservedPod (dryRun : Bool) : List Event := reserved podCandidate dryRun

def executedPod : List Event := executed podCandidate

end Argus.System

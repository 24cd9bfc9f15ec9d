import Argus.Incidents.RootFlags

/-!
# Observed and inferred roots

For an incident that existed, the flag `root_inferred` is read before the alerts of the group are
attached: if the group brings the first alert of the root, the flag still says inferred. Where no
alert is on the root of an open incident that has no alert of its root yet (`Heard`), every flag
agrees with the alerts attached up to the end of the delivery.
-/

namespace Argus.Incidents

open Sorting Topology

variable {grouping : Grouping} {graph : Graph} {alerts : List NormalizedAlert} {group : Group}
  {v v' : View}

/-! ## The groups of a delivery -/

section

variable {progress progress' : Progress} {groups : List Group}

theorem GroupedAll.hushed (h : GroupedAll grouping graph alerts groups progress progress' v v')
    (hsound : Sound alerts) (hgroups : ∀ g ∈ groups, g ∈ topologyGroupsByEnvironment graph alerts)
    (hv : Between graph alerts progress.openIncidents v) {id environment service : String}
    (hhushed : Hushed alerts v id environment service) :
    Hushed alerts v' id environment service := by
  induction h with
  | nil => exact hhushed
  | cons hfirst _ ih =>
    obtain ⟨hgroup, hlater⟩ := List.forall_mem_cons.mp hgroups
    cases hfirst with
    | empty _ hprogress hview =>
      subst hprogress hview
      exact ih hlater hv hhushed
    | attached hturn =>
      exact ih hlater (hturn.between hsound hgroup hv).1 (hturn.hushed hsound hgroup hv hhushed)

/-- What the groups of a delivery write: one flag for each group, that of all its signals and
events, and true at the end. -/
structure Told (v v' : View) (progress progress' : Progress) (turns : List (IncidentRow × Bool)) :
    Prop where
  incidents : progress'.incidents = progress.incidents ++ turns.map (·.1)
  inferredRoots : progress'.stats.inferredRoots =
    progress.stats.inferredRoots + turns.countP (·.2)
  observedRoots : progress'.stats.observedRoots =
    progress.stats.observedRoots + turns.countP (!·.2)
  signals : ∃ signals, v'.db.signals = v.db.signals ++ signals ∧ ∀ s ∈ signals, ∃ x ∈ turns,
    s.incidentID = x.1.id ∧ ∃ t, s.body.topology = some t ∧ t.rootService = x.1.service ∧
      t.rootInferred = x.2
  timeline : ∃ events, v'.db.timeline = v.db.timeline ++ events ∧ ∀ e ∈ events,
    e.ofAttachment = true → ∃ x ∈ turns, e.incidentID = x.1.id ∧ ∃ n s sev env t,
      e.evidence = .attached n s sev env t ∧ t.rootService = x.1.service ∧ t.rootInferred = x.2
  flags : ∀ x ∈ turns, x.2 = true ↔ ¬ v'.db.AttachedOn x.1.id x.1.service

theorem GroupedAll.told (h : GroupedAll grouping graph alerts groups progress progress' v v')
    (hsound : Sound alerts) (hgroups : ∀ g ∈ groups, g ∈ topologyGroupsByEnvironment graph alerts)
    (hv : Between graph alerts progress.openIncidents v) :
    Between graph alerts progress'.openIncidents v' ∧
      ∃ turns, Told v v' progress progress' turns := by
  induction h with
  | nil =>
    exact ⟨hv, [], by simp, by simp, by simp, ⟨[], by simp, by simp⟩, ⟨[], by simp, by simp⟩,
      by simp⟩
  | @cons group groups progress progress₁ progress' v v₁ v' hfirst hrest ih =>
    obtain ⟨hgroup, hlater⟩ := List.forall_mem_cons.mp hgroups
    cases hfirst with
    | empty _ hprogress hview =>
      subst hprogress hview
      exact ih hlater hv
    | @attached first rest incident origin f _ _ hturn =>
      obtain ⟨hv₁, ⟨j, hj, hplace⟩, ⟨signals, events, hsignals, htimeline, hwritten⟩, hflag,
        hsilent⟩ := hturn.between hsound hgroup hv
      obtain ⟨hv', turns, htold⟩ := ih hlater hv₁
      obtain ⟨signals', hsignals', hflagged'⟩ := htold.signals
      obtain ⟨events', htimeline', hevents'⟩ := htold.timeline
      refine ⟨hv', (incident, f) :: turns, ?_, ?_, ?_, ⟨signals ++ signals', ?_, fun s hs => ?_⟩,
        ⟨events ++ events', ?_, fun e he hof => ?_⟩, ?_⟩
      · rw [htold.incidents, hturn.incidents, List.append_assoc]
        rfl
      · rw [htold.inferredRoots, hturn.stats, List.countP_cons]
        cases f <;> simp [IngestionStats.countGroup] <;> omega
      · rw [htold.observedRoots, hturn.stats, List.countP_cons]
        cases f <;> simp [IngestionStats.countGroup] <;> omega
      · rw [hsignals', hsignals, List.append_assoc]
      · rcases List.mem_append.mp hs with hs | hs
        · obtain ⟨a, -, hid, -, htopology⟩ := Table.exists_of_forall₂ hwritten.signals hs
          exact ⟨(incident, f), List.mem_cons_self, hid, _, htopology, rfl, rfl⟩
        · obtain ⟨x, hx, hrest⟩ := hflagged' s hs
          exact ⟨x, List.mem_cons_of_mem _ hx, hrest⟩
      · rw [htimeline', htimeline, List.append_assoc]
      · rcases List.mem_append.mp he with he | he
        · obtain ⟨hid, hattached⟩ := hwritten.events e he
          obtain ⟨a, -, hevidence⟩ := hattached hof
          exact ⟨(incident, f), List.mem_cons_self, hid, _, _, _, _, _, hevidence, rfl, rfl⟩
        · obtain ⟨x, hx, hrest⟩ := hevents' e he hof
          exact ⟨x, List.mem_cons_of_mem _ hx, hrest⟩
      · refine List.forall_mem_cons.mpr ⟨?_, htold.flags⟩
        have hsub : ∀ s ∈ v₁.db.signals, s ∈ v'.db.signals := fun s hs =>
          hsignals' ▸ List.mem_append_left _ hs
        constructor
        · intro hf
          obtain ⟨hid, -, hjenv, -⟩ := IncidentRow.place_eq_iff.mp hplace
          have hhushed : Hushed alerts v₁ incident.id incident.environment incident.service := by
            refine ⟨hsilent hf, ⟨j, hj, hid⟩, fun k hk hkid => ?_, hflag.mp hf⟩
            rw [hv₁.rooted.eq_of_id_eq hk hj (hkid.trans hid.symm)]
            exact hjenv
          exact (hrest.hushed hsound hlater hv₁ hhushed).unattached
        · intro hnot
          exact hflag.mpr fun hold => hnot (hold.mono hsub)

end

/-! ## Deliveries and histories -/

/-- No firing alert of the delivery is on the root of an open incident of its environment to which
no alert of its root has been attached. -/
def Event.Heard (db : Db) : Event → Prop
  | delivery payload _ _ _ => ∀ alert ∈ payload.alerts, isResolved payload alert = false →
      ∀ i ∈ db.incidents, i.status.isClosed = false →
        (identityOf payload alert).environment = i.environment →
        (identityOf payload alert).service = i.service → db.AttachedOn i.id i.service
  | transition _ _ _ => True

instance (db : Db) : DecidablePred (Event.Heard db)
  | .delivery payload _ _ _ => inferInstanceAs (Decidable (∀ alert ∈ payload.alerts, _))
  | .transition _ _ _ => inferInstanceAs (Decidable True)

/-- What a store satisfies between deliveries. -/
structure Db.Sourced (db : Db) : Prop where
  rooted : db.Rooted
  backed : db.Backed
  inhabited : db.Inhabited

/-- A delivery reports roots truthfully: the flag of every signal and event it writes for an
attached alert, and the counts of roots in its result, which has one incident for each group. -/
structure RootsTold (db db' : Db) (result : IngestionResult) : Prop where
  signals : ∃ signals, db'.signals = db.signals ++ signals ∧ ∀ s ∈ signals, ∀ t,
    s.body.topology = some t →
      (t.rootInferred = true ↔ ¬ db'.AttachedOn s.incidentID t.rootService)
  timeline : ∃ events, db'.timeline = db.timeline ++ events ∧ ∀ e ∈ events,
    e.ofAttachment = true → ∃ name service severity environment t,
      e.evidence = .attached name service severity environment t ∧
      (t.rootInferred = true ↔ ¬ db'.AttachedOn e.incidentID t.rootService)
  inferredRoots : result.stats.inferredRoots =
    result.incidents.countP fun i => ¬ db'.AttachedOn i.id i.service
  observedRoots : result.stats.observedRoots =
    result.incidents.countP fun i => db'.AttachedOn i.id i.service

/-- The resolved notifications of a delivery. -/
theorem ResolvedAll.signals {resolved : List NormalizedAlert} {stats stats' : IngestionStats}
    {staleAfter : Time} (h : ResolvedAll staleAfter resolved stats stats' v v') :
    (∃ signals, v'.db.signals = v.db.signals ++ signals ∧ ∀ s ∈ signals, s.body.topology = none) ∧
      ∃ events, v'.db.timeline = v.db.timeline ++ events ∧
        ∀ e ∈ events, TimelineEvent.ofAttachment e = false := by
  induction h with
  | nil => exact ⟨⟨[], by simp, by simp⟩, ⟨[], by simp, by simp⟩⟩
  | unmatched hdb _ _ _ ih => rwa [← hdb]
  | @matched alert alerts stats stats' v v₁ v' i _ _ _ hresolved _ ih =>
    obtain ⟨⟨signals, hsignals, hnone⟩, events, htimeline, hevents⟩ := ih
    obtain ⟨signal, hsignal, hsignalNone⟩ : ∃ s, v₁.db.signals = v.db.signals ++ [s] ∧
        s.body.topology = none := by
      obtain ⟨resolvedAt, id, at_, hsignal⟩ := hresolved.signals
      exact ⟨_, hsignal, rfl⟩
    obtain ⟨events₁, htimeline₁, hevents₁⟩ := hresolved.events
    refine ⟨⟨signal :: signals, ?_, List.forall_mem_cons.mpr ⟨hsignalNone, hnone⟩⟩,
      events₁ ++ events, ?_, fun e he => ?_⟩
    · rw [hsignals, hsignal, List.append_assoc, List.singleton_append]
    · rw [htimeline, htimeline₁, List.append_assoc]
    · rcases List.mem_append.mp he with he | he
      · rcases (hevents₁ e he).2 with htype | htype <;> simp [TimelineEvent.ofAttachment, htype]
      · exact hevents e he

/-- The counts of a delivery's groups, by what has been attached at its end. -/
theorem Told.counts {progress progress' : Progress} {turns : List (IncidentRow × Bool)}
    (h : Told v v' progress progress' turns) (hnone : progress.incidents = [])
    (hinferred : progress.stats.inferredRoots = 0) (hobserved : progress.stats.observedRoots = 0) :
    progress'.stats.inferredRoots =
        progress'.incidents.countP (fun i => ¬ v'.db.AttachedOn i.id i.service) ∧
      progress'.stats.observedRoots =
        progress'.incidents.countP (fun i => v'.db.AttachedOn i.id i.service) := by
  rw [h.incidents, hnone, List.nil_append, h.inferredRoots, h.observedRoots, hinferred, hobserved,
    Nat.zero_add, Nat.zero_add, List.countP_map, List.countP_map]
  constructor
  · refine List.countP_congr fun x hx => ?_
    rw [h.flags x hx, Function.comp_apply, decide_eq_true_iff]
  · refine List.countP_congr fun x hx => ?_
    rw [Bool.not_eq_true', ← Bool.not_eq_true, h.flags x hx, not_not, Function.comp_apply,
      decide_eq_true_iff]

/-- A delivery keeps what a store satisfies, and reports roots truthfully. -/
theorem Ingested.rootsTold {payload : Webhook} {actor : String} {oracle : ℕ → Oracle}
    {resolved : List NormalizedAlert} {v₁ v₂ : View} {stats : IngestionStats}
    {result : IngestionResult} (h : Ingested grouping payload v v' result alerts resolved v₁ v₂ stats)
    (hdb : v.db.Sourced) (hfree : payload.ColonFree)
    (hheard : (Event.delivery payload actor v.now oracle).Heard v.db) :
    v'.db.Sourced ∧ RootsTold v.db v'.db result := by
  obtain ⟨hrooted', -⟩ := h.rooted hfree hdb.rooted
  obtain ⟨hsound, hsoundResolved, hrooted₁, hrooted₂, -, hrest⟩ := h.parts hfree hdb.rooted
  obtain ⟨hsplit, hsame, hresolved, -⟩ := h
  have hbacked₁ : v₁.db.Backed := hsame.backed hdb.backed
  obtain ⟨hbacked₂, hunmoved, hinferred, hobserved⟩ :=
    hresolved.backed hsoundResolved hrooted₁ hbacked₁
  obtain ⟨⟨notices, hnotices, hnone⟩, quiet, hquiet, hquietEvents⟩ := hresolved.signals
  -- rows that the resolved notifications leave where they were, with their status
  have hrow₂ : ∀ i ∈ v₂.db.incidents, ∃ j ∈ v.db.incidents, j.place = i.place ∧
      j.status = i.status := by
    intro i hi
    have hmem := List.mem_map_of_mem (f := fun i => (i.place, i.status)) hi
    rw [hunmoved.places, hsame.incidents] at hmem
    obtain ⟨j, hj, heq⟩ := List.mem_map.mp hmem
    exact ⟨j, hj, (Prod.mk.inj heq).1, (Prod.mk.inj heq).2⟩
  have hsub₂ : ∀ s ∈ v.db.signals, s ∈ v₂.db.signals := fun s hs =>
    hunmoved.signals s (hsame.signals.symm ▸ hs)
  have hinhabited₂ : v₂.db.Inhabited := by
    intro i hi
    obtain ⟨j, hj, hplace, -⟩ := hrow₂ i hi
    obtain ⟨s, hs, hsid⟩ := hdb.inhabited j hj
    exact ⟨s, hsub₂ s hs, hsid.trans (IncidentRow.place_eq_iff.mp hplace).1⟩
  rw [hsame.signals] at hnotices
  rw [hsame.timeline] at hquiet
  rcases hrest with ⟨rfl, rfl⟩ |
    ⟨openIncidents, v₃, progress, hsame₃, hopen, hrooted₃, hcurrent, hgroups, rfl⟩
  · refine ⟨⟨hrooted', hbacked₂, hinhabited₂⟩, ⟨notices, hnotices, fun s hs t ht => ?_⟩,
      ⟨quiet, hquiet, fun e he hof => ?_⟩, hinferred, hobserved⟩
    · rw [hnone s hs] at ht
      cases ht
    · rw [hquietEvents e he] at hof
      cases hof
  · have hbetween : Between (Graph.new v.db.dependencies) alerts openIncidents v₃ := by
      refine ⟨hrooted₃, hcurrent, fun o ho => ?_, hsame₃.backed hbacked₂, ?_,
        fun i hi hiopen hnot a ha henv heq => ?_⟩
      · obtain ⟨hmem, hactive⟩ := List.mem_filter.mp (hopen.mem_iff.mp ho)
        exact ⟨o, hsame₃.incidents ▸ hmem, rfl, (Db.active_iff.mp hactive).1⟩
      · intro i hi
        rw [hsame₃.signals]
        exact hinhabited₂ i (hsame₃.incidents ▸ hi)
      · -- an alert on the root of an open incident that has none yet
        obtain ⟨j, hj, hplace, hstatus⟩ := hrow₂ i (hsame₃.incidents ▸ hi)
        obtain ⟨hjid, hjservice, hjenv, -⟩ := IncidentRow.place_eq_iff.mp hplace
        obtain ⟨alert, halert, hfiring, -, hservice, halertEnv⟩ := hsplit.exists_identity ha
        have hold := hheard alert halert hfiring j hj (hstatus ▸ hiopen)
          (halertEnv.symm.trans (henv.trans hjenv.symm))
          (hservice.symm.trans (heq.trans hjservice.symm))
        rw [hjid, hjservice] at hold
        exact hnot (hold.mono fun s hs => hsame₃.signals.symm ▸ hsub₂ s hs)
    obtain ⟨hbetween', turns, htold⟩ := hgroups.told hsound (fun _ hg => hg) hbetween
    obtain ⟨signals, hsignals, hflagged⟩ := htold.signals
    obtain ⟨events, htimeline, hevents⟩ := htold.timeline
    obtain ⟨hcountInferred, hcountObserved⟩ := htold.counts rfl hinferred hobserved
    refine ⟨⟨hrooted', hbetween'.backed, hbetween'.inhabited⟩,
      ⟨notices ++ signals, ?_, fun s hs t ht => ?_⟩, ⟨quiet ++ events, ?_, fun e he hof => ?_⟩,
      hcountInferred, hcountObserved⟩
    · rw [hsignals, hsame₃.signals, hnotices, List.append_assoc]
    · rcases List.mem_append.mp hs with hs | hs
      · rw [hnone s hs] at ht
        cases ht
      · obtain ⟨x, hx, hid, t', ht', hservice, hflag⟩ := hflagged s hs
        obtain rfl := Option.some.inj (ht.symm.trans ht')
        rw [hflag, hid, hservice]
        exact htold.flags x hx
    · rw [htimeline, hsame₃.timeline, hquiet, List.append_assoc]
    · rcases List.mem_append.mp he with he | he
      · rw [hquietEvents e he] at hof
        cases hof
      · obtain ⟨x, hx, hid, n, service, severity, environment, t, hevidence, hservice, hflag⟩ :=
          hevents e he hof
        refine ⟨n, service, severity, environment, t, hevidence, ?_⟩
        rw [hflag, hid, hservice]
        exact htold.flags x hx

theorem Db.Sourced.transitionIncident {db : Db} (h : db.Sourced) (now : Time) (id : String)
    (status : Status) : (db.transitionIncident now id status).Sourced := by
  refine ⟨h.rooted.of_places (place_transitionIncident ..), ?_, fun i hi => ?_⟩
  · exact h.backed.extend (List.append_nil _).symm (by simp) fun a ha => .inl ⟨a, ha, rfl, rfl⟩
  · obtain ⟨j, hj, ⟨rfl, -⟩ | ⟨rfl, -⟩⟩ := Table.mem_updateIf hi
    · exact h.inhabited _ hj
    · exact h.inhabited j hj

theorem Db.Sourced.step {db : Db} {e : Event} (h : db.Sourced) (hfree : e.ColonFree)
    (hheard : e.Heard db) : (db.step grouping e).Sourced := by
  cases e with
  | delivery payload actor now oracle =>
    change ((db.deliver grouping payload actor now oracle).2).Sourced
    unfold Db.deliver
    split
    · exact h
    · rename_i hok
      obtain ⟨v', rfl, _, _, _, _, _, hdone⟩ := ingested_of_ingestAlertmanager hok
      exact (hdone.rootsTold h hfree hheard).1
  | transition id status now => exact h.transitionIncident now id status

theorem Db.Sourced.run (grouping : Grouping) {events : List Event} {db : Db} (h : db.Sourced)
    (hfree : ∀ e ∈ events, e.ColonFree) (hheard : db.AtEach grouping Event.Heard events) :
    (db.run grouping events).Sourced := by
  induction events using List.reverseRecOn with
  | nil => exact h
  | append_singleton events e ih =>
    have hbefore := ih (fun d hd => hfree d (List.mem_append_left _ hd)) hheard.of_append
    rw [Db.run, List.foldl_append]
    exact hbefore.step (hfree e (List.mem_append_right _ List.mem_cons_self))
      (hheard events e [] rfl)

theorem Db.Untouched.sourced {db : Db} (h : db.Untouched) : db.Sourced := by
  refine ⟨h.rooted, ⟨?_, ?_, ?_⟩, ?_⟩
  · rw [h.signals]
    simp
  · rw [h.signals]
    simp
  · rw [h.alerts]
    simp
  · unfold Db.Inhabited
    rw [h.incidents]
    simp

/-- **Observed and inferred roots are reported truthfully.** In every history without colons, in
which no firing alert is on the root of an open incident that has no alert of its root yet, every
delivery that commits reports roots truthfully: inferred where no alert of the root has been
attached to the incident up to its end. -/
theorem rootInferred_truthful (grouping : Grouping) {db₀ : Db} (h : db₀.Untouched)
    (events : List Event) (hfree : ∀ e ∈ events, e.ColonFree)
    (hheard : db₀.AtEach grouping Event.Heard events) :
    ∀ done payload actor now oracle rest,
      events = done ++ .delivery payload actor now oracle :: rest →
      ∀ result db', ingestAlertmanager grouping payload actor now oracle (db₀.run grouping done) =
        .ok (result, db') →
      RootsTold (db₀.run grouping done) db' result := by
  rintro done payload actor now oracle rest rfl result db' hok
  have hbefore : (db₀.run grouping done).Sourced :=
    h.sourced.run grouping (fun e he => hfree e (List.mem_append_left _ he)) hheard.of_append
  obtain ⟨v', rfl, _, _, _, _, _, hdone⟩ := ingested_of_ingestAlertmanager hok
  exact (hdone.rootsTold hbefore (hfree _ (List.mem_append_right _ List.mem_cons_self))
    (hheard done _ rest rfl)).2

/-- Two services that depend on a third. -/
private def sharedDependencies : List Dependency :=
  [⟨"checkout-api", "payments-db"⟩, ⟨"orders-api", "payments-db"⟩]

/-- Alerts of the services that share a dependency. -/
private def sharedAlerts : List Alert :=
  [plainAlert "firing" "checkout-api" "Slow" "prod" "f1",
    plainAlert "firing" "orders-api" "Slow" "prod" "f2"]

/-- The second delivery attaches another alert behind the inferred root, and says so. -/
theorem rootInferred_truthful_again :
    let db := (emptyDb sharedDependencies).run ⟨100, 100⟩ [plainDelivery 1 "a" sharedAlerts]
    let delivered := ingestAlertmanager ⟨100, 100⟩
      ⟨0, "", [], [], [plainAlert "firing" "orders-api" "Down" "prod" "f3"]⟩ "alertmanager" 2
      (fun n => { fresh := "b" ++ toString n }) db
    ∃ result db', delivered = .ok (result, db') ∧ result.stats.inferredRoots = 1 ∧
      RootsTold db db' result := by
  intro db delivered
  have hroots : delivered.toOption.map (·.1.stats.inferredRoots) = some 1 := by decide +kernel
  cases hok : delivered with
  | error e =>
    rw [hok] at hroots
    cases hroots
  | ok r =>
    rw [hok] at hroots
    refine ⟨r.1, r.2, rfl, Option.some.inj hroots, ?_⟩
    refine rootInferred_truthful ⟨100, 100⟩ (show (emptyDb sharedDependencies).Untouched from ⟨rfl, rfl, rfl⟩)
      [plainDelivery 1 "a" sharedAlerts,
        plainDelivery 2 "b" [plainAlert "firing" "orders-api" "Down" "prod" "f3"]]
      (by decide +kernel) (.cons ?_ (.cons ?_ Db.atEach_nil)) [plainDelivery 1 "a" sharedAlerts]
      _ _ _ _ [] rfl r.1 r.2 hok
    · decide +kernel
    · decide +kernel

/-- An incident with an inferred root gets the first alert of its root, and the flag still says
inferred. -/
theorem rootInferred_of_observed :
    let db := (emptyDb sharedDependencies).run ⟨100, 100⟩ [plainDelivery 1 "a" sharedAlerts,
      plainDelivery 2 "b" [plainAlert "firing" "payments-db" "Down" "prod" "f3"]]
    (db.incidents.map fun i => (i.id, i.service)) = [("a12", "payments-db")] ∧
      db.AttachedOn "a12" "payments-db" ∧
      (db.signals.map fun s => (s.incidentID, s.service, s.body.topology.map (·.rootInferred))) =
        [("a12", "checkout-api", some true), ("a12", "orders-api", some true),
          ("a12", "payments-db", some true)] ∧
      ((emptyDb sharedDependencies).run ⟨100, 100⟩ [plainDelivery 1 "a" sharedAlerts]).signals.length =
        2 := by
  decide +kernel

end Argus.Incidents

import Argus.System.Runs

/-!
# The audit trail

What the entries of a transaction say about statuses, against what the transaction did. Every change of a
status is recorded, apart from the worker's claim. The converse fails where a call writes an entry beside a
conditional update and does not look whether it applied, or assumes where it started from: the release of a
reservation and the outcome of a synchronous executor both say that the remediation was queued. Where it
was, every entry tells the truth.
-/

namespace Argus.System

open Remediation (Time RemediationAction Status Write)

/-! ## Entries and statuses -/

/-- An entry about a remediation. -/
def AuditEntry.IsAbout (e : AuditEntry) (id : String) : Prop :=
  e.resourceType = "remediation" ∧ e.resourceID = id

/-- A remediation moves from one status to another in a transaction: from the tables it found to the ones
it committed, or between two of its updates. -/
inductive MovedWithin (db db' : Db) (id : String) (source target : Status) : Prop
  | whole (h : db.statusOf id = some source) (h' : db'.statusOf id = some target)
  | between {now : Time} {before after : List Db.Update} {u : Db.Update} {db₁ db₂ : Db}
      (hcommit : db.applyAll now (before ++ u :: after) = .ok db')
      (hbefore : db.applyAll now before = .ok db₁) (hone : db₁.applyOne now u = .ok db₂)
      (h : db₁.statusOf id = some source) (h' : db₂.statusOf id = some target)

/-- Every change of a status has an entry. -/
structure Accounted (db db' : Db) (entries : List AuditEntry) : Prop where
  audit : db'.audit = db.audit ++ entries
  recorded : ∀ id status, db'.statusOf id = some status → db.statusOf id ≠ some status →
    ∃ e ∈ entries, e.IsAbout id ∧ e.after = some status.name

/-- Every entry that names two statuses names a move. -/
def Truthful (db db' : Db) (entries : List AuditEntry) : Prop :=
  ∀ e ∈ entries, ∀ id, e.IsAbout id → ∀ before after, e.before = some before →
    e.after = some after → before ≠ after → ∃ source target : Status,
      before = source.name ∧ after = target.name ∧ MovedWithin db db' id source target

theorem isAbout_remediationEntry (actorID actorType action id : String)
    (before after : Option Status) :
    (remediationEntry actorID actorType action id before after).IsAbout id := ⟨rfl, rfl⟩

variable {e : AuditEntry} {db' : Db} {xs : List Stuck} {target : Status}
  {action actorID actorType : String} {x : Stuck} {now : Time}

namespace Db

variable {db db' : Db} {now : Time} {id : String} {w : Write} {entries : List AuditEntry}

/-- Where no status changes and no entry is about a remediation. -/
theorem accounted_of_same (hrows : db'.remediations = db.remediations)
    (haudit : db'.audit = db.audit ++ entries) : Accounted db db' entries :=
  ⟨haudit, fun id _ h hne => absurd ((statusOf_congr hrows id).symm.trans h) hne⟩

theorem truthful_of_others (h : ∀ e ∈ entries, e.resourceType ≠ "remediation") :
    Truthful db db' entries :=
  fun e he _ habout => absurd habout.1 (h e he)

/-- An update and its entry. -/
theorem accounted_of_write
    (hrows : db'.remediations = (db.write now id w).remediations)
    (haudit : db'.audit = db.audit ++ entries)
    (hentry : ∃ e ∈ entries, e.IsAbout id ∧ e.after = some w.status.name) :
    Accounted db db' entries := by
  refine ⟨haudit, fun id' status h hne => ?_⟩
  rw [statusOf_congr hrows, statusOf_write] at h
  obtain ⟨status₀, hstatus₀, heq⟩ := Option.map_eq_some_iff.mp h
  split at heq
  · rename_i hmatch
    obtain rfl := heq
    obtain ⟨rfl, -⟩ := hmatch
    exact hentry
  · exact absurd (heq ▸ hstatus₀) hne

/-- An entry after an update that applied. -/
theorem movedWithin_of_write
    (hrows : db'.remediations = (db.write now id w).remediations)
    {source : Status} (hsource : db.statusOf id = some source) (hguard : w.guard source = true) :
    MovedWithin db db' id source w.status := by
  refine .whole hsource ?_
  rw [statusOf_congr hrows]
  exact statusOf_write_self hsource hguard now

/-- One entry about a remediation that moved. -/
theorem truthful_singleton {source : Status} (h : MovedWithin db db' id source target) :
    Truthful db db'
      [remediationEntry actorID actorType action id (some source) (some target)] := by
  intro e he id' habout before after hbefore hafter _
  obtain rfl := List.mem_singleton.mp he
  obtain rfl : id = id' := habout.2
  exact ⟨source, target, (Option.some.inj hbefore).symm, (Option.some.inj hafter).symm, h⟩

/-- Entries about something else do not matter. -/
theorem truthful_cons (h : Truthful db db' entries) (he : e.resourceType ≠ "remediation") :
    Truthful db db' (e :: entries) := by
  intro e' he' id habout
  rcases List.mem_cons.mp he' with rfl | he'
  · exact absurd habout.1 he
  · exact h e' he' id habout

/-- One entry that names no earlier status, or the same one twice. -/
theorem truthful_singleton_of_eq {source : Option Status} (h : source = none ∨ source = some target) :
    Truthful db db' [remediationEntry actorID actorType action id source (some target)] := by
  intro e he _ _ before after hbefore hafter hne
  obtain rfl := List.mem_singleton.mp he
  rcases h with rfl | rfl
  · cases hbefore
  · exact absurd ((Option.some.inj hbefore).symm.trans (Option.some.inj hafter)) hne

/-! ### Many updates -/

/-- Every update of a commit moves its row as it says. -/
theorem exists_between {before after : List Db.Update} {u : Db.Update}
    (hconsistent : Consistent db.statusOf (before ++ u :: after))
    (h : db.applyAll now (before ++ u :: after) = .ok db') :
    ∃ db₁ db₂, db.applyAll now before = .ok db₁ ∧ db₁.applyOne now u = .ok db₂ ∧
      db₁.statusOf u.id = some u.source ∧ db₂.statusOf u.id = some u.target := by
  induction before generalizing db with
  | nil =>
    obtain ⟨htruthful, hsource, -⟩ := hconsistent
    obtain ⟨db₁, hone, -⟩ := foldlM_cons_eq_ok h
    refine ⟨db, db₁, rfl, hone, hsource, ?_⟩
    rw [statusOf_applyOne hone htruthful hsource, Function.update_self]
  | cons v before ih =>
    obtain ⟨htruthful, hsource, hrest⟩ := hconsistent
    obtain ⟨db₀, hone, hall⟩ := foldlM_cons_eq_ok h
    obtain ⟨db₁, db₂, hbefore, hu⟩ :=
      ih (statusOf_applyOne hone htruthful hsource ▸ hrest) hall
    refine ⟨db₁, db₂, ?_, hu⟩
    rw [applyAll, List.foldlM_cons, hone]
    exact hbefore

variable {updates : List Db.Update}

theorem truthful_applyAll (hconsistent : Consistent db.statusOf updates)
    (h : db.applyAll now updates = .ok db') : Truthful db db' (updates.map Update.entry) := by
  intro e he id habout before after hbefore hafter _
  obtain ⟨u, hu, rfl⟩ := List.mem_map.mp he
  obtain ⟨updates₁, updates₂, rfl⟩ := List.append_of_mem hu
  obtain ⟨db₁, db₂, hall, hone, hsource, htarget⟩ := exists_between hconsistent h
  obtain rfl : u.id = id := habout.2
  exact ⟨u.source, u.target, (Option.some.inj hbefore).symm, (Option.some.inj hafter).symm,
    .between h hall hone hsource htarget⟩

/-- A commit writes one entry for each update. -/
theorem audit_applyAll (h : db.applyAll now updates = .ok db') :
    db'.audit = db.audit ++ updates.map Update.entry := by
  induction updates generalizing db with
  | nil =>
    obtain rfl : db = db' := Except.ok.inj h
    simp
  | cons u updates ih =>
    obtain ⟨db₁, hone, hall⟩ := foldlM_cons_eq_ok h
    rw [ih hall, applyOne_eq hone, record, (sameOthers_writeAll db now u.id u.writes).2]
    simp

theorem accounted_applyAll (hconsistent : Consistent db.statusOf updates)
    (h : db.applyAll now updates = .ok db') : Accounted db db' (updates.map Update.entry) := by
  refine ⟨audit_applyAll h, fun id status h' hne => ?_⟩
  induction updates generalizing db with
  | nil =>
    obtain rfl : db = db' := Except.ok.inj h
    exact absurd h' hne
  | cons u updates ih =>
    obtain ⟨htruthful, hsource, hrest⟩ := hconsistent
    obtain ⟨db₁, hone, hall⟩ := foldlM_cons_eq_ok h
    have hstatuses := statusOf_applyOne hone htruthful hsource
    by_cases hlater : db₁.statusOf id = some status
    · -- the first update made the change
      rw [hstatuses] at hlater
      by_cases hid : id = u.id
      · subst hid
        rw [Function.update_self] at hlater
        obtain rfl := Option.some.inj hlater
        exact ⟨u.entry, List.mem_cons_self, ⟨rfl, rfl⟩, rfl⟩
      · rw [Function.update_of_ne hid] at hlater
        exact absurd hlater hne
    · obtain ⟨e, he, hentry⟩ := ih (hstatuses ▸ hrest) hall hlater
      exact ⟨e, List.mem_cons_of_mem _ he, hentry⟩

/-! ### The dispatcher's reconciler -/

/-- What the reconciler did with some stuck remediations, and wrote about them. -/
structure Swept (xs : List Stuck) (db db' : Db) (entries : List AuditEntry) : Prop where
  accounted : Accounted db db' entries
  others : ∀ id, id ∉ xs.map Stuck.id → db'.statusOf id = db.statusOf id
  about : ∀ e ∈ entries, e.resourceID ∈ xs.map Stuck.id
  moved : ∀ e ∈ entries, ∀ before after, e.before = some before → e.after = some after →
    before ≠ after → ∃ source target : Status, before = source.name ∧ after = target.name ∧
      db.statusOf e.resourceID = some source ∧ db'.statusOf e.resourceID = some target

variable {cfg : Outbox.Config} {fresh : String}

theorem swept_one (h : Reconciles cfg now fresh x db db')
    (hstatus : db.statusOf x.id = some x.status) (hdispatchable : x.status.isDispatchable = true) :
    ∃ entries, Swept [x] db db' entries := by
  cases h with
  | none =>
    exact ⟨[], accounted_of_same rfl (by simp), fun _ _ => rfl, by simp, by simp⟩
  | @exhausted reason _ _ haffects =>
    have hafter := statusOf_write_self (w := .complete .timedOut (.reason reason) reason) hstatus
      hdispatchable now
    refine ⟨[_], accounted_of_write rfl rfl ⟨_, List.mem_singleton_self _,
      isAbout_remediationEntry .., rfl⟩, fun id hid => ?_, fun e he => ?_, fun e he => ?_⟩
    · exact statusOf_write_ne (by simpa using hid) db now _
    · rw [List.mem_singleton.mp he]
      exact List.mem_singleton_self _
    · rintro before after hbefore hafter' -
      obtain rfl := List.mem_singleton.mp he
      exact ⟨x.status, .timedOut, (Option.some.inj hbefore).symm, (Option.some.inj hafter').symm,
        hstatus, hafter⟩
  | redispatched _ _ h =>
    obtain ⟨r, -, -, -, -, -, rfl⟩ := redispatch_eq_ok h
    refine ⟨[_], accounted_of_same rfl rfl, fun _ _ => rfl, fun e he => ?_, fun e he => ?_⟩
    · rw [List.mem_singleton.mp he]
      exact List.mem_singleton_self _
    · rintro before after hbefore hafter hne
      obtain rfl := List.mem_singleton.mp he
      exact absurd ((Option.some.inj hbefore).symm.trans (Option.some.inj hafter)) hne

/-- Different remediations do not get into each other's way. -/
theorem Swept.cons {db₁ : Db} {entries₁ : List AuditEntry} (h : Swept [x] db db₁ entries₁)
    (hrest : Swept xs db₁ db' entries) (hx : x.id ∉ xs.map Stuck.id) :
    Swept (x :: xs) db db' (entries₁ ++ entries) := by
  have hfirst (id : String) (hid : id ∈ xs.map Stuck.id) : db₁.statusOf id = db.statusOf id := by
    refine h.others id ?_
    rw [List.map_singleton, List.mem_singleton]
    rintro rfl
    exact hx hid
  have hlast : db'.statusOf x.id = db₁.statusOf x.id := hrest.others x.id hx
  have habout₁ (e : AuditEntry) (he : e ∈ entries₁) : e.resourceID = x.id := by
    simpa using h.about e he
  refine ⟨⟨?_, fun id status h' hne => ?_⟩, fun id hid => ?_, fun e he => ?_, fun e he => ?_⟩
  · rw [hrest.accounted.audit, h.accounted.audit, List.append_assoc]
  · by_cases hlater : db₁.statusOf id = some status
    · obtain ⟨e, he, hentry⟩ := h.accounted.recorded id status hlater hne
      exact ⟨e, List.mem_append_left _ he, hentry⟩
    · obtain ⟨e, he, hentry⟩ := hrest.accounted.recorded id status h' hlater
      exact ⟨e, List.mem_append_right _ he, hentry⟩
  · rw [List.map_cons, List.mem_cons, not_or] at hid
    rw [hrest.others id hid.2]
    exact h.others id (by simpa using hid.1)
  · rcases List.mem_append.mp he with he | he
    · rw [habout₁ e he]
      exact List.mem_cons_self
    · exact List.mem_cons_of_mem _ (hrest.about e he)
  · intro before after hbefore hafter hne
    rcases List.mem_append.mp he with he | he
    · obtain ⟨source, target, hs, ht, hsource, htarget⟩ := h.moved e he _ _ hbefore hafter hne
      rw [habout₁ e he] at hsource htarget ⊢
      exact ⟨source, target, hs, ht, hsource, hlast.trans htarget⟩
    · obtain ⟨source, target, hs, ht, hsource, htarget⟩ := hrest.moved e he _ _ hbefore hafter hne
      exact ⟨source, target, hs, ht, (hfirst _ (hrest.about e he)).symm.trans hsource, htarget⟩

theorem swept_foldlM {acc acc' : Bool × Db} (hnodup : (xs.map Stuck.id).Nodup)
    (hstatus : ∀ x ∈ xs, acc.2.statusOf x.id = some x.status ∧ x.status.isDispatchable = true)
    (h : xs.foldlM (reconcileOne cfg now fresh) acc = .ok acc') :
    ∃ entries, Swept xs acc.2 acc'.2 entries := by
  induction xs generalizing acc with
  | nil =>
    obtain rfl : acc = acc' := Except.ok.inj h
    exact ⟨[], accounted_of_same rfl (by simp), fun _ _ => rfl, by simp, by simp⟩
  | cons x xs ih =>
    obtain ⟨acc₁, hone, hall⟩ := foldlM_cons_eq_ok h
    obtain ⟨hx, hxs⟩ := List.nodup_cons.mp hnodup
    obtain ⟨hx₀, hdispatchable⟩ := hstatus x List.mem_cons_self
    obtain ⟨entries₁, hfirst⟩ := swept_one (reconciles_of_reconcileOne hone) hx₀ hdispatchable
    have hnext (y : Stuck) (hy : y ∈ xs) :
        acc₁.2.statusOf y.id = some y.status ∧ y.status.isDispatchable = true := by
      obtain ⟨hy₀, hydispatchable⟩ := hstatus y (List.mem_cons_of_mem _ hy)
      refine ⟨(hfirst.others y.id ?_).trans hy₀, hydispatchable⟩
      rw [List.map_singleton, List.mem_singleton]
      intro heq
      exact hx (heq ▸ List.mem_map_of_mem hy)
    obtain ⟨entries, hrest⟩ := ih hxs hnext hall
    exact ⟨_, hfirst.cons hrest hx⟩

theorem audited_reconcile {held : List String} {redispatched : Bool}
    (hids : db.Distinct)
    (h : db.reconcile cfg now fresh held = .ok (redispatched, db')) :
    ∃ entries, Accounted db db' entries ∧ Truthful db db' entries := by
  have hstuck (x : Stuck) (hx : x ∈ db.stuck cfg now held) :
      db.statusOf x.id = some x.status ∧ x.status.isDispatchable = true := by
    obtain ⟨r, hr, hstuck, -, rfl⟩ := exists_of_mem_stuck hx
    exact ⟨statusOf_of_mem hids hr, Outbox.isDispatchable_of_isStuck hstuck⟩
  obtain ⟨entries, hswept⟩ := swept_foldlM (nodup_stuck hids cfg now held) hstuck h
  refine ⟨entries, hswept.accounted, fun e he id habout before after hbefore hafter hne => ?_⟩
  obtain ⟨source, target, hs, ht, hsource, htarget⟩ :=
    hswept.moved e he before after hbefore hafter hne
  rw [habout.2] at hsource htarget
  exact ⟨source, target, hs, ht, .whole hsource htarget⟩

end Db

/-! ## Steps -/

variable {cfg : Config} {d : Discipline} {i : ℕ} {l : Label} {o : Oracle} {s s' : Shared}

/-- A call that releases a reservation or records its outcome finds the remediation queued. -/
def FindsQueued (l : Label) (s : Shared) : Prop :=
  ∀ id, l = .release id ∨ l = .outcome id → s.db.statusOf id = some .queued

theorem Db.Outcome.truthful (outcome : Db.Outcome) (id actor : String) :
    (outcome.update id actor).Truthful := by
  cases outcome <;> rfl

theorem Db.Outcome.id (outcome : Db.Outcome) (id actor : String) :
    (outcome.update id actor).id = id := by
  cases outcome <;> rfl

theorem Db.Outcome.source (outcome : Db.Outcome) (id actor : String) :
    (outcome.update id actor).source = .queued := by
  cases outcome <;> rfl

variable {db : Db} {id : String}

/-- An outcome leads to its status wherever it applies. -/
theorem Db.statusOf_outcome {actor : String} {outcome : Db.Outcome}
    (h : db.applyOne now (outcome.update id actor) = .ok db') (id' : String) :
    db'.statusOf id' = db.statusOf id' ∨
      id' = id ∧ db'.statusOf id' = some (outcome.update id actor).target := by
  obtain rfl := Db.applyOne_eq h
  cases hstatus : db.statusOf id' with
  | none =>
    left
    cases outcome with
    | running result =>
      exact (Db.statusOf_write db now id id' (.markRunning result)).trans (by rw [hstatus]; rfl)
    | succeeded result =>
      refine (Db.statusOf_write _ now id id' (.complete .succeeded result "")).trans ?_
      rw [Db.statusOf_write, hstatus]
      rfl
  | some status =>
    cases outcome with
    | running result =>
      obtain ⟨status', h', rfl | ⟨rfl, -, rfl⟩⟩ :=
        Db.exists_statusOf_write hstatus now id (.markRunning result)
      · exact .inl h'
      · exact .inr ⟨rfl, h'⟩
    | succeeded result =>
      obtain ⟨status₁, h₁, hclaim⟩ := Db.exists_statusOf_write hstatus now id .claim
      obtain ⟨status₂, h₂, hcomplete⟩ :=
        Db.exists_statusOf_write h₁ now id (.complete .succeeded result "")
      rcases hcomplete with rfl | ⟨rfl, -, rfl⟩
      · rcases hclaim with rfl | ⟨rfl, -, rfl⟩
        · exact .inl h₂
        · -- a claimed row is completed
          have hdone := Db.statusOf_write_self (w := .complete .succeeded result "") h₁ rfl now
          cases h₂.symm.trans hdone
      · exact .inr ⟨rfl, h₂⟩

/-- The entry after an update that leads from one status. -/
theorem audited_write {w : Write} {source : Status} (hsource : db.statusOf id = some source)
    (hguard : w.guard source = true) :
    ∃ entries, Accounted db ((db.write now id w).record (remediationEntry actorID actorType action
        id (some source) (some w.status))) entries ∧
      Truthful db ((db.write now id w).record (remediationEntry actorID actorType action id
        (some source) (some w.status))) entries :=
  ⟨_, Db.accounted_of_write rfl rfl ⟨_, List.mem_singleton_self _, isAbout_remediationEntry .., rfl⟩,
    Db.truthful_singleton (Db.movedWithin_of_write (by rfl) hsource hguard)⟩

/-- What the entries of a step say about statuses. -/
def Audited (l : Label) (s s' : Shared) : Prop :=
  ∃ entries, Accounted s.db s'.db entries ∧ (FindsQueued l s → Truthful s.db s'.db entries)

theorem audited_of_db_eq (h : s'.db = s.db) : Audited l s s' :=
  ⟨[], Db.accounted_of_same (by rw [h]) (by simp [h]), fun _ _ he => by cases he⟩

/-- Every step but the worker's claim tells what it does. -/
theorem Step.audited (h : Step cfg d i l o s s') (hinv : Invariant cfg d s) :
    Audited l s s' ∨
      l = .claim ∧ ∃ id, s' = s.withDb (s.db.write o.now id .claim) := by
  cases h with
  | quiet h _ =>
    obtain ⟨entries, haudit, hothers⟩ := h.audit
    exact .inl ⟨entries, Db.accounted_of_same h.remediations haudit,
      fun _ => Db.truthful_of_others hothers⟩
  | insert h _ =>
    obtain ⟨rows, hins, rfl⟩ := Db.insertRemediation_eq_ok h
    refine .inl ⟨[_], ⟨rfl, fun id status h' hne => ?_⟩,
      fun _ => Db.truthful_singleton_of_eq (.inl rfl)⟩
    obtain ⟨r, hr, rfl, rfl⟩ := Db.exists_of_statusOf h'
    rw [show (s.withDb _).db.remediations = rows from rfl, hins.eq, List.mem_append,
      List.mem_singleton] at hr
    rcases hr with hr | rfl
    · exact absurd (Db.statusOf_of_mem hinv.ids hr) hne
    · exact ⟨_, List.mem_singleton_self _, isAbout_remediationEntry .., rfl⟩
  | settle h =>
    obtain ⟨now, q, aw, w, hq, hpending, hsettles, hentry⟩ := h
    -- the row of a pending request awaits approval
    obtain ⟨r, hr, hcoupled, hawaiting⟩ := hinv.tables.coupling.awaiting_of_pending hq hpending
    have hstatus := Db.statusOf_of_mem hinv.ids hr
    rw [hcoupled.columns.remediationID, hawaiting] at hstatus
    refine .inl ⟨[_, _], Db.accounted_of_write (w := w) rfl (List.append_assoc ..) ⟨_,
      List.mem_cons_of_mem _ (List.mem_singleton_self _), isAbout_remediationEntry .., rfl⟩,
      fun _ => Db.truthful_cons (Db.truthful_singleton ?_) hentry⟩
    exact Db.movedWithin_of_write (by rfl) hstatus ((hsettles.guard_iff _).mpr rfl)
  | @cancel _ _ id actor expected _ _ _ haffects _ =>
    obtain ⟨status, hstatus, hguard⟩ := Db.exists_statusOf_of_affects hinv.ids haffects
    obtain rfl : status = expected := by simpa [Write.guard] using hguard
    obtain ⟨entries, haccounted, htruthful⟩ := audited_write hstatus hguard
    exact .inl ⟨entries, haccounted, fun _ => htruthful⟩
  | @reserve _ _ remediation dryRun actor dispatchID db h happroved _ _ =>
    obtain ⟨haffects, dispatches, -, rfl⟩ := Db.reserve_eq_ok h
    obtain ⟨status, hstatus, hguard⟩ := Db.exists_statusOf_of_affects hinv.ids haffects
    obtain rfl : status = .approved := by simpa [Write.guard] using hguard
    rw [happroved]
    refine .inl ⟨[_], Db.accounted_of_write (w := .markQueued dryRun) rfl rfl ⟨_,
      List.mem_singleton_self _, isAbout_remediationEntry .., rfl⟩, fun _ =>
      Db.truthful_singleton ?_⟩
    exact Db.movedWithin_of_write (w := .markQueued dryRun) (by rfl) hstatus hguard
  | replay h =>
    obtain ⟨r, -, -, -, -, -, rfl⟩ := Db.redispatch_eq_ok h
    exact .inl ⟨[_], Db.accounted_of_same rfl rfl, fun _ => Db.truthful_singleton_of_eq (.inr rfl)⟩
  | reconcile _ h =>
    obtain ⟨entries, haccounted, htruthful⟩ := Db.audited_reconcile hinv.ids h
    exact .inl ⟨entries, haccounted, fun _ => htruthful⟩
  | @release _ _ id actor _ _ _ _ =>
    refine .inl ⟨[_], Db.accounted_of_write rfl rfl ⟨_, List.mem_singleton_self _,
      isAbout_remediationEntry .., rfl⟩, fun hqueued => Db.truthful_singleton ?_⟩
    exact Db.movedWithin_of_write (w := .release) (by rfl) (hqueued id (.inl rfl)) rfl
  | @outcome _ _ id actor outcome db _ _ _ _ h =>
    refine .inl ⟨[(outcome.update id actor).entry], ⟨?_, fun id' status h' hne => ?_⟩,
      fun hqueued => ?_⟩
    · rw [Db.applyOne_eq h]
      exact congrArg (· ++ [_]) (Db.sameOthers_writeAll s.db o.now _ _).2
    · rcases Db.statusOf_outcome h id' with heq | ⟨rfl, heq⟩
      · exact absurd (heq.symm.trans h') hne
      · obtain rfl := Option.some.inj (heq.symm.trans h')
        exact ⟨_, List.mem_singleton_self _, ⟨rfl, Db.Outcome.id outcome id' actor⟩, rfl⟩
    · have hconsistent : Consistent s.db.statusOf [outcome.update id actor] := by
        refine ⟨outcome.truthful id actor, ?_, trivial⟩
        rw [outcome.id, outcome.source]
        exact hqueued id (.inr rfl)
      have hall : s.db.applyAll o.now [outcome.update id actor] = .ok db := by
        rw [Db.applyAll, List.foldlM_cons, h]
        rfl
      exact Db.truthful_applyAll hconsistent hall
  | @claim _ _ id _ _ => exact .inr ⟨rfl, id, rfl⟩
  | @finish _ _ id error action status result _ _ _ _ _ =>
    exact .inl ⟨[_], Db.accounted_of_write rfl rfl ⟨_, List.mem_singleton_self _,
      isAbout_remediationEntry .., rfl⟩, fun _ => Db.truthful_singleton_of_eq (.inl rfl)⟩
  | commit _ hplanned h =>
    exact .inl ⟨_, Db.accounted_applyAll hplanned.consistent h,
      fun _ => Db.truthful_applyAll hplanned.consistent h⟩
  | _ => exact .inl (audited_of_db_eq rfl)

/-! ## The trail -/

variable {w w' : World}

/-- A call that is about to release a reservation or to record its outcome finds the remediation queued. -/
def ReportsQueued (w : World) (e : Event) : Prop :=
  ∀ i o l, e = .act i o → w.waiting i = some l → FindsQueued l w.shared

theorem environment_audit {x : Environment} (h : environment x s = some s') :
    s'.db.audit = s.db.audit := by
  cases x with
  | incident _ | heartbeat _ | workflow _ _ =>
    obtain rfl := Option.some.inj h
    rfl
  | submission _ _ =>
    simp only [environment] at h
    split at h
    · cases h
    · obtain rfl := Option.some.inj h
      rfl

/-- Every event but the worker's claim tells what it does. -/
theorem Happens.audited {e : Event} (h : Happens cfg d w w' e) (hinv : Invariant cfg d w.shared) :
    (∃ entries, Accounted w.shared.db w'.shared.db entries ∧
      (ReportsQueued w e → Truthful w.shared.db w'.shared.db entries)) ∨
      ∃ i o id, e = .act i o ∧ w.waiting i = some .claim ∧
        w'.shared = w.shared.withDb (w.shared.db.write o.now id .claim) := by
  have hsilent (hrows : w'.shared.db.remediations = w.shared.db.remediations)
      (haudit : w'.shared.db.audit = w.shared.db.audit) :
      ∃ entries, Accounted w.shared.db w'.shared.db entries ∧
        (ReportsQueued w e → Truthful w.shared.db w'.shared.db entries) :=
    ⟨[], Db.accounted_of_same hrows (by simp [haudit]), fun _ _ he => by cases he⟩
  cases h with
  | nothing heq => exact .inl (hsilent (by rw [heq]) (by rw [heq]))
  | crash heq => exact .inl (hsilent (by rw [heq, db_crash]) (by rw [heq, db_crash]))
  | environment henv => exact .inl (hsilent (environment_frame henv).1 (environment_audit henv))
  | @step i o l hwaiting _ hact =>
    rcases hact.audited hinv with ⟨entries, haccounted, htruthful⟩ | ⟨rfl, id, heq⟩
    · exact .inl ⟨entries, haccounted, fun hok => htruthful (hok i o l rfl hwaiting)⟩
    · exact .inr ⟨i, o, id, rfl, hwaiting, heq⟩

/-- Every committed creation or change of a status, apart from the worker's claim, comes with an entry that
names the new status. Where a call that releases a reservation or records its outcome finds the remediation
queued, every entry that names two statuses stands for a move of its remediation from one to the other. -/
theorem audit_trail_truthful (h : Reachable cfg w) {e : Event}
    (hstep : (argus cfg).step w e = some w') :
    ∃ entries, w'.shared.db.audit = w.shared.db.audit ++ entries ∧
      (∀ r' ∈ w'.shared.db.remediations,
        (∀ r ∈ w.shared.db.remediations, r.id = r'.id → r.status ≠ r'.status) →
        (∃ x ∈ entries, x.IsAbout r'.id ∧ x.after = some r'.status.name) ∨
          r'.status = .running ∧
            (∃ r ∈ w.shared.db.remediations, r.id = r'.id ∧ r.status = .queued) ∧
            ∃ i o, e = .act i o ∧ w.waiting i = some .claim) ∧
      (ReportsQueued w e → Truthful w.shared.db w'.shared.db entries) := by
  have hinv := invariant_of_reachable h
  have hids' := (invariant_of_reachable (h.tail trivial hstep)).ids
  rcases (happens (sound_of_reachable h) (disciplined_none cfg w e) hstep).audited hinv with
    ⟨entries, haccounted, htruthful⟩ | ⟨i, o, id, rfl, hwaiting, heq⟩
  · refine ⟨entries, haccounted.audit, fun r' hr' hchanged => .inl ?_, htruthful⟩
    refine haccounted.recorded r'.id r'.status (Db.statusOf_of_mem hids' hr') fun hstatus => ?_
    obtain ⟨r, hr, hid, hsame⟩ := Db.exists_of_statusOf hstatus
    exact hchanged r hr hid hsame
  · refine ⟨[], by rw [heq]; simp [Shared.withDb, Db.write], fun r' hr' hchanged => .inr ?_,
      fun _ _ he => by cases he⟩
    rw [heq] at hr'
    obtain ⟨r, hr, rfl | ⟨rfl, -, hguard⟩⟩ := Remediation.mem_updateWhere hr'
    · exact absurd rfl (hchanged r' hr rfl)
    · refine ⟨rfl, ⟨r, hr, rfl, ?_⟩, i, o, rfl, hwaiting⟩
      have hne : r.status ≠ .running := hchanged r hr rfl
      cases hstatus : r.status <;> simp_all [Write.guard, Status.isDispatchable]

/-- Where one entry was written, a move is one of the whole transaction. -/
theorem MovedWithin.whole_of_singleton {source : Status} (h : MovedWithin db db' id source target)
    (haudit : db'.audit = db.audit ++ [e]) : db.statusOf id = some source := by
  cases h with
  | whole h _ => exact h
  | @between now before after u db₁ db₂ hcommit hbefore _ h _ =>
    have hentries := List.append_cancel_left (haudit.symm.trans (Db.audit_applyAll hcommit))
    have hlength := congrArg List.length hentries
    simp only [List.length_map, List.length_append, List.length_cons, List.length_nil] at hlength
    obtain rfl : before = [] := List.eq_nil_of_length_eq_zero (by omega)
    obtain rfl : db = db₁ := Except.ok.inj hbefore
    exact h

/-- The entry about the release of a reservation. -/
private def releaseEntry : AuditEntry :=
  remediationEntry "ops" "user" "remediation.dispatch_failed" "rem_1" (some .queued) (some .approved)

/-- The next step is the release, and writes its entry about a remediation in this status. -/
private def releasesFrom (status : Status) (w w' : World) : Bool :=
  w.shared.db.statusOf "rem_1" == some status &&
    w'.shared.db.audit == w.shared.db.audit ++ [releaseEntry] &&
    match w.waiting 2 with
    | some (.release id) => id == "rem_1"
    | _ => false

/-- A reservation that nobody touched is released. -/
theorem audit_trail_truthful_release :
    ∃ w w' e, Reachable (defaultConfig .helios) w ∧
      (argus (defaultConfig .helios)).step w e = some w' ∧ ReportsQueued w e ∧
      ∃ entries, w'.shared.db.audit = w.shared.db.audit ++ entries ∧ entries ≠ [] ∧
        Truthful w.shared.db w'.shared.db entries := by
  obtain ⟨w, w', hw, hstep, hcheck⟩ := exists_step (defaultConfig .helios)
    (reservedPod false ++ [.act 2 { ok := false }]) (.act 2 {}) (releasesFrom .queued)
    (by decide +kernel)
  simp only [releasesFrom, Bool.and_eq_true, beq_iff_eq] at hcheck
  obtain ⟨⟨hstatus, haudit⟩, hwaiting⟩ := hcheck
  have hok : ReportsQueued w (.act 2 {}) := by
    rintro i o l heq hl id (rfl | rfl) <;> cases heq <;> rw [hl] at hwaiting
    · obtain rfl : id = "rem_1" := by simpa using hwaiting
      exact hstatus
    · cases hwaiting
  obtain ⟨entries, haudit', -, htruthful⟩ := audit_trail_truthful hw hstep
  refine ⟨w, w', _, hw, hstep, hok, entries, haudit', ?_, htruthful hok⟩
  rintro rfl
  have hlength := congrArg List.length (haudit.symm.trans haudit')
  simp at hlength

/-- A remediation is cancelled under the call that reserved it. The call then fails, and records that it
released the reservation. -/
theorem release_recorded_after_cancel :
    ∃ w w' e, Reachable (defaultConfig .helios) w ∧
      (argus (defaultConfig .helios)).step w e = some w' ∧
      ∀ entries, w'.shared.db.audit = w.shared.db.audit ++ entries →
        ¬ Truthful w.shared.db w'.shared.db entries := by
  obtain ⟨w, w', hw, hstep, hcheck⟩ := exists_step (defaultConfig .helios)
    (reservedPod false ++ [.start (.cancel "rem_1" "ops"), .act 3 {}, .act 3 {},
      .act 2 { ok := false }]) (.act 2 {}) (releasesFrom .cancelled) (by decide +kernel)
  simp only [releasesFrom, Bool.and_eq_true, beq_iff_eq] at hcheck
  obtain ⟨⟨hstatus, haudit⟩, -⟩ := hcheck
  refine ⟨w, w', _, hw, hstep, fun entries hentries htruthful => ?_⟩
  obtain rfl : entries = [releaseEntry] := List.append_cancel_left (hentries.symm.trans haudit)
  obtain ⟨source, target, hsource, -, hmoved⟩ := htruthful releaseEntry (List.mem_singleton_self _)
    "rem_1" ⟨rfl, rfl⟩ "queued" "approved" rfl rfl (by decide)
  obtain rfl : Status.cancelled = source :=
    Option.some.inj (hstatus.symm.trans (hmoved.whole_of_singleton haudit))
  exact absurd hsource (by decide)

end Argus.System

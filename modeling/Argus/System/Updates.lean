import Argus.System.HeliosReconcile

/-!
# Updates under a lock

The status of a remediation as a function of its id, and what conditional updates do to it. A reconciler
collects updates before it commits them: `Consistent` says that each of them starts from the status that
the ones before it leave, so that all of them apply and their entries are true.
-/

namespace Argus.System

open Remediation (Time RemediationAction Failure Status Write)

/-! ## Statuses -/

/-- The status of a remediation. -/
def Db.statusOf (db : Db) (id : String) : Option Status :=
  (Remediation.getRemediation db.remediations id).map RemediationAction.status

theorem getRemediation_updateWhere (now : Time) (id id' : String) (w : Write)
    (rows : List RemediationAction) :
    Remediation.getRemediation (Remediation.updateWhere now id w rows) id' =
      (Remediation.getRemediation rows id').map fun r =>
        if r.id = id ∧ w.guard r.status = true then w.set now r else r := by
  rw [Remediation.getRemediation, Remediation.updateWhere, Table.updateIf, List.find?_map]
  refine congrArg _ (congrFun (congrArg _ (funext fun r => ?_)) rows)
  dsimp only [Function.comp_apply]
  split
  · rw [(w.sameProposal_set now r).id]
  · rfl

theorem Db.statusOf_write (db : Db) (now : Time) (id id' : String) (w : Write) :
    (db.write now id w).statusOf id' = (db.statusOf id').map fun status =>
      if id' = id ∧ w.guard status = true then w.status else status := by
  rw [Db.statusOf, Db.write, getRemediation_updateWhere, Option.map_map, Db.statusOf,
    Option.map_map]
  refine Option.map_congr fun r hr => ?_
  obtain ⟨-, rfl⟩ := Remediation.mem_of_getRemediation (Option.mem_def.mp hr)
  dsimp only [Function.comp_apply]
  split <;> simp

variable {db : Db} {id : String}
variable {u : Db.Update} {writes : List Write} {r : RemediationAction} {status : Status}
  {id' : String} {w : Write}

theorem Db.statusOf_write_self (h : db.statusOf id = some status) (hguard : w.guard status = true)
    (now : Time) : (db.write now id w).statusOf id = some w.status := by
  simp [Db.statusOf_write, h, hguard]

theorem Db.statusOf_write_ne (h : id' ≠ id) (db : Db) (now : Time) (w : Write) :
    (db.write now id w).statusOf id' = db.statusOf id' := by
  simp [Db.statusOf_write, h]

variable {db' : Db}

theorem Db.statusOf_congr (h : db'.remediations = db.remediations) (id : String) :
    db'.statusOf id = db.statusOf id := by
  rw [Db.statusOf, Db.statusOf, h]

/-- With unique ids a row has the status of its id. -/
theorem Db.statusOf_of_mem (hids : db.Distinct) (hr : r ∈ db.remediations) :
    db.statusOf r.id = some r.status := by
  cases hget : Remediation.getRemediation db.remediations r.id with
  | none =>
    rw [Remediation.getRemediation, List.find?_eq_none] at hget
    exact absurd (beq_self_eq_true r.id) (hget r hr)
  | some r' =>
    obtain ⟨hr', hid⟩ := Remediation.mem_of_getRemediation hget
    rw [Db.statusOf, hget, Table.eq_of_key_eq hids hr' hr hid]
    rfl

theorem Db.exists_of_statusOf (h : db.statusOf id = some status) :
    ∃ r ∈ db.remediations, r.id = id ∧ r.status = status := by
  obtain ⟨r, hget, rfl⟩ := Option.map_eq_some_iff.mp h
  obtain ⟨hr, hid⟩ := Remediation.mem_of_getRemediation hget
  exact ⟨r, hr, hid, rfl⟩

/-- With unique ids an update affects the row that has the status. -/
theorem Db.exists_statusOf_of_affects (hids : db.Distinct) (h : db.affects id w = true) :
    ∃ status, db.statusOf id = some status ∧ w.guard status = true := by
  obtain ⟨r, hr, rfl, hguard⟩ := Remediation.affects_iff.mp h
  exact ⟨r.status, Db.statusOf_of_mem hids hr, hguard⟩

/-! ## Updates of one row -/

/-- The status that updates lead to, if each of them applies. -/
def pathEnd (source : Status) (writes : List Write) : Option Status :=
  writes.foldlM (fun status w => if w.guard status then some w.status else none) source

/-- The entry after the updates names the statuses they lead from and to. -/
def Db.Update.Truthful (u : Db.Update) : Prop := pathEnd u.source u.writes = some u.target

/-- What is left of the tables after the updates of one row. -/
def Db.writeAll (db : Db) (now : Time) (id : String) (writes : List Write) : Db :=
  writes.foldl (fun db w => db.write now id w) db

theorem Db.writeAll_cons (db : Db) (now : Time) (id : String) (w : Write) (writes : List Write) :
    db.writeAll now id (w :: writes) = (db.write now id w).writeAll now id writes := rfl

variable {now : Time}

theorem Db.applyWrites_eq (h : writes.foldlM (Db.applyWrite now id) db = .ok db') :
    db' = db.writeAll now id writes := by
  induction writes generalizing db with
  | nil => exact (Except.ok.inj h).symm
  | cons w writes ih =>
    rw [List.foldlM_cons] at h
    unfold Db.applyWrite at h
    split at h
    · exact ih h
    · cases h

/-- Updates that apply write their rows, and one entry. -/
theorem Db.applyOne_eq (h : db.applyOne now u = .ok db') :
    db' = (db.writeAll now u.id u.writes).record u.entry := by
  obtain ⟨db₁, h₁, rfl⟩ := exists_of_map_eq_ok h
  rw [Db.applyWrites_eq h₁]

theorem Db.statusOf_writeAll_ne (h : id' ≠ id) (db : Db) (now : Time) (writes : List Write) :
    (db.writeAll now id writes).statusOf id' = db.statusOf id' := by
  induction writes generalizing db with
  | nil => rfl
  | cons w writes ih => rw [Db.writeAll_cons, ih, Db.statusOf_write_ne h]

theorem Db.statusOf_writeAll_self {source target : Status} (h : db.statusOf id = some source)
    (hpath : pathEnd source writes = some target) (now : Time) :
    (db.writeAll now id writes).statusOf id = some target := by
  induction writes generalizing db source with
  | nil =>
    obtain rfl := Option.some.inj hpath
    exact h
  | cons w writes ih =>
    rw [pathEnd, List.foldlM_cons] at hpath
    split at hpath
    · rename_i hguard
      exact ih (Db.statusOf_write_self h hguard now) hpath
    · cases hpath

/-- The part of the tables that updates of remediations leave alone. -/
structure Db.SameOthers (db db' : Db) : Prop where
  incidents : db'.incidents = db.incidents
  approvals : db'.approvals = db.approvals
  dispatches : db'.dispatches = db.dispatches
  heartbeats : db'.heartbeats = db.heartbeats
  control : db'.control = db.control

theorem Db.SameOthers.refl (db : Db) : Db.SameOthers db db := ⟨rfl, rfl, rfl, rfl, rfl⟩

theorem Db.sameOthers_writeAll (db : Db) (now : Time) (id : String) (writes : List Write) :
    Db.SameOthers db (db.writeAll now id writes) ∧
      (db.writeAll now id writes).audit = db.audit := by
  induction writes generalizing db with
  | nil => exact ⟨.refl db, rfl⟩
  | cons w writes ih =>
    obtain ⟨hothers, haudit⟩ := ih (db.write now id w)
    exact ⟨⟨hothers.incidents, hothers.approvals, hothers.dispatches, hothers.heartbeats,
      hothers.control⟩, haudit⟩

/-! ## Updates of many rows -/

/-- Each update starts from the status that the ones before it leave. -/
def Consistent (statuses : String → Option Status) : List Db.Update → Prop
  | [] => True
  | u :: updates => u.Truthful ∧ statuses u.id = some u.source ∧
      Consistent (Function.update statuses u.id (some u.target)) updates

theorem Consistent.congr {statuses statuses' : String → Option Status} {updates : List Db.Update}
    (h : Consistent statuses updates)
    (heq : ∀ u ∈ updates, statuses' u.id = statuses u.id) : Consistent statuses' updates := by
  induction updates generalizing statuses statuses' with
  | nil => trivial
  | cons u updates ih =>
    obtain ⟨htruthful, hsource, hrest⟩ := h
    refine ⟨htruthful, (heq u List.mem_cons_self).trans hsource, ih hrest fun v hv => ?_⟩
    by_cases hid : v.id = u.id
    · simp [hid]
    · simp [Function.update_of_ne hid, heq v (List.mem_cons_of_mem _ hv)]

/-- Updates of other rows come after. -/
theorem Consistent.append {statuses : String → Option Status} {updates more : List Db.Update}
    (h : Consistent statuses updates) (hmore : Consistent statuses more)
    (hne : ∀ u ∈ updates, ∀ v ∈ more, v.id ≠ u.id) : Consistent statuses (updates ++ more) := by
  induction updates generalizing statuses with
  | nil => exact hmore
  | cons u updates ih =>
    obtain ⟨htruthful, hsource, hrest⟩ := h
    refine ⟨htruthful, hsource, ih hrest (hmore.congr fun v hv => ?_) fun u' hu' =>
      hne u' (List.mem_cons_of_mem _ hu')⟩
    exact Function.update_of_ne (hne u List.mem_cons_self v hv) _ _

theorem Db.statusOf_applyOne (h : db.applyOne now u = .ok db') (htruthful : u.Truthful)
    (hsource : db.statusOf u.id = some u.source) :
    db'.statusOf = Function.update db.statusOf u.id (some u.target) := by
  rw [Db.applyOne_eq h]
  funext id
  by_cases hid : id = u.id
  · subst hid
    rw [Function.update_self]
    exact Db.statusOf_writeAll_self hsource htruthful now
  · rw [Function.update_of_ne hid]
    exact Db.statusOf_writeAll_ne hid db now u.writes

/-- Rows of other remediations stay as they are. -/
theorem Db.mem_writeAll_of_ne (hid : r.id ≠ id) (now : Time) (writes : List Write) :
    r ∈ (db.writeAll now id writes).remediations ↔ r ∈ db.remediations := by
  induction writes generalizing db with
  | nil => exact Iff.rfl
  | cons w writes ih =>
    rw [Db.writeAll_cons, ih]
    constructor
    · intro hr
      obtain ⟨r₀, hr₀, rfl | ⟨rfl, hid₀, -⟩⟩ := Remediation.mem_updateWhere hr
      · exact hr₀
      · exact absurd ((w.sameProposal_set now r₀).id.trans hid₀) hid
    · intro hr
      obtain ⟨r', hr', ⟨rfl, -⟩ | ⟨-, hid', -⟩⟩ :=
        Remediation.exists_mem_updateWhere now id w hr
      · exact hr'
      · exact absurd hid' hid

end Argus.System

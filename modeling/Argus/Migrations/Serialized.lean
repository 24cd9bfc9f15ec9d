import Argus.Base.Answers
import Argus.Migrations.Builds

/-!
# Migrations are applied once, in order

The migration lock serializes the runs: only its holder changes the database, and nothing changes
while it is held in shared mode. So what a run finds stays true until it acts on it, and every
commit appends the next migration of the list.
-/

namespace Argus.Migrations

open Interleave (Safe Spec Obligations Compatible Tolerated Sound Within)
open SortedAssoc (KeyOrder)

variable {all set : List Migration} {rows : List Row} {s s' : Shared} {i j : ℕ} {mode : Mode}

/-! ## Invariant, guarantee and rely -/

/-- The rows and the schema are those of a prefix of the list, and the lock excludes. -/
structure Invariant (all : List Migration) (s : Shared) : Prop where
  applied : ∃ n, s.db.rows = (all.take n).map Migration.row ∧ s.db.committed = all.take n
  column : ∀ t, s.db.table = some t → t.rows ≠ [] → t.breakingColumn = true
  alone : ∀ i, s.exclusive = some i → s.sharing = []
  ended : ∀ i ∈ s.ended, ¬ s.Holds i

/-- What a step of process `i` does. -/
structure Step (all : List Migration) (i : ℕ) (s s' : Shared) : Prop where
  invariant : Invariant all s'
  db : s.exclusive ≠ some i → s'.db = s.db
  grows : s.db.rows <+: s'.db.rows
  ended : s'.ended = s.ended
  exclusive : ∀ j, j ≠ i → s.exclusive = some j → s'.exclusive = some j
  sharing : ∀ j, j ≠ i → j ∈ s.sharing → j ∈ s'.sharing
  found : ∀ j, j ≠ i → s'.found j = s.found j
  applied : ∀ j, j ≠ i → s'.applied j = s.applied j
  look : s'.found i = s.found i ∨ s.Holds i ∧ s'.found i = some s.db.rows

/-- What the others do, for process `i`: while it holds the lock the database stays as it is. -/
structure Rely (i : ℕ) (s s' : Shared) : Prop where
  ended : i ∈ s.ended → i ∈ s'.ended
  found : s'.found i = s.found i
  applied : s'.applied i = s.applied i
  exclusive : s.exclusive = some i → i ∈ s'.ended ∨ s'.exclusive = some i ∧ s'.db = s.db
  sharing : i ∈ s.sharing → i ∈ s'.ended ∨ i ∈ s'.sharing ∧ s'.db = s.db

theorem Step.rely (h : Step all i s s') (hinv : Invariant all s) (hij : j ≠ i) : Rely j s s' where
  ended hj := by rwa [h.ended]
  found := h.found j hij
  applied := h.applied j hij
  exclusive hj := by
    refine .inr ⟨h.exclusive j hij hj, h.db fun hi => hij ?_⟩
    exact Option.some_inj.mp (hj.symm.trans hi)
  sharing hj := by
    refine .inr ⟨h.sharing j hij hj, h.db fun hi => ?_⟩
    rw [hinv.alone i hi] at hj
    cases hj

theorem holds_of_endSession (h : (s.endSession i).Holds j) : j ≠ i ∧ s.Holds j := by
  rcases h with h | h
  · simp only [Shared.endSession] at h
    split at h
    · cases h
    · rename_i hne
      exact ⟨fun hji => hne (hji ▸ h), .inl h⟩
  · simp only [Shared.endSession, List.mem_filter, decide_eq_true_eq] at h
    exact ⟨h.2, .inr h.1⟩

theorem Invariant.endSession (h : Invariant all s) (i : ℕ) : Invariant all (s.endSession i) where
  applied := h.applied
  column := h.column
  alone j hj := by
    have hs : s.exclusive = some j := by
      simp only [Shared.endSession] at hj
      split at hj
      · cases hj
      · exact hj
    simp [Shared.endSession, h.alone j hs]
  ended j hj hholds := by
    obtain ⟨hne, hholds⟩ := holds_of_endSession hholds
    rcases List.mem_cons.mp hj with rfl | hj
    · exact hne rfl
    · exact h.ended j hj hholds

theorem rely_endSession (s : Shared) (i j : ℕ) : Rely j s (s.endSession i) where
  ended hj := List.mem_cons_of_mem _ hj
  found := rfl
  applied := rfl
  exclusive hj := by
    by_cases hji : j = i
    · exact .inl (hji ▸ List.mem_cons_self)
    · refine .inr ⟨?_, rfl⟩
      exact (if_neg fun hi => hji (Option.some_inj.mp (hj.symm.trans hi))).trans hj
  sharing hj := by
    by_cases hji : j = i
    · exact .inl (hji ▸ List.mem_cons_self)
    · exact .inr ⟨List.mem_filter.mpr ⟨hj, decide_eq_true hji⟩, rfl⟩

/-- Builds whose sets are prefixes of the list, or that have an applied migration with another
checksum, look at the database. -/
def specification (all : List Migration) : Spec Call Label Outcome Shared where
  Inv := Invariant all
  Ok _ l _ s := ∀ set, l = .inspect set → set <+: all ∨ Modified set s.db.rows
  R i _ s s' := Rely i s s'
  G i _ _ s s' := Step all i s s'
  Pre _ _ _ := True

/-! ## Steps -/

/-- A step that changes neither database nor locks. -/
theorem Invariant.step_of_same (h : Invariant all s) (hdb : s'.db = s.db)
    (hexclusive : s'.exclusive = s.exclusive) (hsharing : s'.sharing = s.sharing)
    (hended : s'.ended = s.ended) (hfound : ∀ j, j ≠ i → s'.found j = s.found j)
    (happlied : ∀ j, j ≠ i → s'.applied j = s.applied j)
    (hlook : s'.found i = s.found i ∨ s.Holds i ∧ s'.found i = some s.db.rows) :
    Step all i s s' where
  invariant :=
    { applied := by rw [hdb]; exact h.applied
      column := by rw [hdb]; exact h.column
      alone := by rw [hexclusive, hsharing]; exact h.alone
      ended := by
        rw [hended]
        unfold Shared.Holds
        rw [hexclusive, hsharing]
        exact h.ended }
  db _ := hdb
  grows := by rw [hdb]
  ended := hended
  exclusive _ _ hj := hexclusive.trans hj
  sharing _ _ hj := hsharing ▸ hj
  found := hfound
  applied := happlied
  look := hlook

theorem Invariant.step_refl (h : Invariant all s) : Step all i s s :=
  h.step_of_same rfl rfl rfl rfl (fun _ _ => rfl) (fun _ _ => rfl) (.inl rfl)

/-- The holder of the lock changes the database. -/
theorem Invariant.step_of_db (h : Invariant all s) (hi : s.exclusive = some i)
    (hexclusive : s'.exclusive = s.exclusive) (hsharing : s'.sharing = s.sharing)
    (hended : s'.ended = s.ended) (hfound : s'.found = s.found)
    (happlied : ∀ j, j ≠ i → s'.applied j = s.applied j) (hgrows : s.db.rows <+: s'.db.rows)
    (hstart : ∃ n, s'.db.rows = (all.take n).map Migration.row ∧ s'.db.committed = all.take n)
    (hcolumn : ∀ t, s'.db.table = some t → t.rows ≠ [] → t.breakingColumn = true) :
    Step all i s s' where
  invariant :=
    { applied := hstart
      column := hcolumn
      alone := by rw [hexclusive, hsharing]; exact h.alone
      ended := by
        rw [hended]
        unfold Shared.Holds
        rw [hexclusive, hsharing]
        exact h.ended }
  db hne := absurd hi hne
  grows := hgrows
  ended := hended
  exclusive _ _ hj := hexclusive.trans hj
  sharing _ _ hj := hsharing ▸ hj
  found j _ := congrFun hfound j
  applied := happlied
  look := .inl (congrFun hfound i)

theorem Invariant.step_lock (h : Invariant all s) (hi : i ∉ s.ended)
    (hlock : s.lock mode i = some s') : Step all i s s' := by
  cases mode with
  | apply =>
    simp only [Shared.lock, Option.ite_none_right_eq_some, Option.some.injEq] at hlock
    obtain ⟨⟨hnone, hnobody⟩, rfl⟩ := hlock
    refine ⟨⟨h.applied, h.column, fun _ _ => hnobody, fun j hj hholds => ?_⟩, fun _ => rfl,
      List.prefix_rfl, rfl, fun j _ hj => ?_, fun _ _ hj => hj, fun _ _ => rfl, fun _ _ => rfl,
      .inl rfl⟩
    · rcases hholds with hij | hsharing
      · obtain rfl := Option.some_inj.mp hij
        exact hi hj
      · exact h.ended j hj (.inr hsharing)
    · rw [hnone] at hj
      cases hj
  | verify =>
    simp only [Shared.lock, Option.ite_none_right_eq_some, Option.some.injEq] at hlock
    obtain ⟨hnone, rfl⟩ := hlock
    refine ⟨⟨h.applied, h.column, fun j hj => ?_, fun j hj hholds => ?_⟩, fun _ => rfl,
      List.prefix_rfl, rfl, fun _ _ hj => hj, fun _ _ hj => List.mem_cons_of_mem _ hj,
      fun _ _ => rfl, fun _ _ => rfl, .inl rfl⟩
    · rw [hnone] at hj
      cases hj
    · rcases hholds with hexclusive | hsharing
      · exact h.ended j hj (.inl hexclusive)
      · rcases List.mem_cons.mp hsharing with rfl | hsharing
        · exact hi hj
        · exact h.ended j hj (.inr hsharing)

theorem Invariant.step_unlock (h : Invariant all s) (mode : Mode) (i : ℕ) :
    Step all i s (s.unlock mode i) := by
  cases mode with
  | apply =>
    have hkept {j : ℕ} (hj : (s.unlock .apply i).exclusive = some j) : s.exclusive = some j := by
      simp only [Shared.unlock] at hj
      split at hj
      · cases hj
      · exact hj
    refine ⟨⟨h.applied, h.column, fun j hj => h.alone j (hkept hj), fun j hj hholds => ?_⟩,
      fun _ => rfl, List.prefix_rfl, rfl, fun j hji hj => ?_, fun _ _ hj => hj, fun _ _ => rfl,
      fun _ _ => rfl, .inl rfl⟩
    · exact h.ended j hj (hholds.imp_left hkept)
    · exact (if_neg fun hi => hji (Option.some_inj.mp (hj.symm.trans hi))).trans hj
  | verify =>
    refine ⟨⟨h.applied, h.column, fun j hj => ?_, fun j hj hholds => ?_⟩, fun _ => rfl,
      List.prefix_rfl, rfl, fun _ _ hj => hj, fun j hji hj => ?_, fun _ _ => rfl, fun _ _ => rfl,
      .inl rfl⟩
    · have hnobody : s.sharing = [] := h.alone j hj
      simp [Shared.unlock, hnobody]
    · exact h.ended j hj (hholds.imp_right List.mem_of_mem_filter)
    · exact List.mem_filter.mpr ⟨hj, decide_eq_true hji⟩

/-! ### The database -/

variable {collation : KeyOrder String} {report : Report} {t table : Table}

theorem Invariant.rows_eq_nil (h : Invariant all s) (ht : s.db.table = some t)
    (hcolumn : t.breakingColumn = false) : t.rows = [] := by
  by_contra hne
  rw [h.column t ht hne] at hcolumn
  cases hcolumn

variable {db : Database}

theorem createTable_of_some (ht : db.table = some t) : db.createTable = db := by
  obtain ⟨table, committed⟩ := db
  obtain rfl : table = some t := ht
  rfl

theorem Invariant.step_createTable (h : Invariant all s) (hi : s.exclusive = some i) :
    Step all i s { s with db := s.db.createTable } := by
  cases ht : s.db.table with
  | none =>
    obtain ⟨n, hrows, hcommitted⟩ := h.applied
    have hsame : s.db.createTable.rows = s.db.rows := by
      simp [Database.rows, Database.createTable, ht]
    refine h.step_of_db hi rfl rfl rfl rfl (fun _ _ => rfl) (hsame ▸ List.prefix_rfl)
      ⟨n, hsame.trans hrows, hcommitted⟩ fun t ht' hne => ?_
    · rw [Database.createTable, ht] at ht'
      obtain rfl := Option.some.inj ht'
      exact absurd rfl hne
  | some t =>
    rw [createTable_of_some ht]
    exact h.step_refl

theorem Invariant.step_addBreaking (h : Invariant all s) (hi : s.exclusive = some i)
    (hdb : s.db.addBreaking = .ok db) : Step all i s { s with db := db } := by
  unfold Database.addBreaking at hdb
  split at hdb
  · cases hdb
  · rename_i t ht
    split at hdb
    · obtain rfl := Except.ok.inj hdb
      exact h.step_refl
    · rename_i hcolumn
      obtain rfl := Except.ok.inj hdb
      have hnone := h.rows_eq_nil ht (Bool.not_eq_true _ ▸ hcolumn)
      obtain ⟨n, hrows, hcommitted⟩ := h.applied
      have hnil : s.db.rows = [] := by simp [Database.rows, ht, hnone]
      refine h.step_of_db hi rfl rfl rfl rfl (fun _ _ => rfl) (hnil ▸ List.nil_prefix)
        ⟨n, ?_, hcommitted⟩ fun t' ht' _ => ?_
      · rw [← hrows, hnil]
        simp [Database.rows, hnone]
      · obtain rfl := Option.some.inj ht'
        rfl

variable {m : Migration}

/-- A row in the table is the migration's, its checksum being as long as the column. -/
theorem Loaded.rows_insert (h : Loaded all) (hm : m ∈ all) (hinsert : db.insert m = .ok table) :
    table.rows = db.rows ++ [m.row] ∧ table.breakingColumn = true := by
  have hchecksum : Database.char64 m.checksum = some m.checksum := by
    simp [Database.char64, h.length_checksum hm]
  unfold Database.insert at hinsert
  split at hinsert
  · cases hinsert
  · rename_i t ht
    rw [hchecksum] at hinsert
    dsimp only at hinsert
    split at hinsert
    · split at hinsert
      · cases hinsert
      · obtain rfl := Except.ok.inj hinsert
        simp [Database.rows, ht, Migration.row]
    · cases hinsert

variable {n : ℕ}

/-- The transaction of the next migration commits. -/
theorem Invariant.step_commit (h : Invariant all s) (hall : Loaded all) (hi : s.exclusive = some i)
    (hrows : s.db.rows = (all.take n).map Migration.row) (hm : all.take (n + 1) = all.take n ++ [m])
    (hinsert : s.db.insert m = .ok table) :
    Step all i s { s with
      db := ⟨some table, s.db.committed ++ [m]⟩
      applied := Function.update s.applied i (s.applied i ++ [m]) } ∧
    table.rows = (all.take (n + 1)).map Migration.row := by
  have hmem : m ∈ all := List.mem_of_mem_take (hm ▸ List.mem_append_right _ List.mem_cons_self)
  obtain ⟨htable, hcolumn⟩ := hall.rows_insert hmem hinsert
  have hnext : table.rows = (all.take (n + 1)).map Migration.row := by
    rw [htable, hrows, hm, List.map_append]
    rfl
  refine ⟨h.step_of_db hi rfl rfl rfl rfl (fun j hj => Function.update_of_ne hj ..)
    ⟨[m.row], htable.symm⟩ ⟨n + 1, hnext, ?_⟩ ?_, hnext⟩
  · -- the schema has as many migrations as the table has rows
    obtain ⟨k, hrows', hcommitted⟩ := h.applied
    have hlength := congrArg List.length (hrows'.symm.trans hrows)
    rw [List.length_map, List.length_map, List.length_take, List.length_take] at hlength
    rw [hcommitted, List.take_eq_take_iff.mpr hlength, hm]
  · intro t ht _
    obtain rfl := Option.some.inj ht
    exact hcolumn

/-! ## Assertions that the others keep -/

/-- The session holds the lock in its mode. -/
def Owns (mode : Mode) (i : ℕ) (s : Shared) : Prop :=
  match mode with
  | .apply => s.exclusive = some i
  | .verify => i ∈ s.sharing

theorem owns_of_lock (h : s.lock mode i = some s') : Owns mode i s' ∧ s'.applied = s.applied := by
  cases mode with
  | apply =>
    simp only [Shared.lock, Option.ite_none_right_eq_some, Option.some.injEq] at h
    obtain ⟨-, rfl⟩ := h
    exact ⟨rfl, rfl⟩
  | verify =>
    simp only [Shared.lock, Option.ite_none_right_eq_some, Option.some.injEq] at h
    obtain ⟨-, rfl⟩ := h
    exact ⟨List.mem_cons_self, rfl⟩

theorem recorded_unlock (s : Shared) (mode : Mode) (i : ℕ) :
    (s.unlock mode i).found = s.found ∧ (s.unlock mode i).applied = s.applied := by
  cases mode <;> exact ⟨rfl, rfl⟩

/-- As long as the session lasts it has the lock, and the database is as it found it. -/
def Owning (mode : Mode) (i : ℕ) (D : Database → Prop) (s : Shared) : Prop :=
  i ∈ s.ended ∨ Owns mode i s ∧ D s.db

/-- An assertion of process `i`. -/
def Keeps (i : ℕ) (P : Shared → Prop) : Prop := ∀ s s', Rely i s s' → P s → P s'

variable {P : Shared → Prop}

theorem Keeps.stable (h : Keeps i P) (l : Option Label) : (specification all).Stable i l P :=
  fun s s' hstep hs => h s s' hstep.2.1 hs

theorem Keeps.and {Q : Shared → Prop} (hP : Keeps i P) (hQ : Keeps i Q) :
    Keeps i fun s => P s ∧ Q s :=
  fun s s' hrely hs => ⟨hP s s' hrely hs.1, hQ s s' hrely hs.2⟩

theorem keeps_owning (mode : Mode) (i : ℕ) (D : Database → Prop) : Keeps i (Owning mode i D) := by
  rintro s s' hrely (hended | ⟨howns, hD⟩)
  · exact .inl (hrely.ended hended)
  · cases mode with
    | apply =>
      rcases hrely.exclusive howns with hended | ⟨hexclusive, hdb⟩
      · exact .inl hended
      · exact .inr ⟨hexclusive, hdb ▸ hD⟩
    | verify =>
      rcases hrely.sharing howns with hended | ⟨hsharing, hdb⟩
      · exact .inl hended
      · exact .inr ⟨hsharing, hdb ▸ hD⟩

/-- What is recorded of a run is its own. -/
theorem keeps_recorded (i : ℕ) (F : Option (List Row) → List Migration → Prop) :
    Keeps i fun s => F (s.found i) (s.applied i) := by
  intro s s' hrely hs
  rw [hrely.found, hrely.applied]
  exact hs

/-! ## Statements -/

/-- Errors of statements say nothing. -/
def Passes {β : Type} (Q : β → Shared → Prop) : Except RunError β → Shared → Prop
  | .ok b, s => Q b s
  | .error (.statement _ _), _ => True
  | .error _, _ => False

variable {l : Label} {β : Type}

theorem statement_safe {act : Shared → Option (Except String β × Shared)}
    {Q : Except String β → Shared → Prop} (hkeeps : Keeps i P) (hs : P s)
    (hfail : ∀ e s₁, P s₁ → Q (.error e) s₁)
    (hact : ∀ s₁ r s₂, Invariant all s₁ → P s₁ → i ∉ s₁.ended → (∀ set, l = .inspect set → set <+:
      all ∨ Modified set s₁.db.rows) → act s₁ = some (r, s₂) → Step all i s₁ s₂ ∧ Q r s₂ ∧ ∀ e, Q
      (.error e) s₂) : Safe (specification all) i Q (statement i l act) s := by
  refine Safe.perform P (hkeeps.stable _) hs ?_
  intro s₁ o b s₂ hinv hP hok hstep
  split at hstep
  · cases hstep
    exact ⟨Invariant.step_refl hinv, hfail _ _ hP⟩
  · rename_i hended
    split at hstep
    · cases hstep
      exact ⟨Invariant.step_refl hinv, hfail _ _ hP⟩
    · obtain ⟨hG, hQ, -⟩ := hact s₁ b s₂ hinv hP hended hok hstep
      exact ⟨hG, hQ⟩
    · obtain ⟨⟨r, s₃⟩, hr, hpair⟩ := Option.map_eq_some_iff.mp hstep
      obtain ⟨rfl, rfl⟩ := Prod.mk.inj hpair
      obtain ⟨hG, -, hQ⟩ := hact s₁ r s₃ hinv hP hended hok hr
      exact ⟨hG, hQ _⟩

variable {context : String}

theorem checked_safe {act : Shared → Option (Except String β × Shared)} {Q : β → Shared → Prop}
    (hkeeps : Keeps i P) (hs : P s)
    (hact : ∀ s₁ r s₂, Invariant all s₁ → P s₁ → i ∉ s₁.ended → (∀ set, l = .inspect set → set <+:
      all ∨ Modified set s₁.db.rows) → act s₁ = some (r, s₂) → Step all i s₁ s₂ ∧ ∀ b, r = .ok b →
      Q b s₂) : Safe (specification all) i (Passes Q) (checked i l context act) s := by
  refine Safe.bind (statement_safe hkeeps hs (fun e s₁ _ => Safe.ret trivial) ?_)
  intro s₁ r s₂ hinv hP hended hok hr
  obtain ⟨hG, hQ⟩ := hact s₁ r s₂ hinv hP hended hok hr
  refine ⟨hG, ?_, fun e => Safe.ret trivial⟩
  cases r with
  | error e => exact Safe.ret trivial
  | ok b => exact Safe.ret (hQ b rfl)

/-- A run goes on after a statement that succeeded. -/
theorem Safe.bind_passes {γ : Type} {p : Program (Except RunError β)} {Q : β → Shared → Prop}
    {R : γ → Shared → Prop} {f : Except RunError β → Program γ}
    (hp : Safe (specification all) i (Passes Q) p s)
    (hfail : ∀ context e s, Safe (specification all) i R (f (.error (.statement context e))) s)
    (hok : ∀ b s, Q b s → Safe (specification all) i R (f (.ok b)) s) :
    Safe (specification all) i R (p >>= f) s := by
  refine Safe.bind (hp.mono ?_)
  rintro ((_ | ⟨context, e⟩ | _ | _ | _ | _) | b) s h
  case ok => exact hok b s h
  case error.statement => exact hfail context e s
  all_goals exact h.elim

/-! ## Runs -/

/-- What a run returns, by what it found: which error, and that nothing was applied where the build
is modified or lacks a breaking migration. -/
structure Honoured (mode : Mode) (set : List Migration) (rows : List Row) (applied : List Migration)
    (err : Option RunError) : Prop where
  modified : Modified set rows → (∃ m recorded, err = some (.modified m recorded)) ∧ applied = []
  newer : ¬ Modified set rows → LacksBreaking set rows →
    (∃ breaking known, err = some (.newer breaking known)) ∧ applied = []
  verified : mode = .verify → (err = none ↔ (∀ m ∈ set, m.row ∈ rows) ∧ ¬ LacksBreaking set rows)

/-- The answer of a run, unless one of its statements failed. -/
def Answered (mode : Mode) (set : List Migration) (i : ℕ) (answer : Answer) (s : Shared) : Prop :=
  (∀ context e, answer.2 ≠ some (.statement context e)) →
    ∃ rows, s.found i = some rows ∧ Honoured mode set rows (s.applied i) answer.2

theorem answered_of_statement {e : String} :
    Answered mode set i (report, some (.statement context e)) s :=
  fun h => absurd rfl (h context e)

theorem keeps_answered (mode : Mode) (set : List Migration) (i : ℕ) (answer : Answer) :
    Keeps i (Answered mode set i answer) :=
  keeps_recorded i fun found applied => (∀ context e, answer.2 ≠ some (.statement context e)) →
    ∃ rows, found = some rows ∧ Honoured mode set rows applied answer.2

/-- A run has the lock and has done nothing yet. -/
def Ready (mode : Mode) (i : ℕ) (s : Shared) : Prop :=
  Owning mode i (fun _ => True) s ∧ s.applied i = []

theorem keeps_ready (mode : Mode) (i : ℕ) : Keeps i (Ready mode i) :=
  (keeps_owning mode i _).and (keeps_recorded i fun _ applied => applied = [])

theorem prepare_safe (hs : Ready .apply i s) :
    Safe (specification all) i (Passes fun _ s => Ready .apply i s) (prepare i) s := by
  have hkeeps := keeps_ready .apply i
  refine Safe.bind_passes (Q := fun _ s => Ready .apply i s) (checked_safe hkeeps hs ?_)
    (fun _ _ _ => Safe.ret trivial) ?_
  · intro s₁ r s₂ hinv hP hended _ hact
    cases hact
    have howns := (hP.1.resolve_left hended).1
    exact ⟨hinv.step_createTable howns, fun _ _ => ⟨.inr ⟨howns, trivial⟩, hP.2⟩⟩
  · intro _ s hs
    refine checked_safe hkeeps hs ?_
    intro s₁ r s₂ hinv hP hended _ hact
    have howns := (hP.1.resolve_left hended).1
    cases hdb : s₁.db.addBreaking with
    | error e =>
      rw [hdb] at hact
      cases hact
      exact ⟨hinv.step_refl, fun _ _ => hP⟩
    | ok db =>
      rw [hdb] at hact
      cases hact
      exact ⟨hinv.step_addBreaking howns hdb, fun _ _ => ⟨.inr ⟨howns, trivial⟩, hP.2⟩⟩

/-- A run has looked and may act on what it found. -/
def Looked (mode : Mode) (i : ℕ) (rows : List Row) (s : Shared) : Prop :=
  Owning mode i (fun db => db.rows = rows) s ∧ s.found i = some rows ∧ s.applied i = []

theorem keeps_looked (mode : Mode) (i : ℕ) (rows : List Row) : Keeps i (Looked mode i rows) :=
  (keeps_owning mode i _).and
    (keeps_recorded i fun found applied => found = some rows ∧ applied = [])

/-- What a build may find. -/
def Found (all set : List Migration) (rows : List Row) : Prop :=
  (set <+: all ∨ Modified set rows) ∧ ∃ n, rows = (all.take n).map Migration.row

theorem Owns.holds (h : Owns mode i s) : s.Holds i := by
  cases mode with
  | apply => exact .inl h
  | verify => exact .inr h

theorem appliedMigrations_safe (hs : Ready mode i s) :
    Safe (specification all) i (Passes fun rows s => Looked mode i rows s ∧ Found all set rows)
      (appliedMigrations i set) s := by
  have hlook : Safe (specification all) i (Passes fun (exists_ : Bool) s =>
      ∃ rows, Looked mode i rows s ∧ Found all set rows ∧ (exists_ = false → rows = []))
      (checked i (.inspect set) "inspect schema_migrations" fun s => some (.ok s.db.table.isSome,
        { s with found := Function.update s.found i (some s.db.rows) })) s := by
    refine checked_safe (keeps_ready mode i) hs ?_
    intro s₁ r s₂ hinv hP hended hok hact
    cases hact
    have howns := (hP.1.resolve_left hended).1
    refine ⟨hinv.step_of_same rfl rfl rfl rfl (fun j hj => Function.update_of_ne hj ..)
      (fun _ _ => rfl) (.inr ⟨howns.holds, Function.update_self ..⟩), fun b hb => ?_⟩
    obtain ⟨n, hrows, -⟩ := hinv.applied
    refine ⟨s₁.db.rows, ⟨.inr ⟨?_, rfl⟩, Function.update_self .., hP.2⟩,
      ⟨hok set rfl, n, hrows⟩, ?_⟩
    · cases mode <;> exact howns
    · rintro rfl
      have hnone : s₁.db.table = none := by simpa using Except.ok.inj hb
      simp [Database.rows, hnone]
  refine Safe.bind_passes hlook (fun _ _ _ => Safe.ret trivial) ?_
  rintro (_ | _) s ⟨rows, hlooked, hfound, hnil⟩
  · obtain rfl := hnil rfl
    exact Safe.ret ⟨hlooked, hfound⟩
  · refine checked_safe (keeps_looked mode i rows) hlooked ?_
    intro s₁ r s₂ hinv hP hended _ hact
    cases ht : s₁.db.table with
    | none =>
      rw [ht] at hact
      cases hact
      exact ⟨hinv.step_refl, fun b hb => nomatch hb⟩
    | some t =>
      rw [ht] at hact
      cases hact
      refine ⟨hinv.step_refl, fun b hb => ?_⟩
      have hrows : t.rows = rows := by
        have hrows : s₁.db.rows = rows := (hP.1.resolve_left hended).2
        unfold Database.rows at hrows
        rwa [ht] at hrows
      have hread : Database.read t = rows := by
        unfold Database.read
        split
        · exact hrows
        · rename_i hcolumn
          have hnone := hinv.rows_eq_nil ht (Bool.not_eq_true _ ▸ hcolumn)
          rw [← hrows, hnone]
          rfl
      obtain rfl := Except.ok.inj hb
      rw [hread]
      exact ⟨hP, hfound⟩

/-! ### Applying -/

/-- The run holds the lock, `n` migrations are applied, and it has recorded what it found. -/
def Applying (all : List Migration) (i n : ℕ) (rows : List Row) (s : Shared) : Prop :=
  Owning .apply i (fun db => db.rows = (all.take n).map Migration.row) s ∧ s.found i = some rows

theorem keeps_applying (all : List Migration) (i n : ℕ) (rows : List Row) :
    Keeps i (Applying all i n rows) :=
  (keeps_owning .apply i _).and (keeps_recorded i fun found _ => found = some rows)

/-- A statement that leaves everything to the transaction. -/
private theorem pending_safe {act : Shared → Except String β} (hs : Applying all i n rows s) :
    Safe (specification all) i (Passes fun _ s => Applying all i n rows s)
      (checked i l context fun s => some (act s, s)) s := by
  refine checked_safe (keeps_applying all i n rows) hs ?_
  intro s₁ r s₂ hinv hP _ _ hact
  cases hact
  exact ⟨hinv.step_refl, fun _ _ => hP⟩

theorem applyOne_safe (hall : Loaded all) (hm : all.take (n + 1) = all.take n ++ [m])
    (hs : Applying all i n rows s) :
    Safe (specification all) i (Passes fun _ s => Applying all i (n + 1) rows s)
      (applyOne i m) s := by
  refine Safe.bind_passes (pending_safe hs) (fun _ _ _ => Safe.ret trivial) fun _ s hs => ?_
  refine Safe.bind_passes (pending_safe hs) (fun _ _ _ => Safe.ret trivial) fun _ s hs => ?_
  refine Safe.bind_passes (pending_safe hs) (fun _ _ _ => Safe.ret trivial) fun _ s hs => ?_
  refine checked_safe (keeps_applying all i n rows) hs ?_
  intro s₁ r s₂ hinv hP hended _ hact
  obtain ⟨howns, hrows⟩ := hP.1.resolve_left hended
  cases hinsert : s₁.db.insert m with
  | error e =>
    rw [hinsert] at hact
    cases hact
    exact ⟨hinv.step_refl, fun b hb => nomatch hb⟩
  | ok table =>
    rw [hinsert] at hact
    cases hact
    obtain ⟨hstep, hnext⟩ := hinv.step_commit hall howns hrows hm hinsert
    exact ⟨hstep, fun _ _ => ⟨.inr ⟨howns, hnext⟩, hP.2⟩⟩

/-- The migrations that come next are applied one after the other. -/
theorem applyAll_safe (hall : Loaded all) {missing : List Migration}
    (hmissing : missing <+: all.drop n) (report : Report) (hs : Applying all i n rows s) :
    Safe (specification all) i
      (fun answer s => (∀ context e, answer.2 ≠ some (.statement context e)) →
        s.found i = some rows)
      (applyAll i missing report) s := by
  induction missing generalizing n report s with
  | nil => exact Safe.ret fun _ => hs.2
  | cons m rest ih =>
    obtain ⟨later, hlater⟩ := hmissing
    have hdrop : all.drop n = m :: (rest ++ later) := hlater.symm
    have hm : all.take (n + 1) = all.take n ++ [m] := by
      rw [List.take_add, hdrop]
      rfl
    have hrest : rest <+: all.drop (n + 1) := by
      rw [← List.drop_drop, hdrop]
      exact List.prefix_append rest later
    refine Safe.bind_passes (applyOne_safe hall hm hs) (fun context e _ => ?_) fun _ s hs => ?_
    · exact Safe.ret fun h => absurd rfl (h context e)
    · exact ih hrest _ hs

/-- The ledger is no concern of the others. -/
theorem ledgerStep_safe (hs : s.found i = some rows) :
    Safe (specification all) i (fun _ s => s.found i = some rows) (migrateLedger collation) s := by
  refine Safe.perform _ ((keeps_recorded i fun found _ => found = some rows).stable _) hs ?_
  intro s₁ o b s₂ hinv hP _ hact
  have hstep : s₂ = { s₁ with ledger := s₂.ledger } := by
    split at hact
    all_goals
      cases hact
      rfl
  rw [hstep]
  exact ⟨hinv.step_of_same rfl rfl rfl rfl (fun _ _ => rfl) (fun _ _ => rfl) (.inl rfl), hP⟩

/-! ### The whole run -/

/-- What a build decides about the migrations it finds is what is asked of it. -/
theorem honoured_of_judge (hall : Loaded all) (hfound : Found all set rows)
    {verdict : Except RunError (List Migration)} (h : judge mode set rows = (report, verdict)) :
    (∀ e, verdict = .error e → Honoured mode set rows [] (some e)) ∧
    ∀ missing, verdict = .ok missing →
      (mode = .verify → Honoured .verify set rows [] none) ∧
      (mode = .apply → (∀ applied err, Honoured .apply set rows applied err) ∧
        ∃ n, rows = (all.take n).map Migration.row ∧ missing <+: all.drop n) := by
  obtain ⟨hset, n, hrows⟩ := hfound
  by_cases hmodified : Modified set rows
  · obtain ⟨report', m, recorded, hjudge⟩ := judge_modified mode hmodified
    obtain ⟨-, rfl⟩ := Prod.mk.inj (h.symm.trans hjudge)
    refine ⟨fun e he => ?_, fun missing hmissing => nomatch hmissing⟩
    obtain rfl := Except.error.inj he
    refine ⟨fun _ => ⟨⟨m, recorded, rfl⟩, rfl⟩, fun hnot => absurd hmodified hnot, fun _ => ?_⟩
    have hnodup : (rows.map (·.version)).Nodup := by
      rw [hrows, List.map_map]
      exact (hall.nodup.sublist ((List.take_sublist n all).map _))
    exact iff_of_false (by simp) fun happlied => hmodified.not_applied hnodup happlied.1
  · have hstart := hset.resolve_right hmodified
    by_cases hlacks : LacksBreaking set rows
    · obtain ⟨report', breaking, hjudge⟩ := judge_newer mode hmodified hlacks
      obtain ⟨-, rfl⟩ := Prod.mk.inj (h.symm.trans hjudge)
      refine ⟨fun e he => ?_, fun missing hmissing => nomatch hmissing⟩
      obtain rfl := Except.error.inj he
      exact ⟨fun hyes => absurd hyes hmodified, fun _ _ => ⟨⟨_, _, rfl⟩, rfl⟩,
        fun _ => iff_of_false (by simp) fun hno => hno.2 hlacks⟩
    · have hnil := hall.pending_eq_nil_iff hstart hrows
      have hother {applied : List Migration} {err : Option RunError}
          (hverified : mode = .verify → (err = none ↔ ∀ m ∈ set, m.row ∈ rows)) :
          Honoured mode set rows applied err :=
        ⟨fun hyes => absurd hyes hmodified, fun _ hyes => absurd hyes hlacks,
          fun hmode => (hverified hmode).trans (and_iff_left hlacks).symm⟩
      obtain ⟨report', happly, verdict', hverify, hcases⟩ := judge_known hmodified hlacks
      cases mode with
      | apply =>
        obtain ⟨-, rfl⟩ := Prod.mk.inj (h.symm.trans happly)
        refine ⟨fun e he => (nomatch he), fun missing hmissing => ⟨fun hmode => (nomatch hmode),
          fun _ => ⟨fun _ _ => hother fun hmode => (nomatch hmode), n, hrows, ?_⟩⟩⟩
        obtain rfl := Except.ok.inj hmissing
        rw [hall.pending_eq hstart hrows]
        exact hstart.drop n
      | verify =>
        obtain ⟨-, rfl⟩ := Prod.mk.inj (h.symm.trans hverify)
        rcases hcases with ⟨rfl, hpending⟩ | ⟨count, first, rfl, hpending⟩
        · refine ⟨fun e he => (nomatch he),
            fun missing _ => ⟨fun _ => ?_, fun hmode => (nomatch hmode)⟩⟩
          exact hother fun _ => iff_of_true rfl (hnil.mp hpending)
        · refine ⟨fun e he => ?_, fun missing hmissing => (nomatch hmissing)⟩
          obtain rfl := Except.error.inj he
          exact hother fun _ => iff_of_false (by simp) fun hyes => hpending (hnil.mpr hyes)

theorem locked_safe (hall : Loaded all) (hs : Ready mode i s) :
    Safe (specification all) i (Answered mode set i) (locked collation i mode set) s := by
  have hprepared : Safe (specification all) i (Passes fun _ s => Ready mode i s)
      (match mode with | .apply => prepare i | .verify => pure (.ok ())) s := by
    cases mode with
    | apply => exact prepare_safe hs
    | verify => exact Safe.ret hs
  refine Safe.bind_passes hprepared (fun _ _ _ => Safe.ret answered_of_statement) fun _ s hs => ?_
  refine Safe.bind_passes (appliedMigrations_safe hs)
    (fun _ _ _ => Safe.ret answered_of_statement) fun rows s hs => ?_
  obtain ⟨⟨howning, hrecorded, happlied⟩, hfound⟩ := hs
  obtain ⟨report, verdict, hjudge⟩ : ∃ report verdict, judge mode set rows = (report, verdict) :=
    ⟨_, _, rfl⟩
  obtain ⟨herror, hok⟩ := honoured_of_judge hall hfound hjudge
  simp only [hjudge]
  cases verdict with
  | error e => exact Safe.ret fun _ => ⟨rows, hrecorded, happlied ▸ herror e rfl⟩
  | ok missing =>
    cases mode with
    | verify => exact Safe.ret fun _ => ⟨rows, hrecorded, happlied ▸ (hok missing rfl).1 rfl⟩
    | apply =>
      obtain ⟨hany, n, hrows, hmissing⟩ := (hok missing rfl).2 rfl
      have happlying : Applying all i n rows s := ⟨hrows ▸ howning, hrecorded⟩
      refine Safe.bind ((applyAll_safe hall hmissing report happlying).mono ?_)
      rintro ⟨report, err⟩ s h
      cases err with
      | some e => exact Safe.ret fun hno => ⟨rows, h hno, hany _ _⟩
      | none =>
        refine Safe.bind ((ledgerStep_safe (h (by simp))).mono ?_)
        exact fun _ _ hrecorded => Safe.ret fun _ => ⟨rows, hrecorded, hany _ _⟩

theorem run_safe (hall : Loaded all) (collation : KeyOrder String) (i : ℕ) (c : Call) (s : Shared) :
    Safe (specification all) i
      (fun answer s => ∀ set, c.migrations = .ok set → Answered c.mode set i answer s)
      (run collation i c) s := by
  unfold run
  split
  · rename_i e he
    exact Safe.ret fun set hset => (nomatch he.symm.trans hset)
  · rename_i set hset
    have hsame {answer : Answer} {s : Shared} (h : Answered c.mode set i answer s) :
        ∀ set', c.migrations = .ok set' → Answered c.mode set' i answer s := by
      intro set' hset'
      obtain rfl := Except.ok.inj (hset.symm.trans hset')
      exact h
    refine Safe.bind_passes (Q := fun _ s => s.applied i = [])
      (checked_safe (P := fun _ => True) (fun _ _ _ h => h) trivial ?_)
      (fun _ _ _ => Safe.ret (hsame answered_of_statement)) fun _ s hs => ?_
    · intro s₁ r s₂ hinv _ _ _ hact
      cases hact
      exact ⟨hinv.step_of_same rfl rfl rfl rfl (fun _ _ => rfl)
        (fun j hj => Function.update_of_ne hj ..) (.inl rfl), fun _ _ => Function.update_self ..⟩
    refine Safe.bind_passes (Q := fun _ s => Ready c.mode i s)
      (checked_safe (keeps_recorded i fun _ applied => applied = []) hs ?_)
      (fun _ _ _ => Safe.ret (hsame answered_of_statement)) fun _ s hs => ?_
    · intro s₁ r s₂ hinv hP hended _ hact
      obtain ⟨s₃, hlock, hpair⟩ := Option.map_eq_some_iff.mp hact
      obtain ⟨-, rfl⟩ := Prod.mk.inj hpair
      obtain ⟨howns, happlied⟩ := owns_of_lock hlock
      exact ⟨hinv.step_lock hended hlock, fun _ _ => ⟨.inr ⟨howns, trivial⟩, happlied ▸ hP⟩⟩
    refine Safe.bind ((locked_safe hall hs).mono fun answer s hs => ?_)
    refine Safe.bind (statement_safe (keeps_answered c.mode set i answer) hs
      (fun _ s h => Safe.ret (hsame h)) ?_)
    intro s₁ r s₂ hinv hP _ _ hact
    cases hact
    have hkept : Answered c.mode set i answer (s₁.unlock c.mode i) := by
      unfold Answered
      rw [(recorded_unlock s₁ c.mode i).1, (recorded_unlock s₁ c.mode i).2]
      exact hP
    exact ⟨hinv.step_unlock c.mode i, Safe.ret (hsame hkept), fun _ => Safe.ret (hsame hkept)⟩

end Argus.Migrations

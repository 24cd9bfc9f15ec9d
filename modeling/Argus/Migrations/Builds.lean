import Argus.Migrations.Run
import Mathlib.Data.List.Infix

/-!
# Builds and an applied prefix

What a build decides depends on two things only: whether an applied migration that it knows has
another checksum, and whether an applied migration that it does not know is breaking. A build whose
set is a prefix of the list from which migrations were applied finds neither of the first, and its
pending migrations are the ones that come next in the list.
-/

namespace Argus.Migrations

variable {all set : List Migration} {rows : List Row} {n : ℕ}

/-- The build has an applied migration with another checksum. -/
def Modified (set : List Migration) (rows : List Row) : Prop :=
  ∃ r ∈ rows, ∃ m, known set r.version = some m ∧ m.checksum ≠ r.checksum

/-- The build lacks an applied migration that is breaking. -/
def LacksBreaking (set : List Migration) (rows : List Row) : Prop :=
  ∃ r ∈ rows, known set r.version = none ∧ r.breaking = true

theorem of_known_eq_some {version : ℕ} {m : Migration} (h : known set version = some m) :
    m ∈ set ∧ m.version = version := by
  refine ⟨List.mem_reverse.mp (List.mem_of_find?_eq_some h), ?_⟩
  have hsel := List.find?_some h
  exact beq_iff_eq.mp hsel

/-! ## Judging -/

/-- The loop stops at a migration with another checksum. -/
theorem compare_modified (h : Modified set rows) (report : Report) (breaking : List String) :
    ∃ report' m recorded,
      compare set rows report breaking = (report', .error (.modified m recorded)) := by
  induction rows generalizing report breaking with
  | nil => simp [Modified] at h
  | cons row rows ih =>
    obtain ⟨r, hr, m, hm, hne⟩ := h
    rcases List.mem_cons.mp hr with rfl | hr
    · rw [compare, hm]
      exact ⟨report, m, r.checksum, if_pos hne.symm⟩
    · rw [compare]
      split
      · exact ih ⟨r, hr, m, hm, hne⟩ _ _
      · split
        · exact ⟨_, _, _, rfl⟩
        · exact ih ⟨r, hr, m, hm, hne⟩ _ _

/-- Without one it collects the breaking migrations that the build does not know. -/
theorem compare_eq (h : ¬ Modified set rows) (report : Report) (breaking : List String) :
    ∃ report', compare set rows report breaking = (report', .ok (breaking ++
      (rows.filter fun r => (known set r.version).isNone && r.breaking).map
        fun r => numbered r.version r.name)) := by
  induction rows generalizing report breaking with
  | nil => exact ⟨report, by simp [compare]⟩
  | cons row rows ih =>
    have hrest : ¬ Modified set rows :=
      fun ⟨r, hr, hmod⟩ => h ⟨r, List.mem_cons_of_mem _ hr, hmod⟩
    cases hknown : known set row.version with
    | none =>
      obtain ⟨report', hcompare⟩ := ih hrest
        { report with newer := report.newer ++ [row.version] }
        (if row.breaking then breaking ++ [numbered row.version row.name] else breaking)
      refine ⟨report', ?_⟩
      rw [compare, hknown]
      refine hcompare.trans ?_
      cases hbreaking : row.breaking <;> simp [hknown, hbreaking]
    | some m =>
      have hsame : row.checksum = m.checksum := by
        by_contra hne
        exact h ⟨row, List.mem_cons_self, m, hknown, fun heq => hne heq.symm⟩
      obtain ⟨report', hcompare⟩ := ih hrest report breaking
      refine ⟨report', ?_⟩
      rw [compare, hknown]
      simp only [hsame, ne_eq, not_true_eq_false, if_false]
      rw [hcompare, List.filter_cons_of_neg (by simp [hknown])]

theorem mem_ordered {r : Row} : r ∈ ordered rows ↔ r ∈ rows := Sorting.mem_stableSort

theorem judge_modified (mode : Mode) (h : Modified set rows) :
    ∃ report m recorded, judge mode set rows = (report, .error (.modified m recorded)) := by
  obtain ⟨r, hr, hmod⟩ := h
  obtain ⟨report, m, recorded, hcompare⟩ := compare_modified ⟨r, mem_ordered.mpr hr, hmod⟩ {} []
  exact ⟨report, m, recorded, by rw [judge, hcompare]⟩

/-- The names under which the loop collects what is missing. -/
private theorem compare_ordered (h : ¬ Modified set rows) :
    ∃ report breaking, compare set (ordered rows) {} [] = (report, .ok breaking) ∧
      (breaking = [] ↔ ¬ LacksBreaking set rows) := by
  have hordered : ¬ Modified set (ordered rows) :=
    fun ⟨r, hr, hmod⟩ => h ⟨r, mem_ordered.mp hr, hmod⟩
  obtain ⟨report, hcompare⟩ := compare_eq hordered {} []
  refine ⟨report, _, hcompare, ?_⟩
  rw [List.nil_append, List.map_eq_nil_iff, List.filter_eq_nil_iff]
  constructor
  · rintro hnone ⟨r, hr, hknown, hbreaking⟩
    exact hnone r (mem_ordered.mpr hr) (by simp [hknown, hbreaking])
  · intro hnone r hr hsel
    rw [Bool.and_eq_true, Option.isNone_iff_eq_none] at hsel
    exact hnone ⟨r, mem_ordered.mp hr, hsel⟩

theorem judge_newer (mode : Mode) (hmodified : ¬ Modified set rows) (h : LacksBreaking set rows) :
    ∃ report breaking, judge mode set rows = (report, .error (.newer breaking set.length)) := by
  obtain ⟨report, breaking, hcompare, hiff⟩ := compare_ordered hmodified
  refine ⟨report, breaking, ?_⟩
  rw [judge, hcompare]
  exact if_pos fun hnil => hiff.mp hnil h

/-- A build that neither is modified nor lacks a breaking migration. -/
theorem judge_known (hmodified : ¬ Modified set rows) (h : ¬ LacksBreaking set rows) :
    ∃ report, judge .apply set rows = (report, .ok (pending set rows)) ∧
      ∃ verdict, judge .verify set rows = (report, verdict) ∧
        (verdict = .ok [] ∧ pending set rows = [] ∨
          ∃ count first, verdict = .error (.behind count first) ∧ pending set rows ≠ []) := by
  obtain ⟨report, breaking, hcompare, hiff⟩ := compare_ordered hmodified
  obtain rfl := hiff.mpr h
  refine ⟨report, ?_, ?_⟩
  · rw [judge, hcompare]
    rfl
  · cases hpending : pending set rows with
    | nil =>
      refine ⟨.ok [], ?_, .inl ⟨rfl, rfl⟩⟩
      rw [judge, hcompare, hpending]
      rfl
    | cons first rest =>
      refine ⟨.error (.behind (rest.length + 1) first), ?_,
        .inr ⟨_, _, rfl, List.cons_ne_nil _ _⟩⟩
      rw [judge, hcompare, hpending]
      rfl

theorem pending_eq_nil : pending set rows = [] ↔ ∀ m ∈ set, ∃ r ∈ rows, r.version = m.version := by
  rw [pending, List.filter_eq_nil_iff]
  refine forall₂_congr fun m _ => ?_
  rw [Bool.not_eq_true, Bool.not_eq_false', List.any_eq_true]
  simp

/-! ## Prefixes -/

/-- Rows of the list with one version are of one migration. -/
theorem Loaded.eq_of_version (h : Loaded all) {m m' : Migration} (hm : m ∈ all) (hm' : m' ∈ all)
    (hversion : m.version = m'.version) : m = m' :=
  List.inj_on_of_nodup_map h.nodup hm hm' hversion

section

variable (h : Loaded all) (hset : set <+: all) (hrows : rows = (all.take n).map Migration.row)

include h hset hrows

theorem Loaded.not_modified : ¬ Modified set rows := by
  rintro ⟨r, hr, m, hknown, hne⟩
  subst hrows
  obtain ⟨m', hm', rfl⟩ := List.mem_map.mp hr
  obtain ⟨hm, hversion⟩ := of_known_eq_some hknown
  obtain rfl := h.eq_of_version (hset.subset hm) (List.mem_of_mem_take hm') hversion
  exact hne rfl

/-- What is pending is what comes next. -/
theorem Loaded.pending_eq : pending set rows = set.drop n := by
  subst hrows
  rw [pending]
  conv_lhs => rw [← List.take_append_drop n set]
  rw [List.filter_append, List.filter_eq_nil_iff.mpr, List.nil_append, List.filter_eq_self]
  · -- versions beyond the first `n` are not among them
    intro m hm
    have hdrop : m ∈ all.drop n := (hset.drop n).subset hm
    rw [Bool.not_eq_true', List.any_eq_false]
    intro r hr
    obtain ⟨m', hm', rfl⟩ := List.mem_map.mp hr
    intro hversion
    obtain rfl := h.eq_of_version (List.mem_of_mem_take hm') (List.mem_of_mem_drop hdrop)
      (beq_iff_eq.mp hversion)
    have hnodup : all.Nodup := h.nodup.of_map
    exact List.disjoint_take_drop hnodup le_rfl hm' hdrop
  · intro m hm
    rw [Bool.not_eq_true, Bool.not_eq_false', List.any_eq_true]
    exact ⟨m.row, List.mem_map_of_mem ((hset.take n).subset hm), beq_self_eq_true _⟩

/-- The set of a build is applied when nothing is pending. -/
theorem Loaded.pending_eq_nil_iff : pending set rows = [] ↔ ∀ m ∈ set, m.row ∈ rows := by
  rw [pending_eq_nil]
  refine forall₂_congr fun m hm => ⟨?_, fun hrow => ⟨m.row, hrow, rfl⟩⟩
  rintro ⟨r, hr, hversion⟩
  subst hrows
  obtain ⟨m', hm', rfl⟩ := List.mem_map.mp hr
  obtain rfl := h.eq_of_version (hset.subset hm) (List.mem_of_mem_take hm') hversion.symm
  exact hr

end

/-- A modified build does not have its whole set applied. -/
theorem Modified.not_applied (h : Modified set rows) (hnodup : (rows.map (·.version)).Nodup) :
    ¬ ∀ m ∈ set, m.row ∈ rows := by
  obtain ⟨r, hr, m, hknown, hne⟩ := h
  intro hall
  obtain ⟨hm, hversion⟩ := of_known_eq_some hknown
  obtain rfl := List.inj_on_of_nodup_map hnodup (hall m hm) hr hversion
  exact hne rfl

end Argus.Migrations

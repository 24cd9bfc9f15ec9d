import Mathlib.Data.List.Nodup
import Mathlib.Data.List.Sort

/-!
# Tables

A table is the list of its rows. `updateIf` is an update of the rows that a condition selects; rows keep
their order and their number, and a row after the update is either as it was or was set.
-/

namespace Argus.Table

variable {ρ κ : Type*} {p : ρ → Prop} [DecidablePred p] {f : ρ → ρ} {rows : List ρ}

/-- `UPDATE ... SET f WHERE p`. -/
def updateIf (p : ρ → Prop) [DecidablePred p] (f : ρ → ρ) (rows : List ρ) : List ρ :=
  rows.map fun r => if p r then f r else r

/-- A row after an update: as before, or set. -/
theorem mem_updateIf {r' : ρ} (h : r' ∈ updateIf p f rows) :
    ∃ r ∈ rows, r' = r ∧ ¬ p r ∨ r' = f r ∧ p r := by
  obtain ⟨r, hr, rfl⟩ := List.mem_map.mp h
  refine ⟨r, hr, ?_⟩
  by_cases hp : p r
  · exact .inr ⟨if_pos hp, hp⟩
  · exact .inl ⟨if_neg hp, hp⟩

/-- Every row has a row after the update. -/
theorem exists_mem_updateIf {r : ρ} (h : r ∈ rows) :
    ∃ r' ∈ updateIf p f rows, r' = r ∧ ¬ p r ∨ r' = f r ∧ p r := by
  refine ⟨_, List.mem_map_of_mem h, ?_⟩
  by_cases hp : p r
  · exact .inr ⟨if_pos hp, hp⟩
  · exact .inl ⟨if_neg hp, hp⟩

/-- An update that keeps its condition touches no row outside of it. -/
theorem mem_updateIf_iff_of_not (hf : ∀ r, p r → p (f r)) {r : ρ} (hr : ¬ p r) :
    r ∈ updateIf p f rows ↔ r ∈ rows := by
  constructor
  · intro h
    obtain ⟨r', hr', ⟨rfl, -⟩ | ⟨rfl, hp⟩⟩ := mem_updateIf h
    · exact hr'
    · exact absurd (hf r' hp) hr
  · intro h
    obtain ⟨r', hr', ⟨rfl, -⟩ | ⟨-, hp⟩⟩ := exists_mem_updateIf (p := p) (f := f) h
    · exact hr'
    · exact absurd hp hr

/-- Columns that the update does not set. -/
theorem map_updateIf {key : ρ → κ} (hf : ∀ r, key (f r) = key r) (rows : List ρ) :
    (updateIf p f rows).map key = rows.map key := by
  rw [updateIf, List.map_map]
  refine List.map_congr_left fun r _ => ?_
  by_cases hp : p r
  · simp [hp, hf]
  · simp [hp]

/-- A selection that an update neither takes from nor adds to. -/
theorem filter_updateIf {q : ρ → Bool} (h : ∀ r, p r → q r = false ∧ q (f r) = false)
    (rows : List ρ) : (updateIf p f rows).filter q = rows.filter q := by
  induction rows with
  | nil => rfl
  | cons r rows ih =>
    rw [updateIf, List.map_cons, List.filter_cons, List.filter_cons, ← updateIf, ih]
    by_cases hp : p r
    · rw [if_pos hp, (h r hp).1, (h r hp).2]
      simp only [Bool.false_eq_true, if_false]
    · rw [if_neg hp]

section

variable {key : ρ → κ} (h : (rows.map key).Nodup)

include h

/-- A row is determined by a unique column. -/
theorem eq_of_key_eq {r r' : ρ} (hr : r ∈ rows) (hr' : r' ∈ rows) (hkey : key r = key r') :
    r = r' :=
  List.inj_on_of_nodup_map h hr hr' hkey

theorem nodup_map_concat {r : ρ} (hr : ∀ r' ∈ rows, key r' ≠ key r) :
    ((rows ++ [r]).map key).Nodup := by
  rw [List.map_append, List.map_singleton, List.nodup_append]
  refine ⟨h, by simp, ?_⟩
  simpa using hr

/-- With unique keys a row is the only one under its key. -/
theorem filter_key_eq [DecidableEq κ] {r : ρ} (hr : r ∈ rows) :
    rows.filter (fun x => key x = key r) = [r] := by
  induction rows with
  | nil => cases hr
  | cons x rows ih =>
    rw [List.map_cons, List.nodup_cons] at h
    by_cases hkey : key x = key r
    · obtain rfl | hr := List.mem_cons.mp hr
      · rw [List.filter_cons_of_pos (by simp), List.filter_eq_nil_iff.mpr]
        intro y hy hyr
        exact h.1 (List.mem_map.mpr ⟨y, hy, by simpa using hyr⟩)
      · exact absurd (hkey ▸ List.mem_map_of_mem hr) h.1
    · rw [List.filter_cons_of_neg (by simpa using hkey)]
      refine ih h.2 ((List.mem_cons.mp hr).resolve_left ?_)
      rintro rfl
      exact hkey rfl

theorem length_filter_key_le_one [DecidableEq κ] (k : κ) :
    (rows.filter fun x => key x = k).length ≤ 1 := by
  cases hrows : rows.filter fun x => key x = k with
  | nil => simp
  | cons r rest =>
    have hr : r ∈ rows.filter fun x => key x = k := hrows ▸ List.mem_cons_self
    obtain ⟨hr, hkey⟩ := List.mem_filter.mp hr
    have hkey : key r = k := by simpa using hkey
    have hone := filter_key_eq h hr
    rw [hkey, hrows] at hone
    rw [hone]
    rfl

end

/-! ## `SELECT ... WHERE ... ORDER BY ... LIMIT` -/

section

variable {select : ρ → Bool} {order : ρ → ρ → Prop} [DecidableRel order] {limit : ℕ}

/-- A selected row is one of the table. -/
theorem mem_of_mem_select {r : ρ} (h : r ∈ ((rows.filter select).insertionSort order).take limit) :
    r ∈ rows ∧ select r = true := by
  have hsorted := List.mem_of_mem_take h
  rwa [List.mem_insertionSort, List.mem_filter] at hsorted

/-- No row is selected twice. -/
theorem nodup_select {key : ρ → κ} (h : (rows.map key).Nodup) :
    ((((rows.filter select).insertionSort order).take limit).map key).Nodup := by
  have hfilter : ((rows.filter select).map key).Nodup := h.sublist (List.filter_sublist.map key)
  have hsorted : (((rows.filter select).insertionSort order).map key).Nodup :=
    ((List.perm_insertionSort order _).map key).nodup_iff.mpr hfilter
  exact hsorted.sublist ((List.take_sublist limit _).map key)

end

/-- Where two tables correspond row by row, every row has its counterpart. -/
theorem exists_of_forall₂ {σ : Type*} {R : ρ → σ → Prop} {rows' : List σ}
    (h : List.Forall₂ R rows rows') {r' : σ} (hr' : r' ∈ rows') : ∃ r ∈ rows, R r r' := by
  induction h with
  | nil => cases hr'
  | @cons r₀ r₀' _ _ hrow _ ih =>
    rcases List.mem_cons.mp hr' with rfl | hr'
    · exact ⟨r₀, List.mem_cons_self, hrow⟩
    · obtain ⟨r, hr, hrr'⟩ := ih hr'
      exact ⟨r, List.mem_cons_of_mem _ hr, hrr'⟩

/-- Selections of which every row belongs to exactly one take the table apart. -/
theorem perm_flatMap_filter {ι : Type*} {select : ι → ρ → Bool} {parts : List ι} {rows : List ρ}
    (hcover : ∀ r ∈ rows, ∃ i ∈ parts, select i r = true)
    (hdisjoint : parts.Pairwise fun i j => ∀ r ∈ rows, select i r = true → select j r = false) :
    (parts.flatMap fun i => rows.filter (select i)).Perm rows := by
  induction parts generalizing rows with
  | nil =>
    have hnil : rows = [] := List.eq_nil_iff_forall_not_mem.mpr fun r hr => by
      obtain ⟨i, hi, -⟩ := hcover r hr
      cases hi
    rw [hnil]
    rfl
  | cons i parts ih =>
    rw [List.pairwise_cons] at hdisjoint
    have hrest : ∀ j ∈ parts, rows.filter (select j) =
        (rows.filter fun r => !select i r).filter (select j) := fun j hj => by
      rw [List.filter_filter]
      refine List.filter_congr fun r hr => ?_
      cases hi : select i r with
      | true => simp [hdisjoint.1 j hj r hr hi]
      | false => simp
    have hcover' : ∀ r ∈ rows.filter fun r => !select i r, ∃ j ∈ parts, select j r = true := by
      intro r hr
      obtain ⟨hmem, hnot⟩ := List.mem_filter.mp hr
      obtain ⟨j, hj, hsel⟩ := hcover r hmem
      rcases List.mem_cons.mp hj with rfl | hj
      · simp [hsel] at hnot
      · exact ⟨j, hj, hsel⟩
    have hperm := ih hcover' (hdisjoint.2.imp fun h r hr => h r (List.mem_of_mem_filter hr))
    rw [List.flatMap_cons, List.flatMap_congr hrest]
    exact (hperm.append_left _).trans (List.filter_append_perm (select i) rows)

end Argus.Table

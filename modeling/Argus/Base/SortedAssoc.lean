import Mathlib

/-!
# Association lists sorted by key

Collecting the members of an object into a sorted list without duplicate keys, the last member of a
key winning. Two such lists, sorted by the same order, are equal when every lookup agrees, so
collecting under one order and then under another keeps only the latter.
-/

namespace Argus.SortedAssoc

/-- A decidable strict total order on keys. -/
structure KeyOrder (σ : Type*) where
  lt : σ → σ → Prop
  [decidable : DecidableRel lt]
  irrefl : ∀ a, ¬ lt a a
  trans : ∀ a b c, lt a b → lt b c → lt a c
  connected : ∀ a b, a ≠ b → lt a b ∨ lt b a

attribute [instance] KeyOrder.decidable

/-- The order of a linearly ordered sort key. -/
def KeyOrder.ofKey {σ κ : Type*} [LinearOrder κ] (key : σ → κ) (hkey : Function.Injective key) :
    KeyOrder σ where
  lt a b := key a < key b
  irrefl a := lt_irrefl (key a)
  trans _ _ _ := lt_trans
  connected _ _ hne := lt_or_gt_of_ne (hkey.ne hne)

variable {σ α β : Type*} [DecidableEq σ]

/-- The value of the first member with a key. -/
def lookup (k : σ) : List (σ × α) → Option α
  | [] => none
  | (k', v) :: ms => if k = k' then some v else lookup k ms

/-- Insert a member at its place, in place of the one with its key if there is one. -/
def insert (o : KeyOrder σ) (k : σ) (v : α) : List (σ × α) → List (σ × α)
  | [] => [(k, v)]
  | (k', v') :: ms =>
    if o.lt k k' then (k, v) :: (k', v') :: ms
    else if k = k' then (k, v) :: ms
    else (k', v') :: insert o k v ms

/-- Insert all members in turn. -/
def collect (o : KeyOrder σ) (ms : List (σ × α)) : List (σ × α) :=
  ms.foldl (fun acc m => insert o m.1 m.2 acc) []

/-- Strictly increasing keys. -/
def Sorted (o : KeyOrder σ) (ms : List (σ × α)) : Prop := ms.Pairwise fun m n => o.lt m.1 n.1

variable {o : KeyOrder σ}

/-! ## Lookup -/

variable {ms : List (σ × α)} {k : σ}

theorem lookup_eq_none (h : ∀ m ∈ ms, k ≠ m.1) : lookup k ms = none := by
  induction ms with
  | nil => rfl
  | cons m ms ih =>
    rw [lookup, if_neg (h m List.mem_cons_self)]
    exact ih fun n hn => h n (List.mem_cons_of_mem _ hn)

variable {v : α}

theorem mem_of_lookup (h : lookup k ms = some v) : (k, v) ∈ ms := by
  induction ms with
  | nil => simp [lookup] at h
  | cons m ms ih =>
    obtain ⟨k', v'⟩ := m
    rw [lookup] at h
    split at h
    · rename_i hk
      cases h
      exact hk ▸ List.mem_cons_self
    · exact List.mem_cons_of_mem _ (ih h)

theorem exists_lookup_of_mem (h : (k, v) ∈ ms) : ∃ w, lookup k ms = some w := by
  induction ms with
  | nil => cases h
  | cons m ms ih =>
    obtain ⟨k', v'⟩ := m
    rw [lookup]
    split
    · exact ⟨v', rfl⟩
    · rename_i hk
      rcases List.mem_cons.mp h with heq | hmem
      · exact absurd (congrArg Prod.fst heq) hk
      · exact ih hmem

theorem lookup_append (k : σ) (ms ns : List (σ × α)) :
    lookup k (ms ++ ns) = (lookup k ms).or (lookup k ns) := by
  induction ms with
  | nil => rfl
  | cons m ms ih =>
    simp only [List.cons_append, lookup]
    split
    · rfl
    · exact ih

theorem lookup_map (f : α → β) (k : σ) (ms : List (σ × α)) :
    lookup k (ms.map fun m => (m.1, f m.2)) = (lookup k ms).map f := by
  induction ms with
  | nil => rfl
  | cons m ms ih =>
    simp only [List.map_cons, lookup]
    split
    · rfl
    · exact ih

omit [DecidableEq σ] in
variable {m : σ × α}

/-- The first key of a sorted list is none of the later ones. -/
theorem Sorted.head_ne {n : σ × α} (h : Sorted o (m :: ms)) (hn : n ∈ ms) : m.1 ≠ n.1 := by
  intro heq
  have hlt := (List.pairwise_cons.mp h).1 n hn
  rw [← heq] at hlt
  exact o.irrefl _ hlt

theorem lookup_of_mem (h : Sorted o ms) (hm : m ∈ ms) : lookup m.1 ms = some m.2 := by
  induction ms with
  | nil => cases hm
  | cons n ms ih =>
    obtain ⟨k', v'⟩ := n
    rcases List.mem_cons.mp hm with rfl | hm
    · simp [lookup]
    · have hne : m.1 ≠ k' := fun heq => h.head_ne hm heq.symm
      rw [lookup, if_neg hne]
      exact ih (List.pairwise_cons.mp h).2 hm

theorem lookup_eq_some_iff (h : Sorted o ms) : lookup k ms = some v ↔ (k, v) ∈ ms :=
  ⟨mem_of_lookup, fun hm => lookup_of_mem h hm⟩

/-- In a sorted list the first and the last member of a key are the same. -/
theorem lookup_reverse (h : Sorted o ms) (k : σ) : lookup k ms.reverse = lookup k ms := by
  induction ms with
  | nil => rfl
  | cons m ms ih =>
    obtain ⟨k', v'⟩ := m
    rw [List.reverse_cons, lookup_append, ih (List.pairwise_cons.mp h).2, lookup]
    by_cases hk : k = k'
    · subst hk
      have hnone : lookup k ms = none := lookup_eq_none fun n hn => h.head_ne hn
      simp [hnone, lookup]
    · simp [hk, lookup]

/-- Sorted lists with the same lookups are equal. -/
theorem Sorted.ext {ns : List (σ × α)} (hms : Sorted o ms) (hns : Sorted o ns)
    (h : ∀ k, lookup k ms = lookup k ns) : ms = ns := by
  have hmem : ∀ m, m ∈ ms ↔ m ∈ ns := fun m => by
    rw [← lookup_eq_some_iff (k := m.1) (v := m.2) hms, h,
      lookup_eq_some_iff (k := m.1) (v := m.2) hns]
  have hnodup : ∀ {l : List (σ × α)}, Sorted o l → l.Nodup := fun hl =>
    hl.imp fun {a b} hab (heq : a = b) => o.irrefl _ (heq ▸ hab)
  have hperm := (List.perm_ext_iff_of_nodup (hnodup hms) (hnodup hns)).mpr hmem
  refine hperm.eq_of_pairwise (fun a b _ _ hab hba => ?_) hms hns
  exact absurd (o.trans _ _ _ hab hba) (o.irrefl _)

/-! ## Insertion -/

theorem mem_insert (h : m ∈ insert o k v ms) : m = (k, v) ∨ m ∈ ms := by
  induction ms with
  | nil => exact Or.inl (by simpa [insert] using h)
  | cons n ms ih =>
    rw [insert] at h
    split at h
    · simpa using h
    · split at h
      · rcases List.mem_cons.mp h with h | h
        · exact Or.inl h
        · exact Or.inr (List.mem_cons_of_mem _ h)
      · rcases List.mem_cons.mp h with rfl | h
        · exact Or.inr List.mem_cons_self
        · exact (ih h).imp_right (List.mem_cons_of_mem _)

theorem Sorted.insert (h : Sorted o ms) (k : σ) (v : α) : Sorted o (insert o k v ms) := by
  induction ms with
  | nil => exact List.pairwise_singleton _ _
  | cons m ms ih =>
    obtain ⟨k', v'⟩ := m
    have hms := (List.pairwise_cons.mp h).2
    have hhead := (List.pairwise_cons.mp h).1
    simp only [SortedAssoc.insert]
    split
    · rename_i hlt
      refine List.pairwise_cons.mpr ⟨fun n hn => ?_, h⟩
      rcases List.mem_cons.mp hn with rfl | hn
      · exact hlt
      · exact o.trans _ _ _ hlt (hhead n hn)
    · split
      · rename_i hk
        subst hk
        exact List.pairwise_cons.mpr ⟨hhead, hms⟩
      · rename_i hnlt hk
        refine List.pairwise_cons.mpr ⟨fun n hn => ?_, ih hms⟩
        rcases mem_insert hn with rfl | hn
        · exact (o.connected _ _ hk).resolve_left hnlt
        · exact hhead n hn

theorem lookup_insert (h : Sorted o ms) (k j : σ) (v : α) :
    lookup j (insert o k v ms) = if j = k then some v else lookup j ms := by
  induction ms with
  | nil => simp [insert, lookup]
  | cons m ms ih =>
    obtain ⟨k', v'⟩ := m
    rw [insert]
    split
    · rfl
    · split
      · rename_i hk
        subst hk
        by_cases hj : j = k <;> simp [lookup, hj]
      · rename_i hk
        rw [lookup, ih (List.pairwise_cons.mp h).2, lookup]
        by_cases hj : j = k' <;> by_cases hjk : j = k <;> simp_all

theorem insert_map (f : α → β) (k : σ) (v : α) (ms : List (σ × α)) :
    insert o k (f v) (ms.map fun m => (m.1, f m.2)) = (insert o k v ms).map fun m => (m.1, f m.2) := by
  induction ms with
  | nil => rfl
  | cons m ms ih =>
    simp only [List.map_cons, insert]
    split
    · rfl
    · split
      · rfl
      · rw [ih]
        rfl

/-! ## Collecting -/

/-- Inserting into an accumulator, as one step of `collect` from it. -/
theorem collect_append_singleton (ms : List (σ × α)) (m : σ × α) :
    collect o (ms ++ [m]) = insert o m.1 m.2 (collect o ms) := by
  simp [collect]

theorem sorted_collect (o : KeyOrder σ) (ms : List (σ × α)) : Sorted o (collect o ms) := by
  induction ms using List.reverseRecOn with
  | nil => exact List.Pairwise.nil
  | append_singleton ms m ih =>
    rw [collect_append_singleton]
    exact ih.insert m.1 m.2

theorem mem_of_mem_collect (h : m ∈ collect o ms) : m ∈ ms := by
  induction ms using List.reverseRecOn with
  | nil => exact h
  | append_singleton ms n ih =>
    rw [collect_append_singleton] at h
    rcases mem_insert h with rfl | h
    · exact List.mem_append_right _ List.mem_cons_self
    · exact List.mem_append_left _ (ih h)

/-- The last member of a key wins. -/
theorem lookup_collect (ms : List (σ × α)) (k : σ) :
    lookup k (collect o ms) = lookup k ms.reverse := by
  induction ms using List.reverseRecOn with
  | nil => rfl
  | append_singleton ms m ih =>
    rw [collect_append_singleton, lookup_insert (sorted_collect o ms), ih, List.reverse_append]
    rfl

theorem collect_map (f : α → β) (ms : List (σ × α)) :
    collect o (ms.map fun m => (m.1, f m.2)) = (collect o ms).map fun m => (m.1, f m.2) := by
  induction ms using List.reverseRecOn with
  | nil => rfl
  | append_singleton ms m ih =>
    rw [List.map_append, List.map_singleton, collect_append_singleton, ih,
      collect_append_singleton]
    exact insert_map f m.1 m.2 _

/-- Only the last collection determines the order, and no collection loses a lookup. -/
theorem collect_collect (o o' : KeyOrder σ) (ms : List (σ × α)) :
    collect o (collect o' ms) = collect o ms := by
  refine (sorted_collect o _).ext (sorted_collect o _) fun k => ?_
  rw [lookup_collect, lookup_collect, lookup_reverse (sorted_collect o' ms), lookup_collect]

end Argus.SortedAssoc

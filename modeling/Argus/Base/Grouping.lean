import Argus.Base.SortedAssoc
import Mathlib.Data.List.Nodup

/-!
# Collecting a list by key

A loop over a list that keeps one entry for each key, in the order in which the keys first appear: a
map from keys to entries together with the list of its keys. The entry of a key is what the loop
over the elements with that key alone gives.
-/

namespace Argus.Grouping

open SortedAssoc (lookup)

variable {α κ β : Type*} [DecidableEq κ]

/-- Change the entry of a key, or add one at the end. -/
def upsert (f : Option β → β) (k : κ) : List (κ × β) → List (κ × β)
  | [] => [(k, f none)]
  | (k', v) :: ms => if k = k' then (k', f (some v)) :: ms else (k', v) :: upsert f k ms

/-- The loop: `f` changes the entry of an element's key. -/
def groupWith (key : α → κ) (f : Option β → α → β) (l : List α) : List (κ × β) :=
  l.foldl (fun ms a => upsert (fun v => f v a) (key a) ms) []

/-- The entry that the elements with one key give. -/
def entryOf (f : Option β → α → β) (l : List α) : Option β :=
  l.foldl (fun v a => some (f v a)) none

/-- Where no key occurs twice, an entry is the one that its key finds. -/
theorem lookup_of_nodup_keys {k : κ} {v : β} {ms : List (κ × β)} (hnodup : (ms.map Prod.fst).Nodup)
    (h : (k, v) ∈ ms) : lookup k ms = some v := by
  induction ms with
  | nil => cases h
  | cons m ms ih =>
    obtain ⟨j, w⟩ := m
    rw [List.map_cons, List.nodup_cons] at hnodup
    rcases List.mem_cons.mp h with heq | hrest
    · cases heq
      rw [lookup, if_pos rfl]
    · have hne : k ≠ j := by
        rintro rfl
        exact hnodup.1 (List.mem_map.mpr ⟨(k, v), hrest, rfl⟩)
      rw [lookup, if_neg hne]
      exact ih hnodup.2 hrest

theorem lookup_map_entries {γ : Type*} (g : κ → β → γ) (k : κ) (ms : List (κ × β)) :
    lookup k (ms.map fun m => (m.1, g m.1 m.2)) = (lookup k ms).map (g k) := by
  induction ms with
  | nil => rfl
  | cons m ms ih =>
    simp only [List.map_cons, lookup]
    split
    · rename_i hk
      rw [hk]
      rfl
    · exact ih

/-! ## One change -/

theorem lookup_upsert (f : Option β → β) (k k' : κ) (ms : List (κ × β)) :
    lookup k' (upsert f k ms) = if k' = k then some (f (lookup k ms)) else lookup k' ms := by
  induction ms with
  | nil => rfl
  | cons m ms ih =>
    obtain ⟨j, v⟩ := m
    by_cases hkj : k = j
    · subst hkj
      by_cases hk' : k' = k <;> simp [upsert, lookup, hk']
    · by_cases hk' : k' = k
      · subst hk'
        simp [upsert, lookup, hkj, ih]
      · simp [upsert, lookup, hkj, ih, hk']

theorem keys_upsert (f : Option β → β) (k : κ) (ms : List (κ × β)) :
    (upsert f k ms).map Prod.fst =
      if k ∈ ms.map Prod.fst then ms.map Prod.fst else ms.map Prod.fst ++ [k] := by
  induction ms with
  | nil => rfl
  | cons m ms ih =>
    obtain ⟨j, v⟩ := m
    by_cases hkj : k = j
    · simp [upsert, hkj]
    · rw [upsert, if_neg hkj, List.map_cons, ih]
      by_cases hk : k ∈ ms.map Prod.fst
      · simp [hk]
      · rw [if_neg hk, if_neg (by simp [hkj]; simpa using hk)]
        rfl

/-! ## The whole loop -/

variable (key : α → κ) (f : Option β → α → β)

private theorem lookup_foldl_upsert (k : κ) (l : List α) (ms : List (κ × β)) :
    lookup k (l.foldl (fun ms a => upsert (fun v => f v a) (key a) ms) ms) =
      (l.filter (key · = k)).foldl (fun v a => some (f v a)) (lookup k ms) := by
  induction l generalizing ms with
  | nil => rfl
  | cons a l ih =>
    rw [List.foldl_cons, ih, lookup_upsert]
    by_cases hk : key a = k
    · simp [hk]
    · rw [if_neg (Ne.symm hk), List.filter_cons_of_neg (by simpa using hk)]

/-- The entry of a key depends on the elements with that key only. -/
theorem lookup_groupWith (k : κ) (l : List α) :
    lookup k (groupWith key f l) = entryOf f (l.filter (key · = k)) :=
  lookup_foldl_upsert key f k l []

private theorem keys_foldl_upsert (l : List α) (ms : List (κ × β))
    (hnodup : (ms.map Prod.fst).Nodup) :
    ((l.foldl (fun ms a => upsert (fun v => f v a) (key a) ms) ms).map Prod.fst).Nodup ∧
      ∀ k, k ∈ (l.foldl (fun ms a => upsert (fun v => f v a) (key a) ms) ms).map Prod.fst ↔
        k ∈ ms.map Prod.fst ∨ k ∈ l.map key := by
  induction l generalizing ms with
  | nil => exact ⟨hnodup, by simp⟩
  | cons a l ih =>
    have hkeys := keys_upsert (fun v => f v a) (key a) ms
    have hnodup' : ((upsert (fun v => f v a) (key a) ms).map Prod.fst).Nodup := by
      rw [hkeys]
      split
      · exact hnodup
      · rename_i hk
        exact List.nodup_append.mpr ⟨hnodup, List.nodup_singleton _, by
          rintro x hx y hy rfl
          exact hk (List.mem_singleton.mp hy ▸ hx)⟩
    obtain ⟨hresult, hmem⟩ := ih _ hnodup'
    refine ⟨hresult, fun k => (hmem k).trans ?_⟩
    rw [hkeys, List.map_cons, List.mem_cons]
    by_cases hk : key a ∈ ms.map Prod.fst
    · rw [if_pos hk]
      constructor
      · rintro (h | h)
        exacts [.inl h, .inr (.inr h)]
      · rintro (h | rfl | h)
        exacts [.inl h, .inl hk, .inr h]
    · rw [if_neg hk, List.mem_append, List.mem_singleton, or_assoc]

theorem nodup_keys_groupWith (l : List α) : ((groupWith key f l).map Prod.fst).Nodup :=
  (keys_foldl_upsert key f l [] List.nodup_nil).1

theorem mem_keys_groupWith {k : κ} {l : List α} :
    k ∈ (groupWith key f l).map Prod.fst ↔ k ∈ l.map key := by
  have h := (keys_foldl_upsert key f l [] List.nodup_nil).2 k
  rwa [List.map_nil, List.mem_nil_iff, false_or] at h

/-! ## Entries -/

omit [DecidableEq κ] in
theorem entryOf_cons_ne_none (a : α) (l : List α) : entryOf f (a :: l) ≠ none := by
  induction l using List.reverseRecOn with
  | nil => rintro ⟨⟩
  | append_singleton l b _ =>
    rw [entryOf, ← List.cons_append, List.foldl_append]
    rintro ⟨⟩

omit [DecidableEq κ] in
/-- An entry holds whatever the first element establishes and every further one keeps. -/
theorem entryOf_induction {P : β → List α → Prop} (hfirst : ∀ a, P (f none a) [a])
    (hnext : ∀ v l a, P v l → P (f (some v) a) (l ++ [a])) {l : List α} {v : β}
    (h : entryOf f l = some v) : P v l := by
  induction l using List.reverseRecOn generalizing v with
  | nil => cases h
  | append_singleton l a ih =>
    rw [entryOf, List.foldl_append, List.foldl_cons, List.foldl_nil] at h
    cases h
    cases hl : l.foldl (fun v a => some (f v a)) none with
    | none =>
      have hnil : l = [] := by
        cases l using List.reverseRecOn with
        | nil => rfl
        | append_singleton l b => rw [List.foldl_append] at hl; cases hl
      subst hnil
      exact hfirst a
    | some w => exact hnext w l a (ih hl)

omit [DecidableEq κ] in
/-- A view of the entry that each change keeps is the entry of the views. -/
theorem map_entryOf {γ δ : Type*} {f : Option β → α → β} {f' : Option γ → δ → γ} {g : β → γ}
    {h : α → δ} (hf : ∀ v a, g (f v a) = f' (v.map g) (h a)) (l : List α) :
    (entryOf f l).map g = entryOf f' (l.map h) := by
  induction l using List.reverseRecOn with
  | nil => rfl
  | append_singleton l a ih =>
    unfold entryOf at ih ⊢
    rw [List.foldl_append, List.map_append, List.foldl_append, ← ih]
    exact congrArg some (hf _ a)

end Argus.Grouping

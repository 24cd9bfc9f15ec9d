import Argus.Base.SortedAssoc
import Mathlib.Data.Char
import Mathlib.Data.List.Lex
import Mathlib.Data.List.Sort

/-!
# Sorting

Go's `sort.SliceStable` and `sort.Strings`, for an executable comparison.
-/

namespace Argus.Sorting

open SortedAssoc (KeyOrder)

variable {α : Type*}

/-- `sort.SliceStable`: an element moves before another one only when it is `less`. -/
def stableSort (less : α → α → Bool) (l : List α) : List α :=
  l.insertionSort fun a b => less b a = false

theorem stableSort_perm (less : α → α → Bool) (l : List α) : (stableSort less l).Perm l :=
  List.perm_insertionSort _ l

@[simp] theorem mem_stableSort {less : α → α → Bool} {l : List α} {a : α} :
    a ∈ stableSort less l ↔ a ∈ l :=
  (stableSort_perm less l).mem_iff

@[simp] theorem length_stableSort (less : α → α → Bool) (l : List α) :
    (stableSort less l).length = l.length :=
  (stableSort_perm less l).length_eq

/-! ## Sorting by a key -/

section

variable {κ : Type*} [LinearOrder κ] {key : α → κ} {less : α → α → Bool}

section

variable (hless : ∀ a b, less a b = true ↔ key a < key b)

include hless

/-- The result is in order of the key that the comparison compares. -/
theorem pairwise_stableSort (l : List α) :
    (stableSort less l).Pairwise fun a b => key a ≤ key b := by
  have hle : ∀ a b, less b a = false ↔ key a ≤ key b := fun a b => by
    rw [← Bool.not_eq_true, hless, not_lt]
  have : Std.Total fun a b => less b a = false :=
    ⟨fun a b => by simpa only [hle] using le_total (key a) (key b)⟩
  have : IsTrans α fun a b => less b a = false :=
    ⟨fun a b c hab hbc => by
      rw [hle] at hab hbc ⊢
      exact hab.trans hbc⟩
  exact (List.pairwise_insertionSort _ l).imp fun {a b} => (hle a b).mp

/-- The first element has the least key. -/
theorem key_head_stableSort_le {l rest : List α} {first : α} (h : stableSort less l = first :: rest)
    {a : α} (ha : a ∈ l) : key first ≤ key a := by
  have hsorted := pairwise_stableSort hless l
  rw [← (stableSort_perm less l).mem_iff, h] at ha
  rw [h, List.pairwise_cons] at hsorted
  rcases List.mem_cons.mp ha with rfl | hrest
  · exact le_rfl
  · exact hsorted.1 a hrest

/-- Sorting moves an element to the front exactly when it is the first one with the least key. -/
theorem head?_stableSort_iff {l : List α} {a : α} :
    (stableSort less l).head? = some a ↔
      ∃ front rest, l = front ++ a :: rest ∧ (∀ x ∈ front, key a < key x) ∧
        ∀ x ∈ rest, key a ≤ key x := by
  have hcons : ∀ x l, stableSort less (x :: l) =
      (stableSort less l).orderedInsert (fun a b => less b a = false) x := fun _ _ => rfl
  constructor
  · intro h
    induction l generalizing a with
    | nil => cases h
    | cons x l ih =>
      rw [hcons] at h
      cases hsorted : stableSort less l with
      | nil =>
        have hnil : l = [] := by
          have hperm := stableSort_perm less l
          rw [hsorted] at hperm
          exact hperm.symm.eq_nil
        rw [hsorted] at h
        cases h
        exact ⟨[], l, rfl, by simp, by simp [hnil]⟩
      | cons y sorted =>
        obtain ⟨front, rest, rfl, hfront, hrest⟩ := ih (a := y) (by rw [hsorted]; rfl)
        rw [hsorted, List.orderedInsert] at h
        split at h
        · rename_i hxy
          cases h
          rw [← Bool.not_eq_true, hless, not_lt] at hxy
          refine ⟨[], front ++ y :: rest, rfl, by simp, fun z hz => ?_⟩
          rcases List.mem_append.mp hz with hz | hz
          · exact hxy.trans (hfront z hz).le
          · rcases List.mem_cons.mp hz with rfl | hz
            · exact hxy
            · exact hxy.trans (hrest z hz)
        · rename_i hxy
          cases h
          rw [Bool.not_eq_false, hless] at hxy
          exact ⟨x :: front, rest, rfl, List.forall_mem_cons.mpr ⟨hxy, hfront⟩, hrest⟩
  · rintro ⟨front, rest, rfl, hfront, hrest⟩
    induction front with
    | nil =>
      rw [List.nil_append, hcons]
      cases hsorted : stableSort less rest with
      | nil => rfl
      | cons y sorted =>
        have hy : y ∈ stableSort less rest := hsorted ▸ List.mem_cons_self
        have hle : less y a = false := by
          rw [← Bool.not_eq_true, hless, not_lt]
          exact hrest y (mem_stableSort.mp hy)
        rw [List.orderedInsert, if_pos hle]
        rfl
    | cons x front ih =>
      obtain ⟨hx, hfront⟩ := List.forall_mem_cons.mp hfront
      obtain ⟨sorted, hsorted⟩ := List.head?_eq_some_iff.mp (ih hfront)
      have hlt : ¬ less a x = false := by
        rw [Bool.not_eq_false, hless]
        exact hx
      rw [List.cons_append, hcons, hsorted, List.orderedInsert, if_neg hlt]
      rfl

/-- An element that comes first still does when its key gets no greater. -/
theorem head?_stableSort_replace {front rest : List α} {a b : α} (hfirst : a ∉ front)
    (hlast : a ∉ rest) (h : (stableSort less (front ++ a :: rest)).head? = some a)
    (hkey : key b ≤ key a) : (stableSort less (front ++ b :: rest)).head? = some b := by
  obtain ⟨front', rest', heq, hfront, hrest⟩ := (head?_stableSort_iff hless).mp h
  rw [List.append_cons_inj_of_notMem hfirst hlast] at heq
  obtain ⟨rfl, -, rfl⟩ := heq
  exact (head?_stableSort_iff hless).mpr
    ⟨front, rest, rfl, fun x hx => hkey.trans_lt (hfront x hx), fun x hx => hkey.trans (hrest x hx)⟩

end

/-- Two orders of the same elements by a key look the same where elements with one key do. -/
theorem map_eq_of_perm {β : Type*} {f : α → β} {l₁ l₂ : List α} (hperm : l₁.Perm l₂)
    (h₁ : l₁.Pairwise fun a b => key a ≤ key b) (h₂ : l₂.Pairwise fun a b => key a ≤ key b)
    (hf : ∀ a ∈ l₁, ∀ b ∈ l₁, key a = key b → f a = f b) : l₁.map f = l₂.map f := by
  have hpairs : l₁.map (fun a => (key a, f a)) = l₂.map fun a => (key a, f a) := by
    have hanti : ∀ p q : κ × β, p ∈ l₁.map (fun a => (key a, f a)) →
        q ∈ l₂.map (fun a => (key a, f a)) → p.1 ≤ q.1 → q.1 ≤ p.1 → p = q := by
      intro p q hp hq hpq hqp
      obtain ⟨a, ha, rfl⟩ := List.mem_map.mp hp
      obtain ⟨b, hb, rfl⟩ := List.mem_map.mp hq
      have hkey : key a = key b := le_antisymm hpq hqp
      exact Prod.ext hkey (hf a ha b (hperm.mem_iff.mpr hb) hkey)
    exact List.Perm.eq_of_pairwise hanti (List.pairwise_map.mpr h₁) (List.pairwise_map.mpr h₂)
      (hperm.map _)
  simpa [Function.comp_def] using congrArg (List.map Prod.snd) hpairs

end

/-! ## Strings -/

/-- Strings are ordered by their bytes, which is the order of their characters. -/
def stringOrder : KeyOrder String :=
  KeyOrder.ofKey String.toList fun _ _ => String.toList_injective

/-- Go's `<` on strings. -/
def before (s t : String) : Bool := decide (stringOrder.lt s t)

/-- `sort.Strings`. -/
def sortStrings (l : List String) : List String := stableSort before l

@[simp] theorem mem_sortStrings {l : List String} {s : String} : s ∈ sortStrings l ↔ s ∈ l :=
  mem_stableSort

theorem sortStrings_perm (l : List String) : (sortStrings l).Perm l := stableSort_perm before l

theorem nodup_sortStrings {l : List String} : (sortStrings l).Nodup ↔ l.Nodup :=
  (sortStrings_perm l).nodup_iff

/-- The sorted list does not depend on the order of the strings. -/
theorem sortStrings_eq_of_perm {l l' : List String} (h : l.Perm l') :
    sortStrings l = sortStrings l' := by
  have hbefore : ∀ s t, before s t = true ↔ s.toList < t.toList := fun _ _ => decide_eq_true_iff
  have hanti : ∀ s t, s ∈ sortStrings l → t ∈ sortStrings l' → s.toList ≤ t.toList →
      t.toList ≤ s.toList → s = t := fun s t _ _ hst hts =>
    String.toList_injective (le_antisymm hst hts)
  exact List.Perm.eq_of_pairwise hanti (pairwise_stableSort hbefore l)
    (pairwise_stableSort hbefore l')
    (((sortStrings_perm l).trans h).trans (sortStrings_perm l').symm)

end Argus.Sorting

import Mathlib

/-!
# Streaks

A streak is a stretch of consecutive elements with a property. `AtMost` bounds the streaks of a list, and
the last streak is counted by timestamps: where the elements are in order of time, the ones with the
property that are later than every element without it are the last streak.
-/

namespace Argus.Streaks

variable {α τ : Type*} {p : α → Prop} {n : ℕ} {xs : List α}

/-- No streak is longer than `n`. -/
def AtMost (p : α → Prop) (n : ℕ) (xs : List α) : Prop :=
  ∀ before streak after, xs = before ++ streak ++ after → (∀ x ∈ streak, p x) → streak.length ≤ n

theorem atMost_nil (p : α → Prop) (n : ℕ) : AtMost p n [] := by
  intro before streak after h _
  have hlength := congrArg List.length h
  simp only [List.length_nil, List.length_append] at hlength
  omega

/-- One more element: it makes the last streak longer, or ends it. -/
theorem AtMost.concat (h : AtMost p n xs) {x : α}
    (hx : p x → ∀ before streak, xs = before ++ streak → (∀ y ∈ streak, p y) → streak.length < n) :
    AtMost p n (xs ++ [x]) := by
  intro before streak after heq hstreak
  rcases List.eq_nil_or_concat' after with rfl | ⟨after', y, rfl⟩
  · rw [List.append_nil] at heq
    rcases List.eq_nil_or_concat' streak with rfl | ⟨streak', y, rfl⟩
    · exact Nat.zero_le n
    · -- the streak ends with the new element
      rw [← List.append_assoc] at heq
      obtain ⟨hxs, hy⟩ := List.append_inj' heq rfl
      obtain rfl : x = y := List.singleton_inj.mp hy
      have hlt := hx (hstreak x (by simp)) before streak' hxs
        fun z hz => hstreak z (List.mem_append_left _ hz)
      rw [List.length_append, List.length_singleton]
      omega
  · rw [← List.append_assoc] at heq
    exact h before streak after' (List.append_inj' heq rfl).1 hstreak

theorem atMost_map_iff {β : Type*} {q : β → Prop} {f : α → β} :
    AtMost q n (xs.map f) ↔ AtMost (fun x => q (f x)) n xs := by
  constructor
  · rintro h before streak after rfl hstreak
    have hmap := h (before.map f) (streak.map f) (after.map f) (by simp) (by simpa using hstreak)
    rwa [List.length_map] at hmap
  · intro h before streak after heq hstreak
    obtain ⟨xs₁, after', rfl, hxs₁, -⟩ := List.map_eq_append_iff.mp heq
    obtain ⟨before', streak', rfl, -, rfl⟩ := List.map_eq_append_iff.mp hxs₁
    rw [List.length_map]
    exact h before' streak' after' rfl fun x hx => hstreak (f x) (List.mem_map_of_mem hx)

/-! ## The last streak -/

section

variable [DecidablePred p]

/-- Every list ends with a streak, which may be empty. -/
theorem exists_last (p : α → Prop) [DecidablePred p] (xs : List α) :
    ∃ before streak, xs = before ++ streak ∧ (∀ x ∈ streak, p x) ∧
      ∀ y, before.getLast? = some y → ¬ p y := by
  refine ⟨xs.rdropWhile p, xs.rtakeWhile p, List.rdropWhile_append_rtakeWhile.symm,
    fun x hx => by simpa using List.mem_rtakeWhile_imp hx, fun y hy => ?_⟩
  obtain ⟨hne, rfl⟩ := List.mem_getLast?_eq_getLast hy
  simpa using List.rdropWhile_last_not _ _ hne

variable [Preorder τ] [DecidableLT τ] {t : α → τ} {before streak : List α}

/-- The elements with the property that are later than all elements without it. -/
def countAfter (p : α → Prop) [DecidablePred p] (t : α → τ) (xs : List α) : ℕ :=
  xs.countP fun x => p x ∧ ∀ y ∈ xs, ¬ p y → t y < t x

section

variable (hsorted : xs.Pairwise fun x y => t x < t y) (hxs : xs = before ++ streak)
  (hstreak : ∀ x ∈ streak, p x)

include hsorted hxs hstreak

/-- Elements of a streak at the end are later than all elements without the property. -/
theorem countP_streak :
    streak.countP (fun x => p x ∧ ∀ y ∈ xs, ¬ p y → t y < t x) = streak.length := by
  rw [List.countP_eq_length]
  intro x hx
  simp only [decide_eq_true_eq]
  refine ⟨hstreak x hx, fun y hy hnot => ?_⟩
  rw [hxs, List.mem_append] at hy
  rw [hxs, List.pairwise_append] at hsorted
  rcases hy with hy | hy
  · exact hsorted.2.2 y hy x hx
  · exact absurd (hstreak y hy) hnot

/-- The last streak, and what else is counted. -/
theorem countAfter_append :
    countAfter p t xs =
      before.countP (fun x => p x ∧ ∀ y ∈ xs, ¬ p y → t y < t x) + streak.length := by
  let q (x : α) : Bool := p x ∧ ∀ y ∈ xs, ¬ p y → t y < t x
  calc xs.countP q = (before ++ streak).countP q := by rw [← hxs]
    _ = before.countP q + streak.countP q := List.countP_append
    _ = before.countP q + streak.length := by rw [countP_streak hsorted hxs hstreak]

theorem length_le_countAfter : streak.length ≤ countAfter p t xs := by
  rw [countAfter_append hsorted hxs hstreak]
  omega

/-- Nothing but the last streak is counted. -/
theorem countAfter_eq_length (hlast : ∀ y, before.getLast? = some y → ¬ p y) :
    countAfter p t xs = streak.length := by
  have hnone : before.countP (fun x => p x ∧ ∀ y ∈ xs, ¬ p y → t y < t x) = 0 := by
    rw [List.countP_eq_zero]
    intro x hx
    simp only [decide_eq_true_eq, not_and]
    intro hpx hlater
    rcases List.eq_nil_or_concat' before with rfl | ⟨before', y, rfl⟩
    · cases hx
    · -- the last element without the property is not earlier
      have hy : ¬ p y := hlast y (by simp)
      have hlt : t y < t x := hlater y (by simp [hxs]) hy
      rw [hxs, List.pairwise_append, List.pairwise_append] at hsorted
      rcases List.mem_append.mp hx with hx | hx
      · exact lt_asymm hlt (hsorted.1.2.2 x hx y (List.mem_singleton_self y))
      · rw [List.mem_singleton.mp hx] at hlt
        exact lt_irrefl _ hlt
  rw [countAfter_append hsorted hxs hstreak, hnone, Nat.zero_add]

end

end

end Argus.Streaks

import Mathlib.Data.List.Basic

/-!
# Computations that may fail

What the success of a sequence, or of a loop, says about its steps.
-/

namespace Argus

variable {α β ε : Type}

variable {b : β}

theorem exists_of_bind_eq_ok {x : Except ε α} {f : α → Except ε β} (h : (x >>= f) = .ok b) :
    ∃ a, x = .ok a ∧ f a = .ok b := by
  cases x with
  | error e => cases h
  | ok a => exact ⟨a, rfl, h⟩

theorem exists_of_map_eq_ok {x : Except ε α} {g : α → β} (h : x.map g = .ok b) :
    ∃ a, x = .ok a ∧ g a = b := by
  cases x with
  | error e => cases h
  | ok a => exact ⟨a, rfl, Except.ok.inj h⟩

variable {xs : List α} {b' : β} {f : β → α → Except ε β}

theorem foldlM_cons_eq_ok {x : α} (h : (x :: xs).foldlM f b = .ok b') :
    ∃ b₁, f b x = .ok b₁ ∧ xs.foldlM f b₁ = .ok b' := by
  rw [List.foldlM_cons] at h
  exact exists_of_bind_eq_ok h

/-- A relation that single steps establish holds of a loop that may fail. -/
theorem rel_of_foldlM {R : β → β → Prop} (hrefl : ∀ b, R b b)
    (htrans : ∀ {a b c}, R a b → R b c → R a c)
    (hstep : ∀ b, ∀ x ∈ xs, ∀ b', f b x = .ok b' → R b b') (h : xs.foldlM f b = .ok b') :
    R b b' := by
  induction xs generalizing b with
  | nil =>
    obtain rfl : b = b' := Except.ok.inj h
    exact hrefl b
  | cons x xs ih =>
    obtain ⟨b₁, hone, hall⟩ := foldlM_cons_eq_ok h
    have hrest : R b₁ b' := ih (fun b y hy => hstep b y (List.mem_cons_of_mem _ hy)) hall
    exact htrans (hstep b x List.mem_cons_self b₁ hone) hrest

/-- Every element of a loop that succeeds has had a step that did. -/
theorem exists_step_of_foldlM (h : xs.foldlM f b = .ok b') {x : α} (hx : x ∈ xs) :
    ∃ b₁ b₂, f b₁ x = .ok b₂ := by
  induction xs generalizing b with
  | nil => cases hx
  | cons y xs ih =>
    obtain ⟨b₁, hone, hall⟩ := foldlM_cons_eq_ok h
    rcases List.mem_cons.mp hx with rfl | hrest
    · exact ⟨b, b₁, hone⟩
    · exact ih hall hrest

end Argus

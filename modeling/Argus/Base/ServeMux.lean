import Argus.Base.Strings

/-!
# Pattern routing

Go's `http.ServeMux` for patterns without methods or wildcards: a pattern that ends in `/` matches
every path below it, any other pattern only itself; an exact pattern wins, then the longest
subtree pattern. The path is matched as it stands, a trailing slash included.
-/

namespace Argus.ServeMux

open Strings

variable {η : Type*}

/-- A pattern that ends in a slash names a whole subtree. -/
def isSubtree (pattern : String) : Bool := pattern.toList.getLast? == some '/'

/-- The route with the longest pattern, the first registered among equals. -/
def longest : List (String × η) → Option (String × η)
  | [] => none
  | r :: rest =>
    match longest rest with
    | none => some r
    | some best => if r.1.length < best.1.length then some best else some r

/-- The handler a path is routed to. -/
def handler (routes : List (String × η)) (path : String) : Option η :=
  match routes.find? (fun r => r.1 == path) with
  | some r => some r.2
  | none => (longest (routes.filter fun r => isSubtree r.1 && hasPrefix path r.1)).map (·.2)

theorem mem_of_longest_eq_some {l : List (String × η)} {r : String × η}
    (h : longest l = some r) : r ∈ l := by
  induction l with
  | nil => simp [longest] at h
  | cons a rest ih =>
    simp only [longest] at h
    split at h
    · obtain rfl : a = r := by simpa using h
      exact List.mem_cons_self
    · rename_i best hbest
      split at h
      · obtain rfl : best = r := by simpa using h
        exact List.mem_cons_of_mem _ (ih hbest)
      · obtain rfl : a = r := by simpa using h
        exact List.mem_cons_self

theorem longest_ne_none {l : List (String × η)} (h : l ≠ []) : longest l ≠ none := by
  cases l with
  | nil => exact absurd rfl h
  | cons a rest =>
    simp only [longest]
    split
    · simp
    · split <;> simp

/-- A routed path equals the pattern of its handler or lies in its subtree. -/
theorem pattern_of_handler_eq_some {routes : List (String × η)} {path : String} {h : η}
    (hh : handler routes path = some h) :
    ∃ p, (p, h) ∈ routes ∧ (path = p ∨ isSubtree p = true ∧ hasPrefix path p = true) := by
  simp only [handler] at hh
  split at hh
  · rename_i r hr
    obtain rfl : r.2 = h := by simpa using hh
    have hp : r.1 = path := by simpa using List.find?_some hr
    exact ⟨r.1, List.mem_of_find?_eq_some hr, Or.inl hp.symm⟩
  · obtain ⟨r, hr, rfl⟩ := Option.map_eq_some_iff.mp hh
    have hmem := List.mem_filter.mp (mem_of_longest_eq_some hr)
    rw [Bool.and_eq_true] at hmem
    exact ⟨r.1, hmem.1, Or.inr hmem.2⟩

/-- A path below a subtree pattern is routed. -/
theorem handler_ne_none {routes : List (String × η)} {path p : String} {h : η}
    (hmem : (p, h) ∈ routes) (hsub : isSubtree p = true) (hpre : hasPrefix path p = true) :
    handler routes path ≠ none := by
  simp only [handler]
  split
  · simp
  · have hin : (p, h) ∈ routes.filter fun r => isSubtree r.1 && hasPrefix path r.1 :=
      List.mem_filter.mpr ⟨hmem, by simp [hsub, hpre]⟩
    simpa using longest_ne_none (List.ne_nil_of_mem hin)

/-- A path below a subtree pattern is routed to `h` if every pattern that matches it is. -/
theorem handler_of_unique {routes : List (String × η)} {path p : String} {h : η}
    (hmem : (p, h) ∈ routes) (hsub : isSubtree p = true) (hpre : hasPrefix path p = true)
    (hunique : ∀ r ∈ routes, (path = r.1 ∨ isSubtree r.1 = true ∧ hasPrefix path r.1 = true) →
      r.2 = h) :
    handler routes path = some h := by
  obtain ⟨h', hh'⟩ := Option.ne_none_iff_exists'.mp (handler_ne_none hmem hsub hpre)
  obtain ⟨q, hq, hmatch⟩ := pattern_of_handler_eq_some hh'
  have heq : h' = h := hunique (q, h') hq hmatch
  rw [hh', heq]

end Argus.ServeMux

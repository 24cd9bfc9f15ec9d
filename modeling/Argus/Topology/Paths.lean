import Argus.Base.ShortestPath
import Argus.Topology.Graph
import Mathlib.Data.String.Basic

/-!
# Paths are canonical

`New` sorts the dependencies of each service, so `Path` finds the shortest chain of dependencies,
and of those of that length the least one, comparing names position by position. A path is therefore
determined by the edges alone, whatever order they were listed in.
-/

namespace Argus.Topology

open BreadthFirst (Least Walk rank rank_lt_iff)
open Sorting

/-! ## The edges -/

/-- An edge that counts: from one service to another, both with a name. -/
def Depends (edges : List Dependency) (a b : String) : Prop :=
  ∃ e ∈ edges, e.service = a ∧ e.dependsOn = b ∧ a ≠ "" ∧ b ≠ "" ∧ a ≠ b

variable {edges : List Dependency} {a b : String}

theorem dependsOn_new : (Graph.new edges).DependsOn a b ↔ Depends edges a b := by
  change b ∈ dependenciesOf edges a ↔ _
  rw [mem_dependenciesOf]
  refine exists_congr fun e => and_congr_right fun _ => ?_
  simp only [Dependency.usable, ne_eq, decide_not, Bool.and_eq_true, Bool.not_eq_eq_eq_not,
    Bool.not_true, decide_eq_false_iff_not]
  constructor
  · rintro ⟨⟨⟨hservice, hdepends⟩, hself⟩, rfl, rfl⟩
    exact ⟨rfl, rfl, hservice, hdepends, hself⟩
  · rintro ⟨rfl, rfl, hservice, hdepends, hself⟩
    exact ⟨⟨⟨hservice, hdepends⟩, hself⟩, rfl, rfl⟩

/-- The services of a chain of edges from `a` to `b`. -/
structure Chain (edges : List Dependency) (services : List String) (a b : String) : Prop where
  head : services.head? = some a
  last : services.getLast? = some b
  chain : services.IsChain (Depends edges)

theorem walk_iff_chain {services : List String} :
    Walk (dependenciesOf edges) services a b ↔ Chain edges services a b := by
  have himp : ∀ x y, y ∈ dependenciesOf edges x ↔ Depends edges x y := fun _ _ => dependsOn_new
  constructor
  · exact fun h => ⟨h.head, h.last, h.chain.imp fun x y => (himp x y).mp⟩
  · exact fun h => ⟨h.head, h.last, h.chain.imp fun x y => (himp x y).mpr⟩

/-- Reachability along edges, in one step at least. -/
theorem reaches_new_iff :
    (Graph.new edges).Reaches a b ↔ a = b ∨ Relation.TransGen (Depends edges) a b := by
  have hrel : (Graph.new edges).DependsOn = Depends edges :=
    funext fun x => funext fun y => propext dependsOn_new
  rw [Graph.Reaches, hrel, Relation.reflTransGen_iff_eq_or_transGen, eq_comm]

/-! ## Sorted dependencies -/

theorem nodup_foldl_appendUnique {values : List String} (h : values.Nodup) :
    (edges.foldl (fun vs e => appendUnique vs e.dependsOn) values).Nodup := by
  induction edges generalizing values with
  | nil => exact h
  | cons e edges ih =>
    refine ih ?_
    change (if e.dependsOn ∈ values then values else values ++ [e.dependsOn]).Nodup
    split
    · exact h
    · rename_i hnew
      refine List.nodup_append.mpr ⟨h, List.nodup_singleton _, ?_⟩
      rintro x hx y hy rfl
      rw [List.mem_singleton.mp hy] at hx
      exact hnew hx

theorem pairwise_sortStrings {l : List String} (h : l.Nodup) :
    (sortStrings l).Pairwise (· < ·) := by
  have hbefore : ∀ s t, before s t = true ↔ s.toList < t.toList := fun _ _ => decide_eq_true_iff
  have hsorted := pairwise_stableSort hbefore l
  refine (hsorted.and (nodup_sortStrings.mpr h)).imp fun ⟨hle, hne⟩ => ?_
  rw [String.lt_iff_toList_lt]
  exact lt_of_le_of_ne hle fun heq => hne (String.toList_injective heq)

theorem pairwise_dependenciesOf (edges : List Dependency) (service : String) :
    (dependenciesOf edges service).Pairwise (· < ·) :=
  pairwise_sortStrings (nodup_foldl_appendUnique List.nodup_nil)

/-! ## The search -/

theorem ordered_start (edges : List Dependency) (a b : String) :
    BreadthFirst.Ordered ((Graph.new edges).pathSearch b) Graph.Candidate.path a
      ⟨[⟨a, [a]⟩], [a]⟩ := by
  refine ⟨List.pairwise_singleton _ _, ?_, ?_, ?_⟩
  · intro c hc
    rw [List.mem_singleton.mp hc]
    exact .refl _ a
  · intro c hc c' hc'
    rw [List.mem_singleton.mp hc, List.mem_singleton.mp hc']
    exact BreadthFirst.rank_lt_concat [] a
  · intro c hc
    rw [List.mem_singleton.mp hc]
    exact ⟨List.nodup_singleton a, fun x hx => hx⟩

/-- A path is the least chain of edges, and repeats no service. -/
theorem path_least {p : Path} (h : (Graph.new edges).path a b = some p) :
    Least (dependenciesOf edges) p.services a b ∧ p.services.Nodup := by
  unfold Graph.path at h
  split at h
  · cases h
  · split at h
    · rename_i hab
      cases h
      exact ⟨hab ▸ .refl _ a, List.nodup_singleton a⟩
    · split at h
      · rename_i found hrun
        cases h
        have hrun' := Option.eq_some_iff_get_eq.mpr ⟨_, hrun⟩
        obtain ⟨hgoal, hleast, hnodup⟩ := BreadthFirst.run_inl_least (fun _ _ => rfl)
          (fun _ _ => rfl) (pairwise_dependenciesOf edges) (ordered_start edges a b)
          (Graph.inv_start ((Graph.new edges).pathSearch b) ⟨a, [a]⟩) (List.mem_singleton_self a)
          hrun'
        have hnode : found.service = b := beq_iff_eq.mp hgoal
        exact ⟨hnode ▸ hleast, hnodup⟩
      · cases h

/-- `Path` finds a path exactly when one exists, and then the shortest, least in the order of names.
-/
theorem path_canonical (edges : List Dependency) {a b : String} (ha : a ≠ "") (hb : b ≠ "") :
    (((Graph.new edges).path a b).isSome = true ↔
      a = b ∨ Relation.TransGen (Depends edges) a b) ∧
    ∀ p, (Graph.new edges).path a b = some p →
      p.source = a ∧ p.target = b ∧ Chain edges p.services a b ∧ p.services.Nodup ∧
        (∀ services, Chain edges services a b → p.services.length ≤ services.length) ∧
        ∀ services, Chain edges services a b → services.length = p.services.length →
          p.services ≤ services := by
  refine ⟨?_, fun p hp => ?_⟩
  · rw [Graph.path_isSome_iff, reaches_new_iff]
    exact ⟨fun h => h.2.2, fun h => ⟨ha, hb, h⟩⟩
  · obtain ⟨hsource, htarget, -⟩ := Graph.path_sound hp
    obtain ⟨hleast, hnodup⟩ := path_least hp
    refine ⟨hsource, htarget, walk_iff_chain.mp hleast.walk, hnodup, fun services hservices => ?_,
      fun services hservices hlength => ?_⟩
    · exact BreadthFirst.length_le_of_rank_le (hleast.le services (walk_iff_chain.mpr hservices))
    · by_contra hlt
      have hrank := hleast.le services (walk_iff_chain.mpr hservices)
      exact absurd (rank_lt_iff.mpr (.inr ⟨hlength, not_le.mp hlt⟩)) (not_lt.mpr hrank)

/-- In a cyclic graph with two shortest chains. -/
theorem path_canonical_cycle :
    let edges : List Dependency :=
      [⟨"web", "cart"⟩, ⟨"web", "auth"⟩, ⟨"cart", "db"⟩, ⟨"auth", "db"⟩, ⟨"db", "web"⟩]
    (Graph.new edges).path "web" "db" = some ⟨"web", "db", ["web", "auth", "db"]⟩ ∧
      ∀ services, Chain edges services "web" "db" → 3 ≤ services.length := by
  intro edges
  have hpath : (Graph.new edges).path "web" "db" = some ⟨"web", "db", ["web", "auth", "db"]⟩ := by
    decide +kernel
  have hcanonical := path_canonical edges (a := "web") (b := "db") (by decide) (by decide)
  exact ⟨hpath, (hcanonical.2 _ hpath).2.2.2.2.1⟩

end Argus.Topology

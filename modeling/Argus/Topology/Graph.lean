import Argus.Base.ShortestPath
import Argus.Base.Sorting
import Mathlib

/-!
# The service dependency graph

The graph is built from the stored dependency edges; edges without a name on one side and edges from
a service to itself are dropped. `path` searches breadth first for a chain of dependencies from one
service to another, and `reachable` collects what a service depends on, directly or not. Both
searches end on every graph, cyclic or not, because the successors of a service are services of the
graph (`Graph.closed`).
-/

namespace Argus.Topology

open BreadthFirst Sorting

/-- A stored dependency: `service` depends on `dependsOn`. -/
structure Dependency where
  service : String
  dependsOn : String
  deriving DecidableEq, Repr

/-- A chain of dependencies between two services, both included. -/
structure Path where
  source : String
  target : String
  services : List String
  deriving DecidableEq, Repr

/-- What each service depends on, and the services that occur. -/
structure Graph where
  dependencies : String → List String
  services : List String
  closed : ∀ s, ∀ d ∈ dependencies s, d ∈ services
  named : ∀ s, ∀ d ∈ dependencies s, d ≠ ""

def appendUnique (values : List String) (value : String) : List String :=
  if value ∈ values then values else values ++ [value]

/-- The edges that enter the graph. -/
def Dependency.usable (e : Dependency) : Bool :=
  e.service ≠ "" && e.dependsOn ≠ "" && e.service ≠ e.dependsOn

variable {edges : List Dependency} {services : List String} {a b d s : String} {β : Type}

theorem mem_foldl_appendUnique {values : List String} :
    d ∈ edges.foldl (fun vs e => appendUnique vs e.dependsOn) values ↔
      d ∈ values ∨ ∃ e ∈ edges, e.dependsOn = d := by
  induction edges generalizing values with
  | nil => simp
  | cons e edges ih =>
    have hone : d ∈ appendUnique values e.dependsOn ↔ d ∈ values ∨ e.dependsOn = d := by
      unfold appendUnique
      split
      · rename_i hmem
        exact ⟨.inl, fun h => h.elim id fun heq => heq ▸ hmem⟩
      · simp [eq_comm]
    rw [List.foldl_cons, ih, hone, or_assoc]
    simp

/-- The dependencies of one service, in the order of their names. -/
def dependenciesOf (edges : List Dependency) (service : String) : List String :=
  sortStrings ((edges.filter fun e => e.usable && e.service == service).foldl
    (fun vs e => appendUnique vs e.dependsOn) [])

theorem mem_dependenciesOf :
    d ∈ dependenciesOf edges s ↔
      ∃ e ∈ edges, e.usable = true ∧ e.service = s ∧ e.dependsOn = d := by
  simp [dependenciesOf, mem_foldl_appendUnique, and_assoc]

/-- The graph of a list of edges. -/
def Graph.new (edges : List Dependency) : Graph where
  dependencies := dependenciesOf edges
  services := (edges.filter Dependency.usable).flatMap fun e => [e.service, e.dependsOn]
  closed s d hd := by
    obtain ⟨e, he, husable, -, rfl⟩ := mem_dependenciesOf.mp hd
    exact List.mem_flatMap.mpr ⟨e, List.mem_filter.mpr ⟨he, husable⟩, by simp⟩
  named s d hd := by
    obtain ⟨e, -, husable, -, rfl⟩ := mem_dependenciesOf.mp hd
    simp only [Dependency.usable, ne_eq, decide_not, Bool.and_eq_true, Bool.not_eq_eq_eq_not,
      Bool.not_true, decide_eq_false_iff_not] at husable
    exact husable.1.2

namespace Graph

variable (g : Graph)

/-- `b` is a direct dependency of `a`. -/
def DependsOn (a b : String) : Prop := b ∈ g.dependencies a

/-- `b` can be reached from `a` along dependency edges; every service reaches itself. -/
def Reaches : String → String → Prop := Relation.ReflTransGen g.DependsOn

/-- A chain of dependencies from `a` to `b`. -/
structure IsPath (services : List String) (a b : String) : Prop where
  head : services.head? = some a
  last : services.getLast? = some b
  chain : services.IsChain g.DependsOn

variable {g} in
theorem IsPath.append {c : String} (h : g.IsPath services a b) (hbc : g.DependsOn b c) :
    g.IsPath (services ++ [c]) a c := by
  have hwalk : BreadthFirst.Walk g.dependencies services a b := ⟨h.head, h.last, h.chain⟩
  exact ⟨(hwalk.concat hbc).head, (hwalk.concat hbc).last, (hwalk.concat hbc).chain⟩

theorem isPath_refl (a : String) : g.IsPath [a] a a :=
  ⟨rfl, rfl, List.isChain_singleton a⟩

variable {g} in
theorem IsPath.reaches (h : g.IsPath services a b) : g.Reaches a b := by
  induction services generalizing a with
  | nil => cases h.head
  | cons x services ih =>
    obtain rfl : x = a := Option.some.inj h.head
    cases services with
    | nil =>
      obtain rfl : x = b := Option.some.inj h.last
      exact .refl
    | cons y services =>
      have hchain := List.isChain_cons_cons.mp h.chain
      have hlast : (y :: services).getLast? = some b := by
        rw [← h.last, List.getLast?_cons_cons]
      exact .head hchain.1 (ih ⟨rfl, hlast, hchain.2⟩)

/-- A nonempty name only reaches nonempty names. -/
theorem ne_empty_of_reaches (h : g.Reaches a b) (ha : a ≠ "") : b ≠ "" := by
  induction h with
  | refl => exact ha
  | tail _ hstep _ => exact g.named _ _ hstep

/-! ## Searching for a path -/

/-- An entry of the queue of `path`: a service and how it was reached. -/
structure Candidate where
  service : String
  path : List String

/-- The search for `dependency`. -/
def pathSearch (dependency : String) : Search String Candidate where
  node := Candidate.service
  next := g.dependencies
  extend current next := ⟨next, current.path ++ [next]⟩
  goal next := next == dependency

/-- The search for everything a service depends on, which stops at no service. -/
def closureSearch : Search String String where
  node := id
  next := g.dependencies
  extend _ next := next
  goal _ := false

/-- A search from one service over the graph ends with this much fuel. -/
def fuel : ℕ := 1 + g.services.length

variable {g} in
theorem run_isSome {S : Search String β} (hS : S.next = g.dependencies) (entry : β)
    (visited : List String) : (S.run g.fuel ⟨[entry], visited⟩).isSome := by
  refine @Search.run_isSome _ _ _ S g.services.toFinset ?_ _ _ ?_
  · intro x y hy
    rw [hS] at hy
    exact List.mem_toFinset.mpr (g.closed x y hy)
  · have hle : (g.services.toFinset \ visited.toFinset).card ≤ g.services.length :=
      (Finset.card_le_card Finset.sdiff_subset).trans (List.toFinset_card_le _)
    simp only [List.length_singleton, fuel]
    omega

/-- `Path`: the first chain of dependencies met from `service` to `dependency`. -/
def path (service dependency : String) : Option Path :=
  if service = "" || dependency = "" then none
  else if service = dependency then some ⟨service, dependency, [service]⟩
  else
    match ((g.pathSearch dependency).run g.fuel ⟨[⟨service, [service]⟩], [service]⟩).get
      (run_isSome rfl _ _) with
    | .inl found => some ⟨service, dependency, found.path⟩
    | .inr _ => none

/-- The services that a service depends on, directly or not, and the service itself: the search in
`rootCandidates`. -/
def reachable (service : String) : List String :=
  match (g.closureSearch.run g.fuel ⟨[service], [service]⟩).get (run_isSome rfl _ _) with
  | .inl found => [found]
  | .inr visited => visited

theorem inv_start (S : Search String β) (entry : β) : S.Inv ⟨[entry], [S.node entry]⟩ := by
  refine ⟨fun b hb => ?_, fun x hx => .inl ?_⟩
  · rw [List.mem_singleton.mp hb]
    exact List.mem_singleton_self _
  · rw [List.mem_singleton.mp hx]
    exact List.mem_singleton_self _

variable {g}

theorem path_sound {p : Path} (h : g.path s d = some p) :
    p.source = s ∧ p.target = d ∧ g.IsPath p.services s d := by
  unfold path at h
  split at h
  · cases h
  · split at h
    · rename_i hsd
      cases h
      exact ⟨rfl, rfl, hsd ▸ g.isPath_refl s⟩
    · split at h
      · rename_i found hrun
        cases h
        have hrun' := Option.eq_some_iff_get_eq.mpr ⟨_, hrun⟩
        obtain ⟨hpath, b, x, hgoal, rfl⟩ :=
          (g.pathSearch d).run_inl (P := fun c => g.IsPath c.path s c.service)
            (fun c hc x hx => hc.append hx)
            (fun c hc => by
              rw [List.mem_singleton.mp hc]
              exact g.isPath_refl s) hrun'
        have hx : x = d := beq_iff_eq.mp hgoal
        exact ⟨rfl, rfl, hx ▸ hpath⟩
      · cases h

theorem path_isSome_iff : (g.path s d).isSome = true ↔ s ≠ "" ∧ d ≠ "" ∧ g.Reaches s d := by
  constructor
  · intro h
    obtain ⟨p, hp⟩ := Option.isSome_iff_exists.mp h
    have hne : ¬ ((s = "" || d = "") = true) := fun hempty => by
      rw [path, if_pos hempty] at hp
      cases hp
    simp only [Bool.or_eq_true, decide_eq_true_eq, not_or] at hne
    exact ⟨hne.1, hne.2, (path_sound hp).2.2.reaches⟩
  · rintro ⟨hs, hd, hreach⟩
    unfold path
    rw [if_neg (by simp [hs, hd])]
    split
    · rfl
    · rename_i hsd
      split
      · rfl
      · rename_i visited hrun
        -- the services met are closed, contain the start, and none but the start is the goal
        have hrun' := Option.eq_some_iff_get_eq.mpr ⟨_, hrun⟩
        obtain ⟨hsub, hclosed, hgoal⟩ :=
          (g.pathSearch d).run_inr (P := fun _ => True) (fun _ _ => rfl) (fun _ _ _ _ => trivial)
            (inv_start (g.pathSearch d) ⟨s, [s]⟩) (fun _ _ => trivial) hrun'
        have hmem : d ∈ visited :=
          Search.mem_of_closed hclosed (hsub s (List.mem_singleton_self s)) hreach
        rcases (hgoal d hmem).2 with hstart | hng
        · exact absurd (List.mem_singleton.mp hstart).symm hsd
        · exact absurd hng (by simp [pathSearch])

theorem mem_reachable_iff : d ∈ g.reachable s ↔ g.Reaches s d := by
  unfold reachable
  split
  · rename_i found hrun
    have hrun' := Option.eq_some_iff_get_eq.mpr ⟨_, hrun⟩
    obtain ⟨-, b, x, hgoal, -⟩ :=
      g.closureSearch.run_inl (P := fun _ => True) (fun _ _ _ _ => trivial) (fun _ _ => trivial)
        hrun'
    cases hgoal
  · rename_i visited hrun
    have hrun' := Option.eq_some_iff_get_eq.mpr ⟨_, hrun⟩
    obtain ⟨hsub, hclosed, hreach⟩ :=
      g.closureSearch.run_inr (P := fun x => g.Reaches s x) (fun _ _ => rfl)
        (fun x hx y hy => hx.tail hy) (inv_start g.closureSearch s)
        (fun x hx => by
          rw [List.mem_singleton.mp hx]
          exact .refl) hrun'
    exact ⟨fun h => (hreach d h).1,
      fun h => Search.mem_of_closed hclosed (hsub s (List.mem_singleton_self s)) h⟩

end Graph

end Argus.Topology

import Argus.Topology.Groups
import Argus.Topology.Paths
import Mathlib.Algebra.BigOperators.Group.Finset.Basic
import Mathlib.Algebra.BigOperators.Group.List.Basic
import Mathlib.Order.Lattice.Nat

/-!
# Every group has the best root

The root of a round is the best of all names, not only of the candidates that the loop looks at: it
covers the most unassigned services, at equal coverage it is nearest to them, then an alerting
service, then the least name (`rootRank`). Since that order is total, the groups are determined by
the sets of edges and services.
-/

namespace Argus.Topology

open Sorting

/-! ## The best root -/

open scoped Classical in
/-- The unassigned services that are `root` or reach it along edges. -/
noncomputable def coverage (edges : List Dependency) (unassigned : Finset String)
    (root : String) : Finset String :=
  {s ∈ unassigned | s = root ∨ Relation.TransGen (Depends edges) s root}

variable {best : Best} {edges edges' : List Dependency} {formed : List Group}
  {alerted candidates l l' seen unassigned : List String} {root s : String} {fuel : ℕ}

theorem mem_coverage {unassigned : Finset String} :
    s ∈ coverage edges unassigned root ↔
      s ∈ unassigned ∧ (s = root ∨ Relation.TransGen (Depends edges) s root) := by
  classical
  unfold coverage
  exact Finset.mem_filter

/-- The number of edges of a shortest chain. -/
noncomputable def distance (edges : List Dependency) (s root : String) : ℕ :=
  sInf {n | ∃ services, Chain edges services s root ∧ services.length = n + 1}

/-- What makes a root better: more services covered, then a smaller sum of their distances, then
being an input service, then the name. -/
abbrev Rank := ℕᵒᵈ ×ₗ ℕ ×ₗ Boolᵒᵈ ×ₗ String

def rankOf (covered distance : ℕ) (alerted : Bool) (root : String) : Rank :=
  toLex (OrderDual.toDual covered, toLex (distance, toLex (OrderDual.toDual alerted, root)))

noncomputable def rootRank (edges : List Dependency) (services : List String)
    (unassigned : Finset String) (root : String) : Rank :=
  rankOf (coverage edges unassigned root).card
    (∑ s ∈ coverage edges unassigned root, distance edges s root) (root ∈ services) root

/-- The group of a round: its root is better than every other name, and its members are the services
that the root covers. -/
structure BestGroup (edges : List Dependency) (services : List String)
    (unassigned : Finset String) (group : Group) : Prop where
  root : ∀ name, name ≠ group.root →
    rootRank edges services unassigned group.root < rootRank edges services unassigned name
  members : group.members.toFinset = coverage edges unassigned group.root
  nodup : group.members.Nodup

theorem rankOf_lt_iff {c c' d d' : ℕ} {a a' : Bool} {r r' : String} :
    rankOf c d a r < rankOf c' d' a' r' ↔
      c' < c ∨ c = c' ∧ (d < d' ∨ d = d' ∧ (a' < a ∨ a = a' ∧ r < r')) := by
  rw [rankOf, rankOf, Prod.Lex.toLex_lt_toLex, Prod.Lex.toLex_lt_toLex, Prod.Lex.toLex_lt_toLex]
  simp only [OrderDual.toDual_lt_toDual, OrderDual.toDual_inj]

/-! ## What the loop compares -/

def Best.rank (best : Best) : Rank :=
  rankOf best.members.length best.distance best.alerted best.root

theorem before_iff {t : String} : before s t = true ↔ s < t := by
  rw [String.lt_iff_toList_lt]
  exact decide_eq_true_iff

/-- Once there is a choice, `betterRoot` compares ranks. -/
theorem betterRoot_iff {members : List String} {distance : ℕ} {alerted : Bool}
    (hbest : best.root ≠ "") :
    betterRoot root members distance alerted best = true ↔
      Best.rank ⟨root, members, distance, alerted⟩ < best.rank := by
  rw [Best.rank, Best.rank, rankOf_lt_iff]
  have hbool : ∀ x y : Bool, x < y ↔ x ≠ y ∧ y = true := by decide
  unfold betterRoot
  by_cases hlength : members.length = best.members.length
  · by_cases hdistance : distance = best.distance
    · by_cases halerted : alerted = best.alerted
      · simp [hlength, hdistance, halerted, hbest, before_iff]
      · rw [if_neg (not_not.mpr hlength), if_neg (not_not.mpr hdistance), if_pos halerted, hlength,
          hdistance, hbool]
        simp [halerted, Ne.symm halerted]
    · simp [hlength, hdistance]
  · simp [hlength]

namespace Graph

variable {g : Graph}

/-- The choice of a root. -/
def choice (g : Graph) (alerted unassigned : List String) (root : String) : Best :=
  ⟨root, (g.covered root unassigned).1, (g.covered root unassigned).2, root ∈ alerted⟩

/-- The choice after looking at candidates: none, where no candidate covers a service, or the best
of those that do. -/
structure ChosenBest (g : Graph) (alerted unassigned candidates : List String) (best : Best) :
    Prop where
  choice : best = g.choice alerted unassigned best.root
  named : best.root ≠ ""
  least : ∀ root ∈ candidates, (g.covered root unassigned).1 ≠ [] →
    best.rank ≤ (g.choice alerted unassigned root).rank

/-- Looking at a candidate keeps the better choice. -/
theorem ChosenBest.consider (h : g.ChosenBest alerted unassigned seen best) (hroot : root ≠ "") :
    g.ChosenBest alerted unassigned (seen ++ [root]) (g.consider alerted unassigned best root) := by
  have hsplit : ∀ {P : String → Prop}, (∀ r ∈ seen, P r) → P root → ∀ r ∈ seen ++ [root], P r :=
    fun hseen hlast => List.forall_mem_append.mpr ⟨hseen, List.forall_mem_singleton.mpr hlast⟩
  unfold Graph.consider
  dsimp only
  split
  · rename_i hempty
    exact ⟨h.choice, h.named, hsplit h.least fun hne => absurd hempty hne⟩
  · split
    · rename_i hbetter
      have hlt := (betterRoot_iff h.named).mp hbetter
      exact ⟨rfl, hroot, hsplit (fun r hr hne => hlt.le.trans (h.least r hr hne)) fun _ => le_rfl⟩
    · rename_i hworse
      have hle := not_lt.mp fun hlt => hworse ((betterRoot_iff h.named).mpr hlt)
      exact ⟨h.choice, h.named, hsplit h.least fun _ => hle⟩

theorem ChosenBest.foldl (h : g.ChosenBest alerted unassigned seen best)
    (hnamed : ∀ root ∈ candidates, root ≠ "") :
    g.ChosenBest alerted unassigned (seen ++ candidates)
      (candidates.foldl (g.consider alerted unassigned) best) := by
  induction candidates generalizing seen best with
  | nil => rwa [List.append_nil]
  | cons root candidates ih =>
    have hnext := ih (h.consider (hnamed root List.mem_cons_self))
      fun r hr => hnamed r (List.mem_cons_of_mem _ hr)
    rwa [List.append_assoc, List.singleton_append] at hnext

/-- The first candidate that covers a service is a choice. -/
theorem foldl_consider_least (hnamed : ∀ root ∈ candidates, root ≠ "")
    (hcovers : ∃ root ∈ candidates, (g.covered root unassigned).1 ≠ []) :
    g.ChosenBest alerted unassigned candidates
      (candidates.foldl (g.consider alerted unassigned) ⟨"", [], 0, false⟩) := by
  induction candidates with
  | nil =>
    obtain ⟨root, hroot, -⟩ := hcovers
    cases hroot
  | cons root candidates ih =>
    have hrest : ∀ r ∈ candidates, r ≠ "" := fun r hr => hnamed r (List.mem_cons_of_mem _ hr)
    rw [List.foldl_cons]
    by_cases hempty : (g.covered root unassigned).1 = []
    · have hkeep :
          g.consider alerted unassigned ⟨"", [], 0, false⟩ root = ⟨"", [], 0, false⟩ := by
        simp [Graph.consider, hempty]
      rw [hkeep]
      obtain ⟨r, hr, hne⟩ := hcovers
      have hmem : r ∈ candidates :=
        (List.mem_cons.mp hr).resolve_left fun heq => hne (heq ▸ hempty)
      have hlater := ih hrest ⟨r, hmem, hne⟩
      refine ⟨hlater.choice, hlater.named, fun r' hr' hne' => ?_⟩
      rcases List.mem_cons.mp hr' with rfl | hr'
      · exact absurd hempty hne'
      · exact hlater.least r' hr' hne'
    · have htake : g.consider alerted unassigned ⟨"", [], 0, false⟩ root =
          g.choice alerted unassigned root := by
        simp [Graph.consider, hempty, betterRoot, choice]
      rw [htake]
      have hfirst : g.ChosenBest alerted unassigned [root] (g.choice alerted unassigned root) :=
        ⟨rfl, hnamed root List.mem_cons_self, fun r hr _ => by rw [List.mem_singleton.mp hr]⟩
      exact hfirst.foldl hrest

/-- The choice of a round is the best of its candidates. -/
theorem bestRoot_least (alerted : List String) (hne : unassigned ≠ [])
    (hnamed : ∀ s ∈ unassigned, s ≠ "") :
    g.ChosenBest alerted unassigned (g.rootCandidates unassigned)
      (g.bestRoot alerted unassigned) := by
  obtain ⟨s, hs⟩ := List.exists_mem_of_ne_nil _ hne
  have hcovers : s ∈ (g.covered s unassigned).1 :=
    mem_covered.mpr ⟨hs, hnamed s hs, hnamed s hs, .refl⟩
  have hleast : g.ChosenBest alerted unassigned (g.rootCandidates unassigned)
      ((g.rootCandidates unassigned).foldl (g.consider alerted unassigned) ⟨"", [], 0, false⟩) := by
    refine foldl_consider_least (fun root hroot => ?_)
      ⟨s, mem_rootCandidates.mpr ⟨s, hs, .refl⟩, List.ne_nil_of_mem hcovers⟩
    obtain ⟨t, ht, hreach⟩ := mem_rootCandidates.mp hroot
    exact g.ne_empty_of_reaches hreach (hnamed t ht)
  rw [bestRoot, if_neg hleast.named]
  exact hleast

end Graph

/-! ## What a round covers -/

section

variable {edges : List Dependency} {unassigned : List String}

theorem coverage_eq (hnamed : ∀ s ∈ unassigned, s ≠ "") (root : String) :
    coverage edges unassigned.toFinset root =
      ((Graph.new edges).covered root unassigned).1.toFinset := by
  ext s
  rw [List.mem_toFinset, Graph.mem_covered, mem_coverage, List.mem_toFinset, ← reaches_new_iff]
  constructor
  · rintro ⟨hs, hreach⟩
    exact ⟨hs, hnamed s hs, Graph.ne_empty_of_reaches _ hreach (hnamed s hs), hreach⟩
  · rintro ⟨hs, -, -, hreach⟩
    exact ⟨hs, hreach⟩

/-- A path has the length of a shortest chain. -/
theorem distance_eq {p : Path} (h : (Graph.new edges).path s root = some p) :
    distance edges s root = p.services.length - 1 := by
  obtain ⟨hs, hroot, -⟩ := Graph.path_isSome_iff.mp (Option.isSome_of_eq_some h)
  obtain ⟨-, -, hchain, -, hshortest, -⟩ := (path_canonical edges hs hroot).2 p h
  have hpos : 0 < p.services.length := by
    rw [List.length_pos_iff]
    intro hnil
    have := hchain.head
    rw [hnil] at this
    cases this
  have hmem : p.services.length - 1 ∈
      {n | ∃ services, Chain edges services s root ∧ services.length = n + 1} :=
    ⟨p.services, hchain, by omega⟩
  refine le_antisymm (Nat.sInf_le hmem) (le_csInf ⟨_, hmem⟩ ?_)
  rintro n ⟨services, hservices, hlength⟩
  have := hshortest services hservices
  omega

theorem sum_distance_eq (hnodup : unassigned.Nodup) (hnamed : ∀ s ∈ unassigned, s ≠ "")
    (root : String) :
    ∑ s ∈ coverage edges unassigned.toFinset root, distance edges s root =
      ((Graph.new edges).covered root unassigned).2 := by
  have hfound : (unassigned.filter fun s => ((Graph.new edges).path s root).isSome).Nodup :=
    hnodup.filter _
  have hset : coverage edges unassigned.toFinset root =
      (unassigned.filter fun s => ((Graph.new edges).path s root).isSome).toFinset := by
    rw [coverage_eq hnamed]
    exact List.toFinset_eq_of_perm _ _ (sortStrings_perm _)
  rw [hset, List.sum_toFinset _ hfound]
  refine congrArg List.sum (List.map_congr_left fun s hs => ?_)
  obtain ⟨p, hp⟩ := Option.isSome_iff_exists.mp (List.mem_filter.mp hs).2
  rw [distance_eq hp, hp]
  rfl

/-- The rank of a name is that of its choice. -/
theorem rootRank_eq (hnodup : unassigned.Nodup) (hnamed : ∀ s ∈ unassigned, s ≠ "")
    (services : List String) (hroot : root ≠ "") :
    rootRank edges services unassigned.toFinset root =
      ((Graph.new edges).choice (uniqueSorted services) unassigned root).rank := by
  have hcard : (coverage edges unassigned.toFinset root).card =
      ((Graph.new edges).covered root unassigned).1.length := by
    rw [coverage_eq hnamed, List.toFinset_card_of_nodup (Graph.nodup_covered hnodup root)]
  have halerted : decide (root ∈ services) = decide (root ∈ uniqueSorted services) :=
    decide_eq_decide.mpr (by rw [mem_uniqueSorted]; exact ⟨fun h => ⟨h, hroot⟩, And.left⟩)
  rw [rootRank, hcard, sum_distance_eq hnodup hnamed, halerted]
  rfl

/-- The group of a round is the best one. -/
theorem nextGroup_best (hne : unassigned ≠ []) (hnodup : unassigned.Nodup)
    (hnamed : ∀ s ∈ unassigned, s ≠ "") (services : List String) :
    BestGroup edges services unassigned.toFinset
      ((Graph.new edges).nextGroup (uniqueSorted services) unassigned) := by
  have hleast := (Graph.new edges).bestRoot_least (uniqueSorted services) hne hnamed
  have hformed := (Graph.new edges).nextGroup_formed (uniqueSorted services) hne hnamed
  have hmembers := hformed.members
  have hroot : ((Graph.new edges).nextGroup (uniqueSorted services) unassigned).root =
      ((Graph.new edges).bestRoot (uniqueSorted services) unassigned).root := rfl
  generalize (Graph.new edges).nextGroup (uniqueSorted services) unassigned = group at *
  have hrank : rootRank edges services unassigned.toFinset group.root =
      ((Graph.new edges).bestRoot (uniqueSorted services) unassigned).rank := by
    rw [hroot, rootRank_eq hnodup hnamed services hleast.named]
    exact congrArg Best.rank hleast.choice.symm
  refine ⟨fun name hname => ?_, ?_, ?_⟩
  · by_cases hcovers : ((Graph.new edges).covered name unassigned).1 = []
    · -- a name that covers nothing is worse than any root
      have hnone : (coverage edges unassigned.toFinset name).card = 0 := by
        rw [coverage_eq hnamed, hcovers]
        rfl
      have hsome : 0 < (coverage edges unassigned.toFinset group.root).card := by
        rw [coverage_eq hnamed, ← hmembers]
        obtain ⟨m, hm⟩ := List.exists_mem_of_ne_nil _ hformed.nonempty
        exact Finset.card_pos.mpr ⟨m, List.mem_toFinset.mpr hm⟩
      rw [rootRank, rootRank, rankOf_lt_iff, hnone]
      exact .inl hsome
    · obtain ⟨s, hs⟩ := List.exists_mem_of_ne_nil _ hcovers
      obtain ⟨hs, -, hnameNe, hreach⟩ := Graph.mem_covered.mp hs
      have hle := hleast.least name (Graph.mem_rootCandidates.mpr ⟨s, hs, hreach⟩) hcovers
      rw [hrank, rootRank_eq hnodup hnamed services hnameNe]
      refine lt_of_le_of_ne hle fun heq => hname ?_
      have hlast := congrArg (fun r : Rank => (ofLex (ofLex (ofLex r).2).2).2) heq
      exact hlast.symm.trans hroot.symm
  · rw [coverage_eq hnamed, ← hmembers]
  · rw [hmembers]
    exact Graph.nodup_covered hnodup _

/-- Every round of the loop forms the best group of what the earlier ones left. -/
theorem formGroups_best (services : List String)
    (h : (Graph.new edges).formGroups (uniqueSorted services) fuel unassigned = some formed)
    (hnodup : unassigned.Nodup) (hnamed : ∀ s ∈ unassigned, s ≠ "") :
    ∀ earlier group later, formed = earlier ++ group :: later →
      BestGroup edges services
        (unassigned.toFinset \ (earlier.flatMap Group.members).toFinset) group := by
  induction fuel generalizing unassigned formed with
  | zero =>
    intro earlier group later heq
    cases unassigned with
    | nil =>
      simp only [Graph.formGroups, Option.some.injEq] at h
      simp [← h] at heq
    | cons s unassigned => simp [Graph.formGroups] at h
  | succ fuel ih =>
    intro earlier group later heq
    cases unassigned with
    | nil =>
      simp only [Graph.formGroups, Option.some.injEq] at h
      simp [← h] at heq
    | cons s unassigned =>
      rw [Graph.formGroups] at h
      obtain ⟨rest, hrest, rfl⟩ := Option.map_eq_some_iff.mp h
      cases earlier with
      | nil =>
        cases heq
        rw [List.flatMap_nil, List.toFinset_nil, Finset.sdiff_empty]
        exact nextGroup_best (List.cons_ne_nil _ _) hnodup hnamed services
      | cons first earlier =>
        obtain ⟨rfl, rfl⟩ := List.cons.inj heq
        have hlater := ih hrest (hnodup.filter _)
          (fun t ht => hnamed t (List.mem_of_mem_filter ht)) earlier group later rfl
        convert hlater using 1
        ext t
        simp only [Finset.mem_sdiff, List.mem_toFinset, List.mem_filter, List.flatMap_cons,
          List.mem_append, decide_eq_true_eq, not_or, and_assoc]

end

/-! ## Sets of edges and services -/

theorem sortedKeys_congr (h : ∀ s, s ∈ l ↔ s ∈ l') : sortedKeys l = sortedKeys l' := by
  refine sortStrings_eq_of_perm ((List.perm_ext_iff_of_nodup (List.nodup_dedup l)
    (List.nodup_dedup l')).mpr fun s => ?_)
  rw [List.mem_dedup, List.mem_dedup, h]

theorem dependenciesOf_congr (h : ∀ e, e ∈ edges ↔ e ∈ edges') (service : String) :
    dependenciesOf edges service = dependenciesOf edges' service := by
  refine sortStrings_eq_of_perm ((List.perm_ext_iff_of_nodup
    (nodup_foldl_appendUnique List.nodup_nil) (nodup_foldl_appendUnique List.nodup_nil)).mpr
    fun s => ?_)
  rw [mem_foldl_appendUnique, mem_foldl_appendUnique]
  simp only [List.mem_filter, h]

namespace Graph

theorem dependsOn_congr (h : ∀ e, e ∈ edges ↔ e ∈ edges') :
    (new edges).DependsOn = (new edges').DependsOn := by
  funext x y
  change (y ∈ dependenciesOf edges x) = (y ∈ dependenciesOf edges' x)
  rw [dependenciesOf_congr h]

/-- Graphs with the same dependencies find the same paths. -/
theorem path_congr (h : ∀ e, e ∈ edges ↔ e ∈ edges') (a b : String) :
    (new edges).path a b = (new edges').path a b := by
  have hdependencies : dependenciesOf edges = dependenciesOf edges' :=
    funext (dependenciesOf_congr h)
  have hreaches : (new edges).Reaches a b ↔ (new edges').Reaches a b := by
    rw [Reaches, Reaches, dependsOn_congr h]
  have hsome : ((new edges).path a b).isSome = ((new edges').path a b).isSome := by
    rw [Bool.eq_iff_iff, path_isSome_iff, path_isSome_iff, hreaches]
  cases hp : (new edges).path a b with
  | none =>
    rw [hp] at hsome
    exact (Option.isNone_iff_eq_none.mp (Option.isSome_eq_false_iff.mp hsome.symm)).symm
  | some p =>
    rw [hp] at hsome
    obtain ⟨p', hp'⟩ := Option.isSome_iff_exists.mp hsome.symm
    obtain ⟨hsource, htarget, -⟩ := path_sound hp
    obtain ⟨hsource', htarget', -⟩ := path_sound hp'
    have hleast := (path_least hp).1
    rw [hdependencies] at hleast
    have hservices := hleast.unique (path_least hp').1
    rw [hp']
    cases p
    cases p'
    simp_all

theorem covered_congr (h : ∀ e, e ∈ edges ↔ e ∈ edges') (root : String) (hl : l.Perm l') :
    (new edges).covered root l = (new edges').covered root l' := by
  unfold covered
  simp only [path_congr h]
  have hfound := hl.filter fun s => ((new edges').path s root).isSome
  exact Prod.ext (sortStrings_eq_of_perm hfound) (hfound.map _).sum_eq

theorem rootCandidates_congr (h : ∀ e, e ∈ edges ↔ e ∈ edges') (hl : l.Perm l') :
    (new edges).rootCandidates l = (new edges').rootCandidates l' := by
  refine sortedKeys_congr fun s => ?_
  simp only [List.mem_flatMap, mem_reachable_iff, Reaches, dependsOn_congr h, hl.mem_iff]

/-! ## The order of iteration -/

/-- A choice in which each range over the unassigned services has an order of its own: `order none`
for the candidates, `order (some root)` for what `root` covers. -/
def bestRootIn (g : Graph) (alerted : List String) (order : Option String → List String) : Best :=
  let best := (g.rootCandidates (order none)).foldl
    (fun best root => g.consider alerted (order (some root)) best root) ⟨"", [], 0, false⟩
  if best.root = "" then
    ⟨firstKey (order none), [firstKey (order none)], best.distance, true⟩
  else best

/-- The group of a choice. -/
def groupOf (g : Graph) (best : Best) : Group where
  root := best.root
  environment := ""
  inferred := !best.alerted
  members := best.members
  paths := best.members.map fun m => (m, (g.path m best.root).getD ⟨"", "", []⟩)

/-- The loop, whatever orders the maps are iterated in. -/
inductive Iterates (g : Graph) (alerted : List String) : List String → List Group → Prop
  | nil : Iterates g alerted [] []
  | cons {unassigned : List String} {groups : List Group} (order : Option String → List String)
      (hne : unassigned ≠ []) (horder : ∀ key, (order key).Perm unassigned)
      (hrest : Iterates g alerted (unassigned.filter
        (· ∉ (g.groupOf (g.bestRootIn alerted order)).members)) groups) :
      Iterates g alerted unassigned (g.groupOf (g.bestRootIn alerted order) :: groups)

theorem groupOf_bestRootIn (h : ∀ e, e ∈ edges ↔ e ∈ edges') (alerted : List String)
    {order : Option String → List String} (horder : ∀ key, (order key).Perm unassigned) :
    (new edges').groupOf ((new edges').bestRootIn alerted order) =
      (new edges).nextGroup alerted unassigned := by
  have hcandidates := rootCandidates_congr h (horder none).symm
  have hconsider : (fun best root => (new edges').consider alerted (order (some root)) best root) =
      (new edges).consider alerted unassigned := by
    funext best root
    rw [consider, consider, covered_congr h root (horder (some root)).symm]
  have hfirst : firstKey (order none) = firstKey unassigned := by
    rw [firstKey, firstKey, sortedKeys_congr fun s => (horder none).mem_iff]
  have hbest : (new edges').bestRootIn alerted order = (new edges).bestRoot alerted unassigned := by
    rw [bestRootIn, bestRoot, hconsider, hcandidates, hfirst]
  rw [hbest, groupOf, nextGroup]
  simp only [path_congr h]

/-- The loop is an iteration in one fixed order. -/
theorem iterates_formGroups (h : (new edges).formGroups alerted fuel unassigned = some formed) :
    (new edges).Iterates alerted unassigned formed := by
  induction fuel generalizing unassigned formed with
  | zero =>
    cases unassigned with
    | nil =>
      simp only [Graph.formGroups, Option.some.injEq] at h
      exact h ▸ .nil
    | cons s unassigned => simp [Graph.formGroups] at h
  | succ fuel ih =>
    cases unassigned with
    | nil =>
      simp only [Graph.formGroups, Option.some.injEq] at h
      exact h ▸ .nil
    | cons s unassigned =>
      rw [Graph.formGroups] at h
      obtain ⟨rest, hrest, rfl⟩ := Option.map_eq_some_iff.mp h
      exact .cons (fun _ => s :: unassigned) (List.cons_ne_nil _ _) (fun _ => .refl _)
        (ih hrest)

/-- Any orders of iteration give the groups of the loop. -/
theorem Iterates.formGroups (h : ∀ e, e ∈ edges ↔ e ∈ edges')
    (hrun : Iterates (new edges') alerted unassigned formed) (hfuel : unassigned.length ≤ fuel)
    (hnamed : ∀ s ∈ unassigned, s ≠ "") :
    (new edges).formGroups alerted fuel unassigned = some formed := by
  induction hrun generalizing fuel with
  | nil => cases fuel <;> rfl
  | @cons unassigned groups order hne horder hrest ih =>
    have hgroup := groupOf_bestRootIn h alerted horder
    rw [hgroup] at ih ⊢
    have hlt := ((new edges).nextGroup_formed alerted hne hnamed).length_lt
    cases unassigned with
    | nil => exact absurd rfl hne
    | cons s unassigned =>
      cases fuel with
      | zero => cases hfuel
      | succ fuel =>
        have hlater := ih (Nat.le_of_lt_succ (hlt.trans_le hfuel))
          fun t ht => hnamed t (List.mem_of_mem_filter ht)
        simp only [Graph.formGroups, hlater, Option.map_some]

end Graph

/-! ## The groups -/

/-- The input services that the groups formed earlier left. -/
def remaining (services : List String) (earlier : List Group) : Finset String :=
  {s ∈ services.toFinset | s ≠ ""} \ (earlier.flatMap Group.members).toFinset

/-- Every group has the best root of all names, and the groups are determined by the sets of edges
and services: any listing of them, and any order in which the maps are iterated, gives the same
groups. -/
theorem groups_best (edges : List Dependency) (services : List String) :
    ∃ formed, (Graph.new edges).groups services =
        stableSort (fun a b => before a.root b.root) formed ∧
      (Graph.new edges).Iterates (uniqueSorted services) (uniqueSorted services) formed ∧
      (∀ earlier group later, formed = earlier ++ group :: later →
        BestGroup edges services (remaining services earlier) group) ∧
      ∀ edges' services' formed', (∀ e, e ∈ edges ↔ e ∈ edges') →
        (∀ s, s ∈ services ↔ s ∈ services') →
        (Graph.new edges').Iterates (uniqueSorted services') (uniqueSorted services') formed' →
          formed' = formed := by
  have hnamed : ∀ s ∈ uniqueSorted services, s ≠ "" := fun s hs => (mem_uniqueSorted.mp hs).2
  obtain ⟨formed, hformed, -, -⟩ := (Graph.new edges).groups_formation services
  refine ⟨formed, ?_, Graph.iterates_formGroups hformed, fun earlier group later heq => ?_, ?_⟩
  · rw [Graph.groups, Option.get_of_eq_some _ hformed]
  · have hset : (uniqueSorted services).toFinset = {s ∈ services.toFinset | s ≠ ""} := by
      ext s
      simp [mem_uniqueSorted]
    rw [remaining, ← hset]
    exact formGroups_best services hformed (nodup_uniqueSorted services) hnamed earlier group later
      heq
  · intro edges' services' formed' hedges hservices hrun
    have hsame : uniqueSorted services' = uniqueSorted services :=
      sortedKeys_congr fun s => by rw [List.mem_filter, List.mem_filter, hservices]
    rw [hsame] at hrun
    have hformed' := hrun.formGroups hedges le_rfl hnamed
    exact Option.some.inj (hformed'.symm.trans hformed)

end Argus.Topology

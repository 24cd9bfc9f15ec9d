import Argus.Topology.Groups

/-!
# The groups partition the alerting services behind independent roots

Two facts about a round carry the results. Whoever reaches the root of a round is assigned by it,
so the services still unassigned reach nothing that was assigned before (`Isolated`); and no
candidate of a round covers more than the root it chose, so the root of a later round cannot lie
below that of an earlier one (`Formed.not_reaches`), since it would have covered both groups.
-/

namespace Argus.Topology.Graph

open Sorting

variable {g : Graph} {alerted unassigned : List String} {group : Group} {groups : List Group}

/-! ## A round -/

variable {services : List String} {s : String}

section

variable (h : g.Formed alerted unassigned group)

include h

theorem Formed.mem_members_iff :
    s ∈ group.members ↔ s ∈ unassigned ∧ s ≠ "" ∧ group.root ≠ "" ∧ g.Reaches s group.root := by
  rw [h.members]
  exact mem_covered

theorem Formed.root_ne_empty : group.root ≠ "" := by
  obtain ⟨m, hm⟩ := List.exists_mem_of_ne_nil _ h.nonempty
  exact (h.mem_members_iff.mp hm).2.2.1

theorem Formed.nodup (hnodup : unassigned.Nodup) : group.members.Nodup :=
  h.members ▸ nodup_covered hnodup _

/-- The recorded path of a member. -/
theorem Formed.lookup_paths {m : String} (hm : m ∈ group.members) :
    ∃ p, SortedAssoc.lookup m group.paths = some p ∧ g.path m group.root = some p := by
  obtain ⟨p, -, hmem⟩ := h.paths m hm
  obtain ⟨q, hlookup⟩ := SortedAssoc.exists_lookup_of_mem hmem
  exact ⟨q, hlookup, (h.recorded m q (SortedAssoc.mem_of_lookup hlookup)).2⟩

end

/-- The unassigned services reach none of the alerting services that are already assigned. -/
def Isolated (g : Graph) (alerted unassigned : List String) : Prop :=
  ∀ s ∈ unassigned, ∀ x ∈ alerted, g.Reaches s x → x ∈ unassigned

theorem Formed.isolated (h : g.Formed alerted unassigned group)
    (hisolated : g.Isolated alerted unassigned) (hnamed : ∀ s ∈ unassigned, s ≠ "") :
    g.Isolated alerted (unassigned.filter (· ∉ group.members)) := by
  intro s hs x hx hreach
  obtain ⟨hs, hleft⟩ := List.mem_filter.mp hs
  refine List.mem_filter.mpr ⟨hisolated s hs x hx hreach, decide_eq_true fun hmem => ?_⟩
  -- `x` reaches the root, so `s` would have been assigned with it
  have hroot := (h.mem_members_iff.mp hmem).2.2.2
  exact of_decide_eq_true hleft
    (h.mem_members_iff.mpr ⟨hs, hnamed s hs, h.root_ne_empty, hreach.trans hroot⟩)

/-- An alerting root is a member of its own group. -/
theorem Formed.root_mem (h : g.Formed alerted unassigned group)
    (hisolated : g.Isolated alerted unassigned) (hroot : group.root ∈ alerted) :
    group.root ∈ group.members := by
  obtain ⟨m, hm⟩ := List.exists_mem_of_ne_nil _ h.nonempty
  obtain ⟨hmem, -, -, hreach⟩ := h.mem_members_iff.mp hm
  exact h.mem_members_iff.mpr
    ⟨hisolated m hmem _ hroot hreach, h.root_ne_empty, h.root_ne_empty, .refl⟩

/-- The root of a round does not reach the root of another group of services it left over: that
root would have covered the members of both. -/
theorem Formed.not_reaches {rest : List String} {later : Group}
    (h : g.Formed alerted unassigned group) (hlater : g.Formed alerted rest later)
    (hrest : ∀ s ∈ rest, s ∈ unassigned ∧ s ∉ group.members) (hnodup : unassigned.Nodup)
    (hrestNodup : rest.Nodup) : ¬ g.Reaches group.root later.root := by
  intro hreach
  obtain ⟨m, hm⟩ := List.exists_mem_of_ne_nil _ hlater.nonempty
  obtain ⟨hmem, -, hroot, hmroot⟩ := hlater.mem_members_iff.mp hm
  have hle := h.maximal m (hrest m hmem).1 later.root hmroot
  have hsubset : group.members ++ later.members ⊆ (g.covered later.root unassigned).1 := by
    intro s hs
    rcases List.mem_append.mp hs with hs | hs
    · obtain ⟨hsmem, hne, -, hsroot⟩ := h.mem_members_iff.mp hs
      exact mem_covered.mpr ⟨hsmem, hne, hroot, hsroot.trans hreach⟩
    · obtain ⟨hsmem, hne, -, hsroot⟩ := hlater.mem_members_iff.mp hs
      exact mem_covered.mpr ⟨(hrest s hsmem).1, hne, hroot, hsroot⟩
  have hboth : (group.members ++ later.members).Nodup := by
    refine List.nodup_append.mpr ⟨h.nodup hnodup, hlater.nodup hrestNodup, ?_⟩
    rintro s hs t ht rfl
    exact (hrest s (hlater.mem_members_iff.mp ht).1).2 hs
  have hlength := (hboth.subperm hsubset).length_le
  rw [List.length_append] at hlength
  have hpos := List.length_pos_of_mem hm
  omega

/-! ## The whole loop -/

section

variable (h : g.Formation alerted unassigned groups)

include h

/-- Every group of a run was formed in some round, from services that were unassigned before. -/
theorem Formation.exists_formed (hmem : group ∈ groups) :
    ∃ rest, rest.Sublist unassigned ∧ g.Formed alerted rest group := by
  induction h with
  | nil => cases hmem
  | cons hformed _ ih =>
    rcases List.mem_cons.mp hmem with rfl | hmem
    · exact ⟨_, List.Sublist.refl _, hformed⟩
    · obtain ⟨rest, hsub, hrest⟩ := ih hmem
      exact ⟨rest, hsub.trans List.filter_sublist, hrest⟩

theorem Formation.mem_iff : (∃ group ∈ groups, s ∈ group.members) ↔ s ∈ unassigned := by
  induction h with
  | nil => simp
  | @cons unassigned group groups hformed _ ih =>
    simp only [List.mem_cons, exists_eq_or_imp, ih, List.mem_filter, decide_eq_true_eq]
    constructor
    · rintro (hmem | hmem)
      · exact (hformed.mem_members_iff.mp hmem).1
      · exact hmem.1
    · intro hmem
      by_cases hin : s ∈ group.members
      · exact .inl hin
      · exact .inr ⟨hmem, hin⟩

theorem Formation.root_mem (hisolated : g.Isolated alerted unassigned)
    (hnamed : ∀ s ∈ unassigned, s ≠ "") (hmem : group ∈ groups) (hroot : group.root ∈ alerted) :
    group.root ∈ group.members := by
  induction h with
  | nil => cases hmem
  | cons hformed _ ih =>
    rcases List.mem_cons.mp hmem with rfl | hmem
    · exact hformed.root_mem hisolated hroot
    · exact ih (hformed.isolated hisolated hnamed)
        (fun s hs => hnamed s (List.mem_of_mem_filter hs)) hmem

/-- What holds between an earlier and a later group of a run. -/
structure Independent (g : Graph) (earlier later : Group) : Prop where
  members : earlier.members.Disjoint later.members
  unreached : ∀ m ∈ later.members, ¬ g.Reaches m earlier.root
  downward : ¬ g.Reaches earlier.root later.root
  upward : ¬ g.Reaches later.root earlier.root

theorem Formation.independent (hnodup : unassigned.Nodup) : groups.Pairwise g.Independent := by
  induction h with
  | nil => exact .nil
  | @cons unassigned group groups hformed hrest ih =>
    refine .cons (fun later hlater => ?_) (ih (hnodup.filter _))
    obtain ⟨rest, hsub, hlaterFormed⟩ := hrest.exists_formed hlater
    have hleft : ∀ s ∈ rest, s ∈ unassigned ∧ s ∉ group.members := fun s hs => by
      simpa using hsub.subset hs
    have hunreached : ∀ m ∈ later.members, ¬ g.Reaches m group.root := fun m hm hreach => by
      obtain ⟨hmem, hne, -, -⟩ := hlaterFormed.mem_members_iff.mp hm
      obtain ⟨hun, hnot⟩ := hleft m hmem
      exact hnot (hformed.mem_members_iff.mpr ⟨hun, hne, hformed.root_ne_empty, hreach⟩)
    refine ⟨fun m hm hm' => ?_, hunreached, ?_, fun hreach => ?_⟩
    · exact (hleft m (hlaterFormed.mem_members_iff.mp hm').1).2 hm
    · exact hformed.not_reaches hlaterFormed hleft hnodup
        (hsub.nodup (hnodup.filter _))
    · obtain ⟨m, hm⟩ := List.exists_mem_of_ne_nil _ hlaterFormed.nonempty
      exact hunreached m hm ((hlaterFormed.mem_members_iff.mp hm).2.2.2.trans hreach)

end

/-! ## The groups of a delivery -/

theorem groups_disjoint (services : List String) :
    (g.groups services).Pairwise fun a b => a.members.Disjoint b.members := by
  obtain ⟨formed, -, hformation, hperm⟩ := g.groups_formation services
  refine (hperm.pairwise_iff fun h => h.symm).mpr ?_
  exact (hformation.independent (nodup_uniqueSorted services)).imp fun h => h.members

theorem mem_groups_iff :
    (∃ group ∈ g.groups services, s ∈ group.members) ↔ s ∈ services ∧ s ≠ "" := by
  obtain ⟨formed, -, hformation, hperm⟩ := g.groups_formation services
  simp only [hperm.mem_iff, hformation.mem_iff, mem_uniqueSorted]

section

variable (hmem : group ∈ g.groups services)

include hmem

theorem formed_of_mem_groups :
    ∃ rest, rest.Sublist (uniqueSorted services) ∧
      g.Formed (uniqueSorted services) rest group := by
  obtain ⟨formed, -, hformation, hperm⟩ := g.groups_formation services
  exact hformation.exists_formed (hperm.mem_iff.mp hmem)

theorem reaches_root_of_mem_groups (hs : s ∈ group.members) : g.Reaches s group.root := by
  obtain ⟨rest, -, hformed⟩ := formed_of_mem_groups hmem
  exact (hformed.mem_members_iff.mp hs).2.2.2

theorem inferred_iff_of_mem_groups : group.inferred = true ↔ group.root ∉ services := by
  obtain ⟨rest, -, hformed⟩ := formed_of_mem_groups hmem
  rw [hformed.inferred, decide_eq_true_eq, mem_uniqueSorted]
  exact not_congr ⟨fun h => h.1, fun h => ⟨h, hformed.root_ne_empty⟩⟩

theorem root_mem_of_mem_groups (hroot : group.inferred = false) : group.root ∈ group.members := by
  obtain ⟨formed, -, hformation, hperm⟩ := g.groups_formation services
  have hin : group.root ∈ services := by
    by_contra hnot
    rw [(inferred_iff_of_mem_groups hmem).mpr hnot] at hroot
    cases hroot
  obtain ⟨rest, -, hformed⟩ := formed_of_mem_groups hmem
  exact hformation.root_mem (fun _ _ _ hx _ => hx) (fun s hs => (mem_uniqueSorted.mp hs).2)
    (hperm.mem_iff.mp hmem) (mem_uniqueSorted.mpr ⟨hin, hformed.root_ne_empty⟩)

end

theorem path_self (hne : s ≠ "") : g.path s s = some ⟨s, s, [s]⟩ := by
  simp [path, hne]

/-- A service that alerts alone is its own root. -/
theorem root_of_alone (hne : s ≠ "") (halone : ∀ t ∈ services, t = s)
    (hmem : group ∈ g.groups services) : group.root = s := by
  obtain ⟨rest, hsub, hformed⟩ := formed_of_mem_groups hmem
  have hall : ∀ t ∈ rest, t = s := fun t ht =>
    halone t (mem_uniqueSorted.mp (hsub.subset ht)).1
  obtain ⟨m, hm⟩ := List.exists_mem_of_ne_nil _ hformed.nonempty
  obtain ⟨hrest, -, -, hreach⟩ := hformed.mem_members_iff.mp hm
  obtain rfl := hall m hrest
  -- the service itself covers all that is left, at distance zero
  have hkept : rest.filter (fun t => (g.path t m).isSome) = rest := by
    refine List.filter_eq_self.mpr fun t ht => ?_
    rw [hall t ht, path_self hne]
    rfl
  have hlength : (g.covered m rest).1.length = group.members.length := by
    refine le_antisymm (hformed.maximal m hrest m .refl) ?_
    rw [hformed.members, covered, covered, (sortStrings_perm _).length_eq,
      (sortStrings_perm _).length_eq, hkept]
    exact List.length_filter_le ..
  have hzero : (g.covered m rest).2 = 0 := by
    rw [covered, hkept]
    refine List.sum_eq_zero_iff_forall_eq_nat.mpr fun d hd => ?_
    obtain ⟨t, ht, rfl⟩ := List.mem_map.mp hd
    rw [hall t ht, path_self hne]
    rfl
  have hcovers : (g.covered m rest).1 ≠ [] :=
    List.ne_nil_of_mem (mem_covered.mpr ⟨hrest, hne, hne, .refl⟩)
  have hnearest := hformed.nearest m hrest m .refl hcovers hlength
  rw [hzero, covered] at hnearest
  -- so does the root, and a path of length zero leads nowhere else
  obtain ⟨p, hp⟩ := Option.isSome_iff_exists.mp
    (path_isSome_iff.mpr ⟨hne, hformed.root_ne_empty, hreach⟩)
  have hshort := List.sum_eq_zero_iff_forall_eq_nat.mp (Nat.le_zero.mp hnearest) _
    (List.mem_map_of_mem (List.mem_filter.mpr ⟨hrest, Option.isSome_of_eq_some hp⟩))
  rw [hp, Option.map_some, Option.getD_some] at hshort
  obtain ⟨-, -, hpath⟩ := path_sound hp
  cases hservices : p.services with
  | nil =>
    have hhead := hpath.head
    rw [hservices] at hhead
    cases hhead
  | cons x tail =>
    obtain rfl : tail = [] := by
      rw [hservices, List.length_cons] at hshort
      exact List.length_eq_zero_iff.mp (by omega)
    have hhead := hpath.head
    have hlast := hpath.last
    rw [hservices] at hhead hlast
    exact (Option.some.inj hlast).symm.trans (Option.some.inj hhead)

/-- The steps of a path are stored dependencies. -/
theorem chain_of_path {edges : List Dependency} {d : String} {p : Path}
    (h : (Graph.new edges).path s d = some p) : p.services.IsChain fun a b => ⟨a, b⟩ ∈ edges := by
  refine (path_sound h).2.2.chain.imp fun a b hab => ?_
  obtain ⟨e, he, -, rfl, rfl⟩ := mem_dependenciesOf.mp hab
  exact he

/-- **The groups are a partition with real paths.** The loop ends; the groups share no member and
hold exactly the nonempty input services; the path recorded for a member is a chain of stored
dependencies from it to the root; and a root is inferred exactly when it is no input service, and
otherwise is a member of its own group. -/
theorem groups_partition (edges : List Dependency) (services : List String) :
    ((Graph.new edges).formGroups (uniqueSorted services) (uniqueSorted services).length
      (uniqueSorted services)).isSome = true ∧
    ((Graph.new edges).groups services).Pairwise (fun a b => a.members.Disjoint b.members) ∧
    (∀ s, (∃ group ∈ (Graph.new edges).groups services, s ∈ group.members) ↔
      s ∈ services ∧ s ≠ "") ∧
    ∀ group ∈ (Graph.new edges).groups services,
      group.members.Nodup ∧
      (∀ m ∈ group.members, ∃ p, SortedAssoc.lookup m group.paths = some p ∧
        p.source = m ∧ p.target = group.root ∧
        p.services.head? = some m ∧ p.services.getLast? = some group.root ∧
        p.services.IsChain fun a b => ⟨a, b⟩ ∈ edges) ∧
      (group.inferred = true ↔ group.root ∉ services) ∧
      (group.inferred = false → group.root ∈ group.members) := by
  refine ⟨formGroups_isSome services, groups_disjoint services, fun s => mem_groups_iff,
    fun group hmem => ?_⟩
  obtain ⟨rest, hsub, hformed⟩ := formed_of_mem_groups hmem
  refine ⟨hformed.nodup (hsub.nodup (nodup_uniqueSorted services)), fun m hm => ?_,
    inferred_iff_of_mem_groups hmem, root_mem_of_mem_groups hmem⟩
  obtain ⟨p, hlookup, hp⟩ := hformed.lookup_paths hm
  obtain ⟨hsource, htarget, hpath⟩ := path_sound hp
  exact ⟨p, hlookup, hsource, htarget, hpath.head, hpath.last, chain_of_path hp⟩

/-- **The roots are independent.** No root equals or reaches another one, and in the order in which
the loop forms the groups no member of a later group reaches the root of an earlier one. -/
theorem group_roots_independent (edges : List Dependency) (services : List String) :
    ((Graph.new edges).groups services).Pairwise (fun a b =>
      a.root ≠ b.root ∧ ¬ (Graph.new edges).Reaches a.root b.root ∧
        ¬ (Graph.new edges).Reaches b.root a.root) ∧
    ∃ formed, (Graph.new edges).formGroups (uniqueSorted services) (uniqueSorted services).length
        (uniqueSorted services) = some formed ∧
      ((Graph.new edges).groups services).Perm formed ∧
      formed.Pairwise fun earlier later =>
        ∀ m ∈ later.members, ¬ (Graph.new edges).Reaches m earlier.root := by
  obtain ⟨formed, hformed, hformation, hperm⟩ := (Graph.new edges).groups_formation services
  have hindependent := hformation.independent (nodup_uniqueSorted services)
  refine ⟨?_, formed, hformed, hperm, hindependent.imp fun h => h.unreached⟩
  refine (hperm.pairwise_iff fun h => ⟨h.1.symm, h.2.2, h.2.1⟩).mpr ?_
  refine hindependent.imp fun h => ⟨fun heq => ?_, h.downward, h.upward⟩
  exact h.downward (heq ▸ .refl)

end Argus.Topology.Graph

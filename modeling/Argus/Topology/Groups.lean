import Argus.Topology.Graph

/-!
# Grouping alerting services behind a root

`groups` repeatedly picks the service that the most unassigned services reach, takes them as the
members of a group behind it, and goes on with the rest. A round of the loop is described once by
`Formed`: its root is a candidate, its members are the unassigned services that reach the root, and
no candidate covers more. A whole run is a `Formation`; the results about `groups` follow by
induction on it.
-/

namespace Argus.Topology

open Sorting

/-- Services grouped behind a root. -/
structure Group where
  root : String
  environment : String
  inferred : Bool
  members : List String
  paths : List (String × Path)
  deriving DecidableEq, Repr

/-- The choice of a round so far. -/
structure Best where
  root : String
  members : List String
  distance : ℕ
  alerted : Bool
  deriving DecidableEq, Repr

def betterRoot (root : String) (members : List String) (distance : ℕ) (rootAlerted : Bool)
    (best : Best) : Bool :=
  if members.length ≠ best.members.length then best.members.length < members.length
  else if distance ≠ best.distance then distance < best.distance
  else if rootAlerted ≠ best.alerted then rootAlerted
  else best.root == "" || before root best.root

def sortedKeys (values : List String) : List String := sortStrings values.dedup

def uniqueSorted (values : List String) : List String := sortedKeys (values.filter (· ≠ ""))

def firstKey (values : List String) : String := (sortedKeys values).head?.getD ""

variable {unassigned : List String} {root s : String}

theorem mem_uniqueSorted {values : List String} :
    s ∈ uniqueSorted values ↔ s ∈ values ∧ s ≠ "" := by
  simp [uniqueSorted, sortedKeys]

theorem nodup_uniqueSorted (values : List String) : (uniqueSorted values).Nodup :=
  nodup_sortStrings.mpr (List.nodup_dedup _)

namespace Graph

variable (g : Graph)

/-- The services that some unassigned service reaches. -/
def rootCandidates (unassigned : List String) : List String :=
  sortedKeys (unassigned.flatMap g.reachable)

/-- The unassigned services that reach `root`, and the sum of their distances. -/
def covered (root : String) (unassigned : List String) : List String × ℕ :=
  let found := unassigned.filter fun s => (g.path s root).isSome
  (sortStrings found,
    (found.map fun s => ((g.path s root).map fun p => p.services.length - 1).getD 0).sum)

/-- Look at one candidate. -/
def consider (alerted unassigned : List String) (best : Best) (root : String) : Best :=
  let (members, distance) := g.covered root unassigned
  if members = [] then best
  else if betterRoot root members distance (root ∈ alerted) best then
    ⟨root, members, distance, root ∈ alerted⟩
  else best

/-- The choice of one round. When no candidate was taken it falls back on the first unassigned
service alone. -/
def bestRoot (alerted unassigned : List String) : Best :=
  let best := (g.rootCandidates unassigned).foldl (g.consider alerted unassigned) ⟨"", [], 0, false⟩
  if best.root = "" then
    ⟨firstKey unassigned, [firstKey unassigned], best.distance, true⟩
  else best

/-- The group of one round. -/
def nextGroup (alerted unassigned : List String) : Group :=
  let best := g.bestRoot alerted unassigned
  { root := best.root
    environment := ""
    inferred := !best.alerted
    members := best.members
    paths := best.members.map fun m => (m, (g.path m best.root).getD ⟨"", "", []⟩) }

/-- The greedy loop: groups in the order in which they are formed. -/
def formGroups (alerted : List String) : ℕ → List String → Option (List Group)
  | _, [] => some []
  | 0, _ :: _ => none
  | fuel + 1, s :: unassigned =>
    let group := g.nextGroup alerted (s :: unassigned)
    (formGroups alerted fuel ((s :: unassigned).filter (· ∉ group.members))).map (group :: ·)

/-! ## One round -/

variable {g}

theorem mem_rootCandidates :
    root ∈ g.rootCandidates unassigned ↔ ∃ s ∈ unassigned, g.Reaches s root := by
  simp [rootCandidates, sortedKeys, mem_reachable_iff]

theorem mem_covered :
    s ∈ (g.covered root unassigned).1 ↔
      s ∈ unassigned ∧ s ≠ "" ∧ root ≠ "" ∧ g.Reaches s root := by
  simp [covered, path_isSome_iff]

theorem nodup_covered (h : unassigned.Nodup) (root : String) :
    (g.covered root unassigned).1.Nodup :=
  nodup_sortStrings.mpr (h.filter _)

/-- `consider` keeps the larger coverage. -/
theorem consider_spec (alerted unassigned : List String) (best : Best) (root : String) :
    (g.consider alerted unassigned best root = best ∨
      (g.covered root unassigned).1 ≠ [] ∧
        (g.consider alerted unassigned best root).root = root ∧
        (g.consider alerted unassigned best root).members = (g.covered root unassigned).1 ∧
        (g.consider alerted unassigned best root).distance = (g.covered root unassigned).2 ∧
        (g.consider alerted unassigned best root).alerted = decide (root ∈ alerted)) ∧
      best.members.length ≤ (g.consider alerted unassigned best root).members.length ∧
      (g.covered root unassigned).1.length ≤
        (g.consider alerted unassigned best root).members.length := by
  simp only [consider]
  split
  · rename_i hempty
    simp [hempty]
  · rename_i hne
    split
    · rename_i hbetter
      refine ⟨.inr ⟨hne, rfl, rfl, rfl, rfl⟩, ?_, le_rfl⟩
      unfold betterRoot at hbetter
      split at hbetter
      · exact (of_decide_eq_true hbetter).le
      · rename_i heq
        exact (not_not.mp heq).ge
    · rename_i hworse
      refine ⟨.inl rfl, le_rfl, ?_⟩
      unfold betterRoot at hworse
      split at hworse
      · rename_i hlen
        have := of_decide_eq_false (Bool.not_eq_true _ ▸ hworse)
        omega
      · rename_i heq
        exact (not_not.mp heq).le

/-- At equal coverage `consider` keeps the smaller distance. -/
theorem consider_distance (alerted unassigned : List String) (best : Best) (root : String) :
    (best.members.length = (g.consider alerted unassigned best root).members.length →
      (g.consider alerted unassigned best root).distance ≤ best.distance) ∧
    ((g.covered root unassigned).1 ≠ [] → (g.covered root unassigned).1.length =
        (g.consider alerted unassigned best root).members.length →
      (g.consider alerted unassigned best root).distance ≤ (g.covered root unassigned).2) := by
  simp only [consider]
  split
  · rename_i hempty
    exact ⟨fun _ => le_rfl, fun hne => absurd hempty hne⟩
  · split
    · rename_i hbetter
      refine ⟨fun heq => ?_, fun _ _ => le_rfl⟩
      rw [betterRoot, if_neg (not_not.mpr heq.symm)] at hbetter
      split at hbetter
      · exact (of_decide_eq_true hbetter).le
      · rename_i hdistance
        exact (not_not.mp hdistance).le
    · rename_i hworse
      refine ⟨fun _ => le_rfl, fun _ heq => ?_⟩
      rw [betterRoot, if_neg (not_not.mpr heq)] at hworse
      split at hworse
      · rename_i hdistance
        have := of_decide_eq_false (Bool.not_eq_true _ ▸ hworse)
        omega
      · rename_i hdistance
        exact (not_not.mp hdistance).ge

/-- What a choice must satisfy to be the outcome of looking at `candidates`. -/
structure Chosen (g : Graph) (alerted unassigned candidates : List String) (best : Best) :
    Prop where
  candidate : best.root ∈ candidates
  members : best.members = (g.covered best.root unassigned).1
  distance : best.distance = (g.covered best.root unassigned).2
  nonempty : best.members ≠ []
  alerted : best.alerted = decide (best.root ∈ alerted)

/-- Looking at candidates in turn keeps the choice so far or makes a better one, and ends with a
coverage that none of them exceeds. -/
theorem foldl_consider_spec (alerted unassigned : List String) (candidates : List String)
    (best : Best) :
    let last := candidates.foldl (g.consider alerted unassigned) best
    (last = best ∨ g.Chosen alerted unassigned candidates last) ∧
      best.members.length ≤ last.members.length ∧
      ∀ root ∈ candidates, (g.covered root unassigned).1.length ≤ last.members.length := by
  induction candidates generalizing best with
  | nil => simp
  | cons root candidates ih =>
    obtain ⟨hkeep, hbest, hroot⟩ := g.consider_spec alerted unassigned best root
    obtain ⟨hchosen, hlater, hrest⟩ := ih (g.consider alerted unassigned best root)
    refine ⟨?_, hbest.trans hlater, ?_⟩
    · rcases hchosen with hsame | hchosen
      · rcases hkeep with hkept | ⟨hne, hr, hm, hd, ha⟩
        · exact .inl (hsame.trans hkept)
        · refine .inr ?_
          rw [List.foldl_cons, hsame]
          exact ⟨by rw [hr]; exact List.mem_cons_self, by rw [hr, hm], by rw [hr, hd], hm ▸ hne,
            by rw [ha, hr]⟩
      · exact .inr ⟨List.mem_cons_of_mem _ hchosen.candidate, hchosen.members, hchosen.distance,
          hchosen.nonempty, hchosen.alerted⟩
    · rintro r (_ | ⟨_, hr⟩)
      · exact hroot.trans hlater
      · exact hrest r hr

/-- Of the candidates with the coverage of the choice, none is nearer. -/
theorem foldl_consider_distance (alerted unassigned : List String) (candidates : List String)
    (best : Best) :
    let last := candidates.foldl (g.consider alerted unassigned) best
    (best.members.length = last.members.length → last.distance ≤ best.distance) ∧
      ∀ root ∈ candidates, (g.covered root unassigned).1 ≠ [] →
        (g.covered root unassigned).1.length = last.members.length →
        last.distance ≤ (g.covered root unassigned).2 := by
  induction candidates generalizing best with
  | nil => simp
  | cons root candidates ih =>
    obtain ⟨-, hbest, hroot⟩ := g.consider_spec alerted unassigned best root
    obtain ⟨-, hlater, -⟩ := g.foldl_consider_spec alerted unassigned candidates
      (g.consider alerted unassigned best root)
    obtain ⟨hfirst, hcovered⟩ := g.consider_distance alerted unassigned best root
    obtain ⟨hnear, hrest⟩ := ih (g.consider alerted unassigned best root)
    refine ⟨fun heq => ?_, fun r hr hne heq => ?_⟩
    · have hmid : best.members.length =
          (g.consider alerted unassigned best root).members.length :=
        le_antisymm hbest (heq ▸ hlater)
      exact (hnear (hmid.symm.trans heq)).trans (hfirst hmid)
    · rcases List.mem_cons.mp hr with rfl | hr
      · have hmid : (g.covered r unassigned).1.length =
            (g.consider alerted unassigned best r).members.length :=
          le_antisymm hroot (heq ▸ hlater)
        exact (hnear (hmid.symm.trans heq)).trans (hcovered hne hmid)
      · exact hrest r hr hne heq

/-- One round: the root is reached by an unassigned service, its members are the unassigned
services that reach it, no service reached by an unassigned one covers more, and none that covers as
many is nearer. -/
structure Formed (g : Graph) (alerted unassigned : List String) (group : Group) : Prop where
  members : group.members = (g.covered group.root unassigned).1
  nonempty : group.members ≠ []
  maximal : ∀ s ∈ unassigned, ∀ root, g.Reaches s root →
    (g.covered root unassigned).1.length ≤ group.members.length
  nearest : ∀ s ∈ unassigned, ∀ root, g.Reaches s root → (g.covered root unassigned).1 ≠ [] →
    (g.covered root unassigned).1.length = group.members.length →
    (g.covered group.root unassigned).2 ≤ (g.covered root unassigned).2
  inferred : group.inferred = decide (group.root ∉ alerted)
  paths : ∀ m ∈ group.members, ∃ p, g.path m group.root = some p ∧ (m, p) ∈ group.paths
  recorded : ∀ m p, (m, p) ∈ group.paths → m ∈ group.members ∧ g.path m group.root = some p

theorem bestRoot_chosen (alerted : List String) (hne : unassigned ≠ [])
    (hnamed : ∀ s ∈ unassigned, s ≠ "") :
    g.Chosen alerted unassigned (g.rootCandidates unassigned) (g.bestRoot alerted unassigned) ∧
      (∀ root ∈ g.rootCandidates unassigned,
        (g.covered root unassigned).1.length ≤ (g.bestRoot alerted unassigned).members.length) ∧
      ∀ root ∈ g.rootCandidates unassigned, (g.covered root unassigned).1 ≠ [] →
        (g.covered root unassigned).1.length = (g.bestRoot alerted unassigned).members.length →
        (g.bestRoot alerted unassigned).distance ≤ (g.covered root unassigned).2 := by
  obtain ⟨hchosen, -, hmax⟩ := g.foldl_consider_spec alerted unassigned
    (g.rootCandidates unassigned) ⟨"", [], 0, false⟩
  obtain ⟨-, hnear⟩ := g.foldl_consider_distance alerted unassigned
    (g.rootCandidates unassigned) ⟨"", [], 0, false⟩
  obtain ⟨s, hs⟩ := List.exists_mem_of_ne_nil _ hne
  have hcandidate : s ∈ g.rootCandidates unassigned := mem_rootCandidates.mpr ⟨s, hs, .refl⟩
  have hcovers : s ∈ (g.covered s unassigned).1 :=
    mem_covered.mpr ⟨hs, hnamed s hs, hnamed s hs, .refl⟩
  -- some candidate covers something, so the fallback is not taken
  have hchosen' := hchosen.resolve_left fun hinit => by
    have hle := hmax s hcandidate
    rw [hinit] at hle
    exact absurd (List.length_pos_of_mem hcovers) (by simpa using hle)
  have hroot : ((g.rootCandidates unassigned).foldl (g.consider alerted unassigned)
      ⟨"", [], 0, false⟩).root ≠ "" := by
    obtain ⟨t, ht, hreach⟩ := mem_rootCandidates.mp hchosen'.candidate
    exact g.ne_empty_of_reaches hreach (hnamed t ht)
  have heq : g.bestRoot alerted unassigned = (g.rootCandidates unassigned).foldl
      (g.consider alerted unassigned) ⟨"", [], 0, false⟩ := by
    rw [bestRoot, if_neg hroot]
  rw [heq]
  exact ⟨hchosen', hmax, hnear⟩

theorem nextGroup_formed (alerted : List String) (hne : unassigned ≠ [])
    (hnamed : ∀ s ∈ unassigned, s ≠ "") :
    g.Formed alerted unassigned (g.nextGroup alerted unassigned) := by
  obtain ⟨hchosen, hmax, hnear⟩ := g.bestRoot_chosen alerted hne hnamed
  have hpath : ∀ m ∈ (g.bestRoot alerted unassigned).members,
      ∃ p, g.path m (g.bestRoot alerted unassigned).root = some p := fun m hm => by
    rw [hchosen.members] at hm
    exact Option.isSome_iff_exists.mp (path_isSome_iff.mpr (mem_covered.mp hm).2)
  refine ⟨hchosen.members, hchosen.nonempty, fun s hs root hroot => ?_,
    fun s hs root hroot hcovers hlength => ?_, ?_, fun m hm => ?_, fun m p hmp => ?_⟩
  · exact hmax root (mem_rootCandidates.mpr ⟨s, hs, hroot⟩)
  · have hle := hnear root (mem_rootCandidates.mpr ⟨s, hs, hroot⟩) hcovers hlength
    rwa [hchosen.distance] at hle
  · simp [nextGroup, hchosen.alerted]
  · obtain ⟨p, hp⟩ := hpath m hm
    exact ⟨p, hp, List.mem_map.mpr ⟨m, hm, by rw [hp]; rfl⟩⟩
  · obtain ⟨m', hm', heq⟩ := List.mem_map.mp hmp
    obtain ⟨p', hp'⟩ := hpath m' hm'
    rw [hp'] at heq
    cases heq
    exact ⟨hm', hp'⟩

/-! ## The loop -/

/-- A run of the loop over the unassigned services. -/
inductive Formation (g : Graph) (alerted : List String) : List String → List Group → Prop
  | nil : Formation g alerted [] []
  | cons {unassigned : List String} {group : Group} {groups : List Group} :
      g.Formed alerted unassigned group →
      Formation g alerted (unassigned.filter (· ∉ group.members)) groups →
      Formation g alerted unassigned (group :: groups)

/-- A round assigns at least one service. -/
theorem Formed.length_lt {alerted : List String} {group : Group}
    (h : g.Formed alerted unassigned group) :
    (unassigned.filter (· ∉ group.members)).length < unassigned.length := by
  obtain ⟨m, hm⟩ := List.exists_mem_of_ne_nil _ h.nonempty
  have hmem : m ∈ unassigned := by
    rw [h.members] at hm
    exact (mem_covered.mp hm).1
  rw [List.length_filter_lt_length_iff_exists]
  exact ⟨m, hmem, by simp [hm]⟩

/-- The loop ends after at most one round for each unassigned service. -/
theorem formGroups_formation (alerted : List String) {fuel : ℕ} (hfuel : unassigned.length ≤ fuel)
    (hnamed : ∀ s ∈ unassigned, s ≠ "") :
    ∃ groups, g.formGroups alerted fuel unassigned = some groups ∧
      g.Formation alerted unassigned groups := by
  induction fuel generalizing unassigned with
  | zero =>
    obtain rfl : unassigned = [] := List.length_eq_zero_iff.mp (by omega)
    exact ⟨[], rfl, .nil⟩
  | succ fuel ih =>
    cases unassigned with
    | nil => exact ⟨[], rfl, .nil⟩
    | cons s unassigned =>
      have hformed := g.nextGroup_formed alerted (List.cons_ne_nil s unassigned) hnamed
      have hlt := hformed.length_lt
      obtain ⟨groups, hgroups, hrest⟩ := ih (Nat.le_of_lt_succ (hlt.trans_le hfuel))
        fun t ht => hnamed t (List.mem_of_mem_filter ht)
      exact ⟨_ :: groups, by simp only [formGroups, hgroups, Option.map_some],
        .cons hformed hrest⟩

theorem formGroups_isSome (services : List String) :
    (g.formGroups (uniqueSorted services) (uniqueSorted services).length
      (uniqueSorted services)).isSome := by
  obtain ⟨groups, hgroups, -⟩ := g.formGroups_formation (uniqueSorted services) le_rfl
    fun s hs => (mem_uniqueSorted.mp hs).2
  exact Option.isSome_of_eq_some hgroups

variable (g) in
/-- `Groups`: the groups behind the services of a delivery, ordered by their roots. -/
def groups (services : List String) : List Group :=
  stableSort (fun a b => before a.root b.root) ((g.formGroups (uniqueSorted services)
    (uniqueSorted services).length (uniqueSorted services)).get (formGroups_isSome services))

theorem groups_formation (services : List String) :
    ∃ formed, g.formGroups (uniqueSorted services) (uniqueSorted services).length
        (uniqueSorted services) = some formed ∧
      g.Formation (uniqueSorted services) (uniqueSorted services) formed ∧
      (g.groups services).Perm formed := by
  obtain ⟨formed, hformed, hformation⟩ := g.formGroups_formation (uniqueSorted services) le_rfl
    fun s hs => (mem_uniqueSorted.mp hs).2
  refine ⟨formed, hformed, hformation, ?_⟩
  have hget : (g.formGroups (uniqueSorted services) (uniqueSorted services).length
      (uniqueSorted services)).get (formGroups_isSome services) = formed :=
    Option.get_of_eq_some _ hformed
  rw [groups, hget]
  exact stableSort_perm _ _

end Graph

end Argus.Topology

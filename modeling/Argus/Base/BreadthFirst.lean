import Mathlib.Data.Finset.Card
import Mathlib.Data.List.Nodup
import Mathlib.Logic.Relation

/-!
# Breadth-first search

A search keeps a queue of entries, each standing for a node and carrying what was gathered on the
way to it, and the nodes met so far. It takes the first entry, looks at the successors of its node
in turn, skips those already met, and either stops at the first one it was looking for or appends
an entry for it. The loop is bounded by fuel; running out is an outcome of its own (`none`), and
`run_isSome` says how much fuel always suffices on a finite graph.

* `run_inl`: what is found is wanted, and has every property that holds of the first entries and
  is kept along an edge;
* `run_inr`: when nothing is found, the nodes met are closed under successors and none of the new
  ones is wanted, so that they contain everything the start reaches (`mem_of_closed`).
-/

namespace Argus.BreadthFirst

/-- The entries still to be expanded, and the nodes already met. -/
structure Frontier (α β : Type*) where
  queue : List β
  visited : List α

/-- What a search is over: the node of an entry, the successors of a node, the entry of a successor,
and the nodes that end the search. -/
structure Search (α β : Type*) where
  node : β → α
  next : α → List α
  extend : β → α → β
  goal : α → Bool

namespace Search

variable {α β : Type*} [DecidableEq α] (S : Search α β)

/-- Look at successors of `current` in turn. -/
def scan (current : β) : List α → Frontier α β → β ⊕ Frontier α β
  | [], f => .inr f
  | x :: xs, f =>
    if x ∈ f.visited then scan current xs f
    else if S.goal x then .inl (S.extend current x)
    else scan current xs ⟨f.queue ++ [S.extend current x], x :: f.visited⟩

/-- Expand entries until a wanted node is met or no entry is left. -/
def run : ℕ → Frontier α β → Option (β ⊕ List α)
  | _, ⟨[], visited⟩ => some (.inr visited)
  | 0, ⟨_ :: _, _⟩ => none
  | fuel + 1, ⟨current :: queue, visited⟩ =>
    match S.scan current (S.next (S.node current)) ⟨queue, visited⟩ with
    | .inl found => some (.inl found)
    | .inr f => run fuel f

/-! ## One expansion -/

theorem scan_inl {current found : β} {xs : List α} {f : Frontier α β}
    (h : S.scan current xs f = .inl found) :
    ∃ x ∈ xs, x ∉ f.visited ∧ S.goal x = true ∧ found = S.extend current x := by
  induction xs generalizing f with
  | nil => cases h
  | cons x xs ih =>
    simp only [scan] at h
    split at h
    · obtain ⟨y, hy, hgoal⟩ := ih h
      exact ⟨y, List.mem_cons_of_mem _ hy, hgoal⟩
    · rename_i hseen
      split at h
      · rename_i hgoal
        exact ⟨x, List.mem_cons_self, hseen, hgoal, (Sum.inl.inj h).symm⟩
      · obtain ⟨y, hy, hfresh, hgoal⟩ := ih h
        exact ⟨y, List.mem_cons_of_mem _ hy, fun hv => hfresh (List.mem_cons_of_mem _ hv), hgoal⟩

/-- What an expansion that finds nothing adds: entries for the successors met for the first time. -/
structure Expansion (current : β) (xs : List α) (f f' : Frontier α β) (new : List α) : Prop where
  queue : f'.queue = f.queue ++ new.map (S.extend current)
  visited : f'.visited = new.reverse ++ f.visited
  nodup : new.Nodup
  sublist : new.Sublist xs
  fresh : ∀ x ∈ new, x ∈ xs ∧ x ∉ f.visited ∧ S.goal x = false
  complete : ∀ x ∈ xs, x ∈ f'.visited

theorem scan_inr {current : β} {xs : List α} {f f' : Frontier α β}
    (h : S.scan current xs f = .inr f') : ∃ new, S.Expansion current xs f f' new := by
  induction xs generalizing f with
  | nil =>
    cases h
    exact ⟨[], by simp, by simp, List.nodup_nil, .slnil, by simp, by simp⟩
  | cons x xs ih =>
    simp only [scan] at h
    split at h
    · rename_i hseen
      obtain ⟨new, hnew⟩ := ih h
      refine ⟨new, hnew.queue, hnew.visited, hnew.nodup, hnew.sublist.cons x, fun y hy => ?_, ?_⟩
      · obtain ⟨hmem, hrest⟩ := hnew.fresh y hy
        exact ⟨List.mem_cons_of_mem _ hmem, hrest⟩
      · rintro y (_ | ⟨_, hy⟩)
        · rw [hnew.visited]
          exact List.mem_append_right _ hseen
        · exact hnew.complete y hy
    · rename_i hseen
      split at h
      · cases h
      · rename_i hgoal
        obtain ⟨new, hnew⟩ := ih h
        have hx : x ∉ new := fun hmem => (hnew.fresh x hmem).2.1 List.mem_cons_self
        refine ⟨x :: new, ?_, ?_, List.nodup_cons.mpr ⟨hx, hnew.nodup⟩, hnew.sublist.cons_cons x,
          ?_, ?_⟩
        · rw [hnew.queue, List.append_assoc]
          rfl
        · rw [hnew.visited, List.reverse_cons, List.append_assoc]
          rfl
        · rintro y (_ | ⟨_, hy⟩)
          · exact ⟨List.mem_cons_self, hseen, Bool.not_eq_true _ ▸ hgoal⟩
          · obtain ⟨hmem, hfresh, hng⟩ := hnew.fresh y hy
            exact ⟨List.mem_cons_of_mem _ hmem, fun hv => hfresh (List.mem_cons_of_mem _ hv), hng⟩
        · rintro y (_ | ⟨_, hy⟩)
          · rw [hnew.visited]
            exact List.mem_append_right _ List.mem_cons_self
          · exact hnew.complete y hy

/-! ## The whole search -/

/-- What is found has every property that the first entries have and an edge keeps. -/
theorem run_inl {P : β → Prop} (hP : ∀ b, P b → ∀ x ∈ S.next (S.node b), P (S.extend b x))
    {fuel : ℕ} {f : Frontier α β} {found : β} (hf : ∀ b ∈ f.queue, P b)
    (h : S.run fuel f = some (.inl found)) :
    P found ∧ ∃ b x, S.goal x = true ∧ found = S.extend b x := by
  induction fuel, f using run.induct S with
  | case1 => simp [run] at h
  | case2 => cases h
  | case3 fuel current queue visited b hscan =>
    simp only [run, hscan, Option.some.injEq, Sum.inl.injEq] at h
    subst h
    obtain ⟨x, hx, -, hgoal, rfl⟩ := S.scan_inl hscan
    exact ⟨hP current (hf current List.mem_cons_self) x hx, current, x, hgoal, rfl⟩
  | case4 fuel current queue visited f hscan ih =>
    obtain ⟨new, hnew⟩ := S.scan_inr hscan
    simp only [run, hscan] at h
    refine ih (fun b hb => ?_) h
    rw [hnew.queue, List.mem_append, List.mem_map] at hb
    rcases hb with hb | ⟨x, hx, rfl⟩
    · exact hf b (List.mem_cons_of_mem _ hb)
    · exact hP current (hf current List.mem_cons_self) x (hnew.fresh x hx).1

/-- Between two expansions every entry stands for a node that was met, and a node without an entry
has all its successors met. -/
structure Inv (f : Frontier α β) : Prop where
  queued : ∀ b ∈ f.queue, S.node b ∈ f.visited
  closed : ∀ x ∈ f.visited, x ∈ f.queue.map S.node ∨ ∀ y ∈ S.next x, y ∈ f.visited

omit [DecidableEq α] in
variable {S} in
/-- Expanding the first entry keeps the invariant. -/
theorem Inv.expansion (hnode : ∀ b x, S.node (S.extend b x) = x) {current : β} {queue : List β}
    {visited new : List α} {f : Frontier α β} (hinv : S.Inv ⟨current :: queue, visited⟩)
    (hnew : S.Expansion current (S.next (S.node current)) ⟨queue, visited⟩ f new) : S.Inv f := by
  have hold : ∀ x ∈ visited, x ∈ f.visited := fun x hx => by
    rw [hnew.visited]
    exact List.mem_append_right _ hx
  have hmem : ∀ x ∈ new, x ∈ f.visited := fun x hx => by
    rw [hnew.visited]
    exact List.mem_append_left _ (List.mem_reverse.mpr hx)
  refine ⟨fun b hb => ?_, fun x hx => ?_⟩
  · rw [hnew.queue, List.mem_append, List.mem_map] at hb
    rcases hb with hb | ⟨x, hx, rfl⟩
    · exact hold _ (hinv.queued b (List.mem_cons_of_mem _ hb))
    · rw [hnode]
      exact hmem x hx
  · rw [hnew.visited, List.mem_append, List.mem_reverse] at hx
    rw [hnew.queue, List.map_append, List.map_map]
    rcases hx with hx | hx
    · refine .inl (List.mem_append_right _ (List.mem_map.mpr ⟨x, hx, hnode _ _⟩))
    · rcases hinv.closed x hx with hq | hq
      · rw [List.map_cons, List.mem_cons] at hq
        rcases hq with rfl | hq
        · exact .inr fun y hy => hnew.complete y hy
        · exact .inl (List.mem_append_left _ hq)
      · exact .inr fun y hy => hold y (hq y hy)

/-- A search that finds nothing ends with a closed set of nodes that contains those met at first;
what it added is not wanted and has every property of nodes that is kept along an edge. -/
theorem run_inr {P : α → Prop} (hnode : ∀ b x, S.node (S.extend b x) = x)
    (hP : ∀ x, P x → ∀ y ∈ S.next x, P y) {fuel : ℕ} {f : Frontier α β} {visited : List α}
    (hinv : S.Inv f) (hf : ∀ x ∈ f.visited, P x) (h : S.run fuel f = some (.inr visited)) :
    (∀ x ∈ f.visited, x ∈ visited) ∧ (∀ x ∈ visited, ∀ y ∈ S.next x, y ∈ visited) ∧
      (∀ x ∈ visited, P x ∧ (x ∈ f.visited ∨ S.goal x = false)) := by
  induction fuel, f using run.induct S with
  | case1 fuel seen =>
    simp only [run, Option.some.injEq, Sum.inr.injEq] at h
    subst h
    refine ⟨fun _ hx => hx, fun x hx => ?_, fun x hx => ⟨hf x hx, .inl hx⟩⟩
    exact (hinv.closed x hx).resolve_left (by simp)
  | case2 => cases h
  | case3 fuel current queue seen b hscan => simp [run, hscan] at h
  | case4 fuel current queue seen f hscan ih =>
    obtain ⟨new, hnew⟩ := S.scan_inr hscan
    simp only [run, hscan] at h
    have hcurrent : P (S.node current) := hf _ (hinv.queued _ List.mem_cons_self)
    have hf' : ∀ x ∈ f.visited, P x := fun x hx => by
      rw [hnew.visited, List.mem_append, List.mem_reverse] at hx
      rcases hx with hx | hx
      · exact hP _ hcurrent x (hnew.fresh x hx).1
      · exact hf x hx
    obtain ⟨hsub, hclosed, hall⟩ := ih (hinv.expansion hnode hnew) hf' h
    refine ⟨fun x hx => hsub x ?_, hclosed, fun x hx => ?_⟩
    · rw [hnew.visited]
      exact List.mem_append_right _ hx
    · obtain ⟨hPx, hmem⟩ := hall x hx
      refine ⟨hPx, ?_⟩
      rw [hnew.visited, List.mem_append, List.mem_reverse] at hmem
      rcases hmem with (hmem | hmem) | hmem
      · exact .inr (hnew.fresh x hmem).2.2
      · exact .inl hmem
      · exact .inr hmem

/-- On a graph whose successors stay within `nodes`, a unit of fuel for every entry and every node
not yet met suffices. -/
theorem run_isSome {nodes : Finset α} (hnodes : ∀ x, ∀ y ∈ S.next x, y ∈ nodes) {fuel : ℕ}
    {f : Frontier α β} (hfuel : f.queue.length + (nodes \ f.visited.toFinset).card ≤ fuel) :
    (S.run fuel f).isSome := by
  induction fuel, f using run.induct S with
  | case1 => simp [run]
  | case2 current queue visited =>
    simp only [List.length_cons] at hfuel
    omega
  | case3 fuel current queue visited b hscan => simp [run, hscan]
  | case4 fuel current queue visited f hscan ih =>
    obtain ⟨new, hnew⟩ := S.scan_inr hscan
    simp only [run, hscan]
    refine ih ?_
    -- each new entry is paid for by a node that was not met before
    have hsplit : nodes \ visited.toFinset
        = new.toFinset ∪ (nodes \ f.visited.toFinset) := by
      ext x
      simp only [hnew.visited, Finset.mem_sdiff, List.mem_toFinset, Finset.mem_union,
        List.mem_append, List.mem_reverse]
      constructor
      · rintro ⟨hx, hv⟩
        by_cases hn : x ∈ new
        · exact .inl hn
        · exact .inr ⟨hx, fun h => h.elim hn hv⟩
      · rintro (hn | ⟨hx, hv⟩)
        · obtain ⟨hmem, hfresh, -⟩ := hnew.fresh x hn
          exact ⟨hnodes _ x hmem, hfresh⟩
        · exact ⟨hx, fun h => hv (.inr h)⟩
    have hdisjoint : Disjoint new.toFinset (nodes \ f.visited.toFinset) := by
      rw [Finset.disjoint_left]
      intro x hx hmem
      rw [Finset.mem_sdiff, List.mem_toFinset, hnew.visited] at hmem
      exact hmem.2 (List.mem_append_left _ (List.mem_reverse.mpr (List.mem_toFinset.mp hx)))
    have hcard := Finset.card_union_of_disjoint hdisjoint
    rw [← hsplit, List.toFinset_card_of_nodup hnew.nodup] at hcard
    rw [hnew.queue, List.length_append, List.length_map]
    simp only [List.length_cons] at hfuel ⊢
    omega

omit [DecidableEq α] in
/-- A closed set of nodes contains everything its elements reach. -/
theorem mem_of_closed {next : α → List α} {visited : List α}
    (hclosed : ∀ x ∈ visited, ∀ y ∈ next x, y ∈ visited) {x y : α} (hx : x ∈ visited)
    (hreach : Relation.ReflTransGen (fun a b => b ∈ next a) x y) : y ∈ visited := by
  induction hreach with
  | refl => exact hx
  | tail _ hstep ih => exact hclosed _ ih _ hstep

end Search

end Argus.BreadthFirst

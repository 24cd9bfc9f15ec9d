import Argus.Base.BreadthFirst
import Mathlib.Data.List.Chain
import Mathlib.Data.Prod.Lex

/-!
# Breadth-first search finds the least shortest walk

A search whose entries carry the walk they were reached by, over successors in increasing order,
handles walks in the order of their ranks: by length, and position by position at equal length. So
the walk to a node that is met for the first time is the least one of all walks to it (`Least`).
-/

namespace Argus.BreadthFirst

variable {α β : Type*}

/-! ## Walks -/

/-- A walk from `a` to `b` along successors. -/
structure Walk (next : α → List α) (p : List α) (a b : α) : Prop where
  head : p.head? = some a
  last : p.getLast? = some b
  chain : p.IsChain fun x y => y ∈ next x

section

variable {next : α → List α}

theorem Walk.refl (a : α) : Walk next [a] a a := ⟨rfl, rfl, List.isChain_singleton a⟩

variable {p : List α} {a : α}

theorem Walk.concat {b c : α} (h : Walk next p a b) (hc : c ∈ next b) :
    Walk next (p ++ [c]) a c := by
  refine ⟨?_, by simp, ?_⟩
  · rw [List.head?_append, h.head]
    rfl
  · rw [List.isChain_append]
    refine ⟨h.chain, List.isChain_singleton _, fun x hx y hy => ?_⟩
    rw [h.last, Option.mem_def, Option.some.injEq] at hx
    simp only [List.head?_cons, Option.mem_def, Option.some.injEq] at hy
    rw [← hx, ← hy]
    exact hc

theorem Walk.cons {b c : α} (h : Walk next p b c) (hb : b ∈ next a) : Walk next (a :: p) a c := by
  cases p with
  | nil => cases h.head
  | cons x p =>
    obtain rfl : x = b := Option.some.inj h.head
    exact ⟨rfl, by rw [List.getLast?_cons_cons]; exact h.last,
      List.isChain_cons_cons.mpr ⟨hb, h.chain⟩⟩

/-- A walk that leaves a set of nodes does so somewhere for the first time. -/
theorem Walk.exists_exit {y : α} (h : Walk next p a y) {visited : List α} (ha : a ∈ visited)
    (hy : y ∉ visited) :
    ∃ r w z t, p = r ++ z :: t ∧ Walk next r a w ∧ w ∈ visited ∧ z ∉ visited ∧ z ∈ next w ∧
      (t = [] → z = y) := by
  induction p generalizing a with
  | nil => cases h.head
  | cons x p ih =>
    obtain rfl : x = a := Option.some.inj h.head
    cases p with
    | nil =>
      obtain rfl : x = y := Option.some.inj h.last
      exact absurd ha hy
    | cons z t =>
      have hchain := List.isChain_cons_cons.mp h.chain
      have hlast : (z :: t).getLast? = some y := by rw [← h.last, List.getLast?_cons_cons]
      by_cases hz : z ∈ visited
      · obtain ⟨r, w, z', t', heq, hr, hw, hz', hnext, hend⟩ := ih ⟨rfl, hlast, hchain.2⟩ hz
        exact ⟨x :: r, w, z', t', by rw [heq, List.cons_append], hr.cons hchain.1, hw, hz',
          hnext, hend⟩
      · refine ⟨[x], x, z, t, rfl, .refl x, ha, hz, hchain.1, ?_⟩
        rintro rfl
        exact Option.some.inj hlast

end

/-! ## Ranks -/

section

variable [LinearOrder α]

/-- Walks are compared by their length, and position by position at equal length. -/
def rank (p : List α) : ℕ ×ₗ List α := toLex (p.length, p)

variable {p q : List α}

theorem rank_lt_iff : rank p < rank q ↔ p.length < q.length ∨ p.length = q.length ∧ p < q :=
  Prod.Lex.toLex_lt_toLex

theorem append_lt_append (hlength : p.length = q.length) (h : p < q) (u v : List α) :
    p ++ u < q ++ v := by
  induction p generalizing q with
  | nil =>
    obtain rfl : q = [] := List.length_eq_zero_iff.mp hlength.symm
    exact absurd h (lt_irrefl _)
  | cons x p ih =>
    cases q with
    | nil => cases hlength
    | cons y q =>
      rw [List.cons_lt_cons_iff] at h
      rw [List.cons_append, List.cons_append, List.cons_lt_cons_iff]
      rcases h with h | ⟨rfl, h⟩
      · exact .inl h
      · exact .inr ⟨rfl, ih (Nat.succ.inj hlength) h⟩

theorem rank_concat_lt (h : rank p < rank q) (x y : α) : rank (p ++ [x]) < rank (q ++ [y]) := by
  rw [rank_lt_iff] at h ⊢
  rw [List.length_append, List.length_append, List.length_singleton, List.length_singleton]
  rcases h with h | ⟨hlength, h⟩
  · exact .inl (Nat.add_lt_add_right h 1)
  · exact .inr ⟨by rw [hlength], append_lt_append hlength h _ _⟩

theorem rank_concat_le (h : rank p ≤ rank q) (x : α) : rank (p ++ [x]) ≤ rank (q ++ [x]) := by
  rcases h.lt_or_eq with h | h
  · exact (rank_concat_lt h x x).le
  · have heq : p = q := (Prod.ext_iff.mp (toLex.injective h)).2
    rw [heq]

theorem rank_concat_lt_concat (p : List α) {x y : α} (h : x < y) :
    rank (p ++ [x]) < rank (p ++ [y]) := by
  rw [rank_lt_iff]
  refine .inr ⟨by simp, ?_⟩
  exact List.append_left_lt (List.cons_lt_cons_iff.mpr (.inl h))

theorem rank_lt_concat (p : List α) (x : α) : rank p < rank (p ++ [x]) :=
  rank_lt_iff.mpr (.inl (by simp))

theorem length_le_of_rank_le (h : rank p ≤ rank q) : p.length ≤ q.length := by
  rcases h.lt_or_eq with h | h
  · rcases rank_lt_iff.mp h with h | h
    · exact h.le
    · exact h.1.le
  · exact (Prod.ext_iff.mp (toLex.injective h)).1.le

/-- The least walk from `a` to `b`. -/
structure Least (next : α → List α) (p : List α) (a b : α) : Prop where
  walk : Walk next p a b
  le : ∀ q, Walk next q a b → rank p ≤ rank q

theorem Least.refl (next : α → List α) (a : α) : Least next [a] a a := by
  refine ⟨.refl a, fun q hq => ?_⟩
  cases q with
  | nil => cases hq.head
  | cons x q =>
    obtain rfl : x = a := Option.some.inj hq.head
    cases q with
    | nil => exact le_rfl
    | cons y q => exact (rank_lt_iff.mpr (.inl (by simp))).le

/-- There is one least walk. -/
theorem Least.unique {next : α → List α} {a b : α} (hp : Least next p a b) (hq : Least next q a b) :
    p = q := by
  have hrank : rank p = rank q := le_antisymm (hp.le q hq.walk) (hq.le p hp.walk)
  exact (Prod.ext_iff.mp (toLex.injective hrank)).2

/-! ## The order of the queue -/

variable (S : Search α β) (path : β → List α)

/-- The queue of a search from `start`: the walks increase, each is the least one to its node and
goes through nodes that were met without repeating one, and what they extend was handled before any
of them. -/
structure Ordered (start : α) (f : Frontier α β) : Prop where
  sorted : f.queue.Pairwise fun b c => rank (path b) < rank (path c)
  least : ∀ b ∈ f.queue, Least S.next (path b) start (S.node b)
  parent : ∀ b ∈ f.queue, ∀ c ∈ f.queue, rank (path b).dropLast < rank (path c)
  simple : ∀ b ∈ f.queue, (path b).Nodup ∧ ∀ x ∈ path b, x ∈ f.visited

variable {S path} {start : α} {current : β} {queue : List β} {visited : List α}

/-- The walk to a node that is met for the first time is the least one. -/
theorem Ordered.least_concat (h : Ordered S path start ⟨current :: queue, visited⟩)
    (hinv : S.Inv ⟨current :: queue, visited⟩) (hstart : start ∈ visited) {y : α}
    (hy : y ∈ S.next (S.node current)) (hfresh : y ∉ visited) :
    Least S.next (path current ++ [y]) start y := by
  refine ⟨(h.least current List.mem_cons_self).walk.concat hy, fun q hq => ?_⟩
  obtain ⟨r, w, z, t, rfl, hr, hw, hz, hnext, hend⟩ := hq.exists_exit hstart hfresh
  -- the walk leaves the visited nodes from one that still has an entry
  obtain ⟨b, hb, rfl⟩ : ∃ b ∈ current :: queue, S.node b = w := by
    rcases hinv.closed w hw with hqueued | hclosed
    · exact List.mem_map.mp hqueued
    · exact absurd (hclosed z hnext) hz
  have hfirst : rank (path current) ≤ rank (path b) := by
    rcases List.mem_cons.mp hb with rfl | hb
    · exact le_rfl
    · exact ((List.pairwise_cons.mp h.sorted).1 b hb).le
  have hle : rank (path current) ≤ rank r := hfirst.trans ((h.least b hb).le r hr)
  cases t with
  | nil =>
    obtain rfl := hend rfl
    exact rank_concat_le hle z
  | cons x t =>
    have hlength := length_le_of_rank_le hle
    refine (rank_lt_iff.mpr (.inl ?_)).le
    simp only [List.length_append, List.length_cons, List.length_nil]
    omega

/-- Expanding the first entry keeps the order of the queue. -/
theorem Ordered.expansion (hnode : ∀ b x, S.node (S.extend b x) = x)
    (hpath : ∀ b x, path (S.extend b x) = path b ++ [x])
    (hnext : ∀ x, (S.next x).Pairwise (· < ·)) {new : List α} {f : Frontier α β}
    (h : Ordered S path start ⟨current :: queue, visited⟩)
    (hinv : S.Inv ⟨current :: queue, visited⟩) (hstart : start ∈ visited)
    (hnew : S.Expansion current (S.next (S.node current)) ⟨queue, visited⟩ f new) :
    Ordered S path start f := by
  have hlater := List.pairwise_cons.mp h.sorted
  have hcurrent : current ∈ current :: queue := List.mem_cons_self
  have hold : ∀ b ∈ queue, b ∈ current :: queue := fun b hb => List.mem_cons_of_mem _ hb
  have hmem : ∀ b, b ∈ f.queue ↔ b ∈ queue ∨ ∃ x ∈ new, S.extend current x = b := fun b => by
    rw [hnew.queue, List.mem_append, List.mem_map]
  have hvisited : ∀ x, x ∈ f.visited ↔ x ∈ new ∨ x ∈ visited := fun x => by
    rw [hnew.visited, List.mem_append, List.mem_reverse]
  -- an entry that waits comes before every extension of the one that is expanded
  have hbefore : ∀ b ∈ queue, ∀ x, rank (path b) < rank (path current ++ [x]) := by
    intro b hb x
    have hwalk := (h.least b (hold b hb)).walk
    have hsplit : (path b).dropLast ++ [S.node b] = path b :=
      List.dropLast_append_getLast? _ hwalk.last
    rw [← hsplit]
    exact rank_concat_lt (h.parent b (hold b hb) current hcurrent) _ _
  refine ⟨?_, fun b hb => ?_, fun b hb c hc => ?_, fun b hb => ?_⟩
  · rw [hnew.queue, List.pairwise_append, List.pairwise_map]
    refine ⟨hlater.2, ((hnext _).sublist hnew.sublist).imp fun hlt => ?_, fun b hb c hc => ?_⟩
    · rw [hpath, hpath]
      exact rank_concat_lt_concat _ hlt
    · obtain ⟨x, -, rfl⟩ := List.mem_map.mp hc
      rw [hpath]
      exact hbefore b hb x
  · rcases (hmem b).mp hb with hb | ⟨x, hx, rfl⟩
    · exact h.least b (hold b hb)
    · obtain ⟨hsucc, hfresh, -⟩ := hnew.fresh x hx
      rw [hpath, hnode]
      exact h.least_concat hinv hstart hsucc hfresh
  · have hparent : rank (path b).dropLast ≤ rank (path current) := by
      rcases (hmem b).mp hb with hb | ⟨x, -, rfl⟩
      · exact (h.parent b (hold b hb) current hcurrent).le
      · rw [hpath, List.dropLast_concat]
    rcases (hmem c).mp hc with hc | ⟨x, -, rfl⟩
    · exact hparent.trans_lt (hlater.1 c hc)
    · rw [hpath]
      exact hparent.trans_lt (rank_lt_concat _ x)
  · rcases (hmem b).mp hb with hb | ⟨x, hx, rfl⟩
    · obtain ⟨hnodup, hmet⟩ := h.simple b (hold b hb)
      exact ⟨hnodup, fun x hx => (hvisited x).mpr (.inr (hmet x hx))⟩
    · obtain ⟨hnodup, hmet⟩ := h.simple current hcurrent
      rw [hpath]
      refine ⟨List.nodup_append.mpr ⟨hnodup, List.nodup_singleton x, ?_⟩, fun y hy => ?_⟩
      · rintro y hy z hz rfl
        rw [List.mem_singleton.mp hz] at hy
        exact (hnew.fresh x hx).2.1 (hmet x hy)
      · rcases List.mem_append.mp hy with hy | hy
        · exact (hvisited y).mpr (.inr (hmet y hy))
        · rw [List.mem_singleton.mp hy]
          exact (hvisited x).mpr (.inl hx)

/-- What the search finds was reached by the least walk. -/
theorem run_inl_least (hnode : ∀ b x, S.node (S.extend b x) = x)
    (hpath : ∀ b x, path (S.extend b x) = path b ++ [x])
    (hnext : ∀ x, (S.next x).Pairwise (· < ·)) {fuel : ℕ} {f : Frontier α β} {found : β}
    (h : Ordered S path start f) (hinv : S.Inv f) (hstart : start ∈ f.visited)
    (hrun : S.run fuel f = some (.inl found)) :
    S.goal (S.node found) = true ∧ Least S.next (path found) start (S.node found) ∧
      (path found).Nodup := by
  induction fuel, f using Search.run.induct S with
  | case1 => simp [Search.run] at hrun
  | case2 => cases hrun
  | case3 fuel current queue visited b hscan =>
    simp only [Search.run, hscan, Option.some.injEq, Sum.inl.injEq] at hrun
    subst hrun
    obtain ⟨x, hx, hfresh, hgoal, rfl⟩ := S.scan_inl hscan
    obtain ⟨hnodup, hmet⟩ := h.simple current List.mem_cons_self
    rw [hnode, hpath]
    refine ⟨hgoal, h.least_concat hinv hstart hx hfresh, ?_⟩
    refine List.nodup_append.mpr ⟨hnodup, List.nodup_singleton x, ?_⟩
    rintro y hy z hz rfl
    rw [List.mem_singleton.mp hz] at hy
    exact hfresh (hmet x hy)
  | case4 fuel current queue visited f hscan ih =>
    obtain ⟨new, hnew⟩ := S.scan_inr hscan
    simp only [Search.run, hscan] at hrun
    refine ih (h.expansion hnode hpath hnext hinv hstart hnew) (hinv.expansion hnode hnew) ?_ hrun
    rw [hnew.visited]
    exact List.mem_append_right _ hstart

end

end Argus.BreadthFirst

import Argus.Base.Regexp

/-!
# Python's regular expressions

What `search` decides for a pattern that ignores case and whose dot is any character. The letters of
a pattern are lower-case ASCII. A text that a pattern matches contains one of the pattern's literals
(`Pattern.literals`), so that a text without them is never matched.
-/

namespace Argus.Python

open Regexp (Place places)

/-- The ASCII letter that a character matches where case is ignored: beside the two cases, a dotted or
dotless `i`, a long `s` and the Kelvin sign. -/
def fold (c : Char) : Char :=
  if c = '\u0130' ∨ c = '\u0131' then 'i'
  else if c = '\u017f' then 's'
  else if c = '\u212a' then 'k'
  else c.toLower

inductive Pattern where
  | text (cs : List Char)
  | one (p : Char → Bool)
  /-- `p{0,most}`, or `p*` -/
  | run (p : Char → Bool) (most : Option ℕ)
  | seq (r s : Pattern)
  | alt (r s : Pattern)
  | opt (r : Pattern)
  /-- `\b` -/
  | boundary

namespace Pattern

/-- The ends of the runs of a class. -/
def runs (p : Char → Bool) : Option ℕ → Option Char → List Char → List Place
  | some 0, before, rest => [⟨before, rest⟩]
  | _, before, [] => [⟨before, []⟩]
  | most, before, c :: cs =>
    ⟨before, c :: cs⟩ :: if p c then runs p (most.map (· - 1)) (some c) cs else []

/-- Where a match that begins at a place can end; `isWord` is `\w`. -/
def ends (isWord : Char → Bool) : Pattern → Place → List Place
  | text cs, at_ =>
    if (at_.rest.take cs.length).map fold = cs then
      [⟨(at_.rest.take cs.length).getLast?.or at_.before, at_.rest.drop cs.length⟩]
    else []
  | one p, at_ =>
    match at_.rest with
    | c :: cs => if p c then [⟨some c, cs⟩] else []
    | [] => []
  | run p most, at_ => runs p most at_.before at_.rest
  | seq r s, at_ => (r.ends isWord at_).flatMap (s.ends isWord)
  | alt r s, at_ => r.ends isWord at_ ++ s.ends isWord at_
  | opt r, at_ => at_ :: r.ends isWord at_
  | boundary, at_ =>
    if at_.before.any isWord != at_.rest.head?.any isWord then [at_] else []

def search (isWord : Char → Bool) (r : Pattern) (s : List Char) : Bool :=
  (places none s).any fun at_ => !(r.ends isWord at_).isEmpty

/-- Patterns one after the other. -/
def concat : List Pattern → Pattern
  | [] => text []
  | [r] => r
  | r :: rs => seq r (concat rs)

/-- Words to choose from. -/
def anyOf : List String → Pattern
  | [] => one fun _ => false
  | [w] => text w.toList
  | w :: ws => alt (text w.toList) (anyOf ws)

/-- `.{0,n}`. -/
def within (n : ℕ) : Pattern := run (fun _ => true) (some n)

/-! ## Literals -/

/-- Texts of which every match contains one: the first ones that the pattern demands. -/
def literals : Pattern → List (List Char)
  | text cs => [cs]
  | seq r s => if [] ∈ r.literals then s.literals else r.literals
  | alt r s => r.literals ++ s.literals
  | one _ | run _ _ | opt _ | boundary => [[]]

variable {isWord : Char → Bool} {r : Pattern} {at_ at' : Place}

theorem suffix_of_mem_runs {p : Char → Bool} {most : Option ℕ} {before : Option Char}
    {rest : List Char} (h : at' ∈ runs p most before rest) : at'.rest <:+ rest := by
  induction rest generalizing most before with
  | nil =>
    obtain rfl : at' = ⟨before, []⟩ := by rcases most with _ | _ | n <;> exact List.mem_singleton.mp h
    exact List.suffix_rfl
  | cons c cs ih =>
    have hlater : ∀ most', at' ∈ (⟨before, c :: cs⟩ :: if p c then runs p most' (some c) cs else []) →
        at'.rest <:+ c :: cs := fun most' h => by
      rcases List.mem_cons.mp h with rfl | h
      · exact List.suffix_rfl
      · split at h
        · exact (ih h).trans (List.suffix_cons c cs)
        · cases h
    rcases most with _ | _ | n
    · exact hlater _ h
    · obtain rfl := List.mem_singleton.mp h
      exact List.suffix_rfl
    · exact hlater _ h

theorem suffix_of_mem_ends (h : at' ∈ r.ends isWord at_) : at'.rest <:+ at_.rest := by
  induction r generalizing at_ at' with
  | text cs =>
    unfold ends at h
    split at h
    · obtain rfl := List.mem_singleton.mp h
      exact List.drop_suffix _ _
    · cases h
  | one p =>
    unfold ends at h
    split at h
    · rename_i c cs hrest
      split at h
      · rw [List.mem_singleton.mp h, hrest]
        exact List.suffix_cons c cs
      · cases h
    · cases h
  | run p most => exact suffix_of_mem_runs h
  | seq r s ihr ihs =>
    obtain ⟨between, hr, hs⟩ := List.mem_flatMap.mp h
    exact (ihs hs).trans (ihr hr)
  | alt r s ihr ihs => exact (List.mem_append.mp h).elim ihr ihs
  | opt r ih =>
    rcases List.mem_cons.mp h with rfl | h
    · exact List.suffix_rfl
    · exact ih h
  | boundary =>
    unfold ends at h
    split at h
    · obtain rfl := List.mem_singleton.mp h
      exact List.suffix_rfl
    · cases h

theorem exists_literal_of_mem_ends (h : at' ∈ r.ends isWord at_) :
    ∃ w ∈ r.literals, w <:+: at_.rest.map fold := by
  induction r generalizing at_ at' with
  | text cs =>
    unfold ends at h
    split at h
    · rename_i heq
      refine ⟨cs, List.mem_singleton_self cs, ?_⟩
      rw [← heq, List.map_take]
      exact (List.take_prefix _ _).isInfix
    · cases h
  | seq r s ihr ihs =>
    obtain ⟨between, hr, hs⟩ := List.mem_flatMap.mp h
    rw [literals]
    split
    · obtain ⟨w, hw, hinfix⟩ := ihs hs
      obtain ⟨front, hfront⟩ := suffix_of_mem_ends hr
      refine ⟨w, hw, hinfix.trans ?_⟩
      rw [← hfront, List.map_append]
      exact (List.suffix_append _ _).isInfix
    · exact ihr hr
  | alt r s ihr ihs =>
    rcases List.mem_append.mp h with h | h
    · obtain ⟨w, hw, hinfix⟩ := ihr h
      exact ⟨w, List.mem_append_left _ hw, hinfix⟩
    · obtain ⟨w, hw, hinfix⟩ := ihs h
      exact ⟨w, List.mem_append_right _ hw, hinfix⟩
  | one | run | opt | boundary => exact ⟨[], List.mem_singleton_self [], List.nil_infix⟩

theorem suffix_of_mem_places {before : Option Char} {s : List Char} (h : at_ ∈ places before s) :
    at_.rest <:+ s := by
  induction s generalizing before with
  | nil =>
    obtain rfl := List.mem_singleton.mp h
    exact List.suffix_rfl
  | cons c cs ih =>
    rcases List.mem_cons.mp h with rfl | h
    · exact List.suffix_rfl
    · exact (ih h).trans (List.suffix_cons c cs)

/-- A text that is matched contains a literal of the pattern. -/
theorem exists_literal_of_search {s : List Char} (h : r.search isWord s = true) :
    ∃ w ∈ r.literals, w <:+: s.map fold := by
  obtain ⟨at_, hat, hends⟩ := List.any_eq_true.mp h
  obtain ⟨at', hat'⟩ := List.isEmpty_eq_false_iff_exists_mem.mp (by simpa using hends)
  obtain ⟨w, hw, hinfix⟩ := exists_literal_of_mem_ends hat'
  obtain ⟨front, hfront⟩ := suffix_of_mem_places hat
  refine ⟨w, hw, hinfix.trans ?_⟩
  rw [← hfront, List.map_append]
  exact (List.suffix_append _ _).isInfix

end Pattern

end Argus.Python

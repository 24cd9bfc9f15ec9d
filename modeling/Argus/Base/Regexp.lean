import Mathlib.Data.List.Basic

/-!
# Regular expressions

What `MatchString` decides: whether an expression matches somewhere in a text. An expression is
read at a place, which is the character before it and the text after it, and gives every place
where its match can end.
-/

namespace Argus

/-- The expressions that are used: a class stands for one or more of its characters. -/
inductive Regexp where
  | text (cs : List Char)
  | plus (p : Char → Bool)
  | seq (r s : Regexp)
  | alt (r s : Regexp)
  | opt (r : Regexp)
  /-- `^` -/
  | start
  /-- `\b` -/
  | boundary

namespace Regexp

/-- A place in a text. -/
structure Place where
  before : Option Char
  rest : List Char

/-- `\w`. -/
def isWord (c : Char) : Bool := c.isAlphanum || c == '_'

/-- The ends of the runs of a class. -/
def runs (p : Char → Bool) : List Char → List Place
  | [] => []
  | c :: cs => if p c then ⟨some c, cs⟩ :: runs p cs else []

/-- Where a match that begins at a place can end. -/
def ends : Regexp → Place → List Place
  | text cs, at_ =>
    if cs.isPrefixOf at_.rest then [⟨cs.getLast?.or at_.before, at_.rest.drop cs.length⟩] else []
  | plus p, at_ => runs p at_.rest
  | seq r s, at_ => (r.ends at_).flatMap s.ends
  | alt r s, at_ => r.ends at_ ++ s.ends at_
  | opt r, at_ => at_ :: r.ends at_
  | start, at_ => if at_.before.isNone then [at_] else []
  | boundary, at_ =>
    if at_.before.any isWord != at_.rest.head?.any isWord then [at_] else []

/-- The places of a text. -/
def places : Option Char → List Char → List Place
  | before, [] => [⟨before, []⟩]
  | before, c :: cs => ⟨before, c :: cs⟩ :: places (some c) cs

def matchString (r : Regexp) (s : List Char) : Bool :=
  (places none s).any fun at_ => !(r.ends at_).isEmpty

/-! ## Texts that an expression matches -/

/-- The expression can match exactly a text, wherever it stands. -/
def Consumes (r : Regexp) (s : List Char) : Prop :=
  ∀ before rest, ∃ before', ⟨before', rest⟩ ∈ r.ends ⟨before, s ++ rest⟩

theorem Consumes.text (cs : List Char) : Consumes (.text cs) cs := by
  intro before rest
  refine ⟨cs.getLast?.or before, ?_⟩
  rw [ends, if_pos (List.isPrefixOf_iff_prefix.mpr (List.prefix_append cs rest)),
    List.drop_left]
  exact List.mem_singleton_self _

theorem Consumes.seq {r r' : Regexp} {s s' : List Char} (h : Consumes r s) (h' : Consumes r' s') :
    Consumes (.seq r r') (s ++ s') := by
  intro before rest
  obtain ⟨between, hends⟩ := h before (s' ++ rest)
  obtain ⟨after, hends'⟩ := h' between rest
  rw [List.append_assoc]
  exact ⟨after, List.mem_flatMap.mpr ⟨_, hends, hends'⟩⟩

theorem Consumes.opt {r : Regexp} {s : List Char} (h : Consumes r s) : Consumes (.opt r) s := by
  intro before rest
  obtain ⟨after, hends⟩ := h before rest
  exact ⟨after, List.mem_cons_of_mem _ hends⟩

theorem Consumes.opt_nil (r : Regexp) : Consumes (.opt r) [] :=
  fun before _ => ⟨before, List.mem_cons_self⟩

theorem Consumes.plus {p : Char → Bool} {s : List Char} (hne : s ≠ []) (hs : ∀ c ∈ s, p c = true) :
    Consumes (.plus p) s := by
  intro before rest
  induction s with
  | nil => exact absurd rfl hne
  | cons c cs ih =>
    have hc : p c = true := hs c List.mem_cons_self
    cases cs with
    | nil =>
      refine ⟨some c, ?_⟩
      change (⟨some c, rest⟩ : Place) ∈ runs p (c :: rest)
      rw [runs, if_pos hc]
      exact List.mem_cons_self
    | cons d ds =>
      obtain ⟨after, hafter⟩ := ih (List.cons_ne_nil d ds)
        fun x hx => hs x (List.mem_cons_of_mem _ hx)
      refine ⟨after, ?_⟩
      change (⟨after, rest⟩ : Place) ∈ runs p (c :: (d :: ds ++ rest))
      rw [runs, if_pos hc]
      exact List.mem_cons_of_mem _ hafter

theorem mem_places (front rest : List Char) (before : Option Char) :
    (⟨front.getLast?.or before, rest⟩ : Place) ∈ places before (front ++ rest) := by
  induction front generalizing before with
  | nil => cases rest <;> exact List.mem_cons_self
  | cons c cs ih =>
    have hlast : (c :: cs).getLast?.or before = cs.getLast?.or (some c) := by
      rw [List.getLast?_cons]
      cases cs.getLast? <;> rfl
    rw [hlast]
    exact List.mem_cons_of_mem _ (ih (some c))

/-- A match of a whole expression after a word boundary. -/
theorem matchString_boundary {r : Regexp} {s front rest : List Char} (h : Consumes r s)
    (hboundary : (front.getLast?.any isWord) ≠ ((s ++ rest).head?.any isWord)) :
    (Regexp.seq .boundary r).matchString (front ++ (s ++ rest)) = true := by
  obtain ⟨after, hends⟩ := h front.getLast? rest
  refine List.any_eq_true.mpr ⟨⟨front.getLast?, s ++ rest⟩, ?_, ?_⟩
  · have hmem := mem_places front (s ++ rest) none
    rwa [Option.or_none] at hmem
  · have hmem : (⟨after, rest⟩ : Place) ∈
        (Regexp.seq .boundary r).ends ⟨front.getLast?, s ++ rest⟩ := by
      refine List.mem_flatMap.mpr ⟨⟨front.getLast?, s ++ rest⟩, ?_, hends⟩
      rw [ends, if_pos (bne_iff_ne.mpr hboundary)]
      exact List.mem_singleton_self _
    rw [Bool.not_eq_true', List.isEmpty_eq_false_iff_exists_mem]
    exact ⟨_, hmem⟩

end Regexp

end Argus

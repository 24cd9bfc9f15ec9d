import Argus.Actions.Parameters
import Argus.Base.Sha256
import Mathlib.Data.Nat.Digits.Defs

/-!
# Idempotency keys

A key joins incident, action type, target and attempt number with underscores and, when there are
parameters, appends six bytes of the digest of their encoding. The joined parts may contain
underscores themselves, so what a key determines is their joined text, the attempt and the suffix.
-/

namespace Argus.Remediation

open Digits (Text)

/-- `<incident>_<action>_<target>`. -/
def joinedText (incidentID actionType target : String) : Text :=
  incidentID.toList ++ '_' :: (actionType.toList ++ '_' :: target.toList)

/-- `_<digest>`, or nothing without parameters. -/
def digestSuffix (parameters : Parameters) : Text :=
  if parameters.members = [] then []
  else '_' :: Sha256.hexText ((Sha256.sum256 (Sha256.utf8 parameters.encoded)).take 6)

/-- `BuildIdempotencyKey`. -/
def buildIdempotencyKey (incidentID actionType target : String) (attempt : ℕ)
    (parameters : Parameters) : String :=
  String.ofList (joinedText incidentID actionType target ++ '_' :: Nat.toDigits 10 attempt
    ++ digestSuffix parameters)

/-! ## What a key determines -/

/-- The part after the last separator. -/
private theorem append_cons_inj {c : Char} {a b s t : Text} (hs : c ∉ s) (ht : c ∉ t)
    (h : a ++ c :: s = b ++ c :: t) : a = b ∧ s = t := by
  have hrev := congrArg List.reverse h
  simp only [List.reverse_append, List.reverse_cons, List.append_assoc, List.singleton_append] at hrev
  have hs' : c ∉ s.reverse := by simpa using hs
  have ht' : c ∉ t.reverse := by simpa using ht
  have htake := congrArg (List.takeWhile (· ≠ c)) hrev
  have hdrop := congrArg (List.dropWhile (· ≠ c)) hrev
  have hpos : ∀ {u : Text}, c ∉ u → ∀ x ∈ u, decide (x ≠ c) = true := fun hu x hx =>
    decide_eq_true fun hxc => hu (hxc ▸ hx)
  rw [List.takeWhile_append_of_pos (hpos hs'), List.takeWhile_append_of_pos (hpos ht')] at htake
  rw [List.dropWhile_append_of_pos (hpos hs'), List.dropWhile_append_of_pos (hpos ht')] at hdrop
  simp only [ne_eq, not_true_eq_false, decide_false, Bool.false_eq_true, not_false_eq_true,
    List.takeWhile_cons_of_neg, List.append_nil, List.dropWhile_cons_of_neg, List.cons.injEq,
    true_and, List.reverse_inj] at htake hdrop
  exact ⟨hdrop, htake⟩

private theorem underscore_not_mem_toDigits (n : ℕ) : '_' ∉ Nat.toDigits 10 n := by
  intro h
  have := Nat.isDigit_of_mem_toDigits (by decide) (by decide) h
  revert this
  decide

/-- The suffix of nonempty parameters: an underscore and twelve characters other than it. -/
theorem digestSuffix_of_ne_nil {p : Parameters} (h : p.members ≠ []) :
    ∃ hex : Text, digestSuffix p = '_' :: hex ∧ hex.length = 12 ∧ '_' ∉ hex := by
  refine ⟨_, if_neg h, ?_, ?_⟩
  · rw [Sha256.length_hexText, List.length_take, Sha256.length_sum256]
    rfl
  · intro hmem
    obtain ⟨n, hn⟩ := Sha256.exists_of_mem_hexText
      (fun b hb => Sha256.sum256_lt _ b (List.mem_of_mem_take hb)) hmem
    have hdigit : ∀ n : Fin 16, '_' ≠ Nat.digitChar n := by decide
    exact hdigit n hn

theorem digestSuffix_of_nil {p : Parameters} (h : p.members = []) : digestSuffix p = [] :=
  if_pos h

/-- An attempt number of fewer than twelve digits is not the digest of a key with parameters. -/
private theorem toDigits_ne_hex {n : ℕ} (hn : n < 10 ^ 11) {hex : Text} (h : hex.length = 12) :
    Nat.toDigits 10 n ≠ hex := by
  intro heq
  have hlen := Nat.toDigits_length 10 n 11 (by decide) hn
  rw [heq, h] at hlen
  omega

/-- A key determines the joined text, the attempt and the suffix. Only where a key has no suffix does
the attempt have to be small, so that it is not read as a suffix. -/
theorem eq_of_buildIdempotencyKey_eq {i a t i' a' t' : String} {m n : ℕ} {p q : Parameters}
    (hm : p.members = [] → m < 10 ^ 11) (hn : q.members = [] → n < 10 ^ 11)
    (h : buildIdempotencyKey i a t m p = buildIdempotencyKey i' a' t' n q) :
    joinedText i a t = joinedText i' a' t' ∧ m = n ∧ digestSuffix p = digestSuffix q := by
  have hdigits : ∀ {J K : Text}, J ++ '_' :: Nat.toDigits 10 m = K ++ '_' :: Nat.toDigits 10 n →
      J = K ∧ m = n := fun heq => by
    obtain ⟨hJ, hd⟩ := append_cons_inj (underscore_not_mem_toDigits m)
      (underscore_not_mem_toDigits n) heq
    have hval := congrArg (fun ds => Nat.ofDigitChars 10 ds 0) hd
    simp only [Nat.ofDigitChars_ten_toDigits] at hval
    exact ⟨hJ, hval⟩
  have htext := String.ofList_injective h
  by_cases hp : p.members = [] <;> by_cases hq : q.members = []
  · rw [digestSuffix_of_nil hp, digestSuffix_of_nil hq, List.append_nil, List.append_nil] at htext
    exact ⟨(hdigits htext).1, (hdigits htext).2, by
      rw [digestSuffix_of_nil hp, digestSuffix_of_nil hq]⟩
  · obtain ⟨hex, hsuffix, hlen, hnot⟩ := digestSuffix_of_ne_nil hq
    rw [digestSuffix_of_nil hp, hsuffix, List.append_nil] at htext
    obtain ⟨-, hhex⟩ := append_cons_inj (underscore_not_mem_toDigits m) hnot htext
    exact absurd hhex (toDigits_ne_hex (hm hp) hlen)
  · obtain ⟨hex, hsuffix, hlen, hnot⟩ := digestSuffix_of_ne_nil hp
    rw [digestSuffix_of_nil hq, hsuffix, List.append_nil] at htext
    obtain ⟨-, hhex⟩ := append_cons_inj hnot (underscore_not_mem_toDigits n) htext
    exact absurd hhex.symm (toDigits_ne_hex (hn hq) hlen)
  · obtain ⟨hex, hsuffix, -, hnot⟩ := digestSuffix_of_ne_nil hp
    obtain ⟨hex', hsuffix', -, hnot'⟩ := digestSuffix_of_ne_nil hq
    rw [hsuffix, hsuffix'] at htext
    obtain ⟨hrest, hhex⟩ := append_cons_inj hnot hnot' htext
    exact ⟨(hdigits hrest).1, (hdigits hrest).2, by rw [hsuffix, hsuffix', hhex]⟩

end Argus.Remediation

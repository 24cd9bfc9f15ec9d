import Argus.Actions.Catalog
import Argus.Base.Fallible

/-!
# Documented targets

What the documentation says a target of an action looks like, and which of it the catalog checks.
The catalog has no case for the actions on a service other than `resize_connection_pool`, and its
check of a cache prefix counts `*` but knows no other glob character.
-/

namespace Argus.Actions

open Strings (hasPrefix)

/-! ## Shapes -/

def Alnum (c : Char) : Prop := ('a' ≤ c ∧ c ≤ 'z') ∨ ('0' ≤ c ∧ c ≤ '9')

instance (c : Char) : Decidable (Alnum c) := inferInstanceAs (Decidable (_ ∨ _))

/-- At most 63 characters of `[a-z0-9-]`, the first and the last one alphanumeric. -/
structure DNSLabel (s : String) : Prop where
  length : s.toList.length ≤ 63
  chars : ∀ c ∈ s.toList, Alnum c ∨ c = '-'
  first : ∃ c, s.toList.head? = some c ∧ Alnum c
  last : ∃ c, s.toList.getLast? = some c ∧ Alnum c

/-- A cache prefix whose segment has none of these characters. -/
def CachePrefix (excluded : List Char) (target : String) : Prop :=
  ∃ segment, segment ≠ "" ∧ (∀ c ∈ segment.toList, c ∉ excluded) ∧
    target = "demo:" ++ segment ++ ":*"

/-- What an expansion of keys interprets. -/
def globCharacters : List Char := ['*', '?', '[', ']', '\\']

/-- The actions of the rule table whose target is a service. -/
def serviceScoped : List Action :=
  [.drainPostgresConnections, .resizeConnectionPool, .rollbackConfig, .reloadNginx]

/-- The documented shape of a target. -/
def Documented (action : Action) (target : String) : Prop :=
  match action with
  | .restartPod => ∃ pod, DNSLabel pod ∧ target = "local/" ++ pod
  | .purgeCache => CachePrefix globCharacters target
  | .toggleFeatureFlag => target ∈ allowedFlags
  | _ => DNSLabel target

theorem documented_of_serviceScoped {action : Action} (haction : action ∈ serviceScoped)
    {target : String} (htarget : DNSLabel target) : Documented action target := by
  simp only [serviceScoped, List.mem_cons, List.not_mem_nil, or_false] at haction
  rcases haction with rfl | rfl | rfl | rfl <;> exact htarget

theorem Action.ofName_name (action : Action) : Action.ofName action.name = some action := by
  cases action <;> decide +kernel

/-! ## What the catalog checks -/

theorem length_le_utf8ByteSize (s : String) : s.toList.length ≤ s.utf8ByteSize := by
  have hlist : ∀ l : List Char, l.length ≤ (String.ofList l).utf8ByteSize := by
    intro l
    induction l with
    | nil => exact Nat.zero_le _
    | cons c l ih =>
      have hsize : (String.ofList (c :: l)).utf8ByteSize =
          c.utf8Size + (String.ofList l).utf8ByteSize := by
        rw [← List.singleton_append, String.ofList_append, String.utf8ByteSize_append,
          ← String.singleton_eq_ofList, String.utf8ByteSize_singleton]
      have hpos := c.utf8Size_pos
      rw [hsize, List.length_cons]
      omega
  simpa using hlist s.toList

theorem dnsLabel_of_validDNSLabel {s : String} (h : validDNSLabel s = true) : DNSLabel s := by
  simp only [validDNSLabel, Bool.and_eq_true, decide_eq_true_eq, List.all_eq_true, Bool.or_eq_true,
    beq_iff_eq, Option.any_eq_true] at h
  obtain ⟨⟨⟨hlength, hchars⟩, c, hc, hfirst⟩, d, hd, hlast⟩ := h
  exact ⟨(length_le_utf8ByteSize s).trans hlength, hchars, ⟨c, hc, hfirst⟩, d, hd, hlast⟩

theorem utf8ByteSize_cachePrefix (segment : String) :
    ("demo:" ++ segment ++ ":*").utf8ByteSize = segment.utf8ByteSize + 7 := by
  rw [String.utf8ByteSize_append, String.utf8ByteSize_append,
    show "demo:".utf8ByteSize = 5 by decide +kernel, show ":*".utf8ByteSize = 2 by decide +kernel]
  omega

theorem count_cachePrefix (segment : String) :
    ("demo:" ++ segment ++ ":*").toList.count '*' = segment.toList.count '*' + 1 := by
  rw [String.toList_append, String.toList_append, List.count_append, List.count_append,
    show "demo:".toList.count '*' = 0 by decide +kernel,
    show ":*".toList.count '*' = 1 by decide +kernel, Nat.zero_add]

/-- A text long enough that starts and ends as a cache prefix has a segment in between. -/
theorem exists_segment {target : String} (hstart : hasPrefix target "demo:" = true)
    (hend : ":*".toList.isSuffixOf target.toList = true) (hsize : 7 < target.utf8ByteSize) :
    ∃ segment, segment ≠ "" ∧ target = "demo:" ++ segment ++ ":*" := by
  obtain ⟨rest, rfl⟩ := Strings.hasPrefix_iff.mp hstart
  rw [List.isSuffixOf_iff_suffix, String.toList_append] at hend
  have hlong : 2 < rest.utf8ByteSize := by
    rw [String.utf8ByteSize_append, show "demo:".utf8ByteSize = 5 by decide +kernel] at hsize
    omega
  have hsuffix : ":*".toList <:+ rest.toList := by
    rcases List.suffix_or_suffix_of_suffix hend (List.suffix_append "demo:".toList rest.toList)
      with h | h
    · exact h
    · -- a shorter rest would leave no byte for a segment
      exfalso
      obtain ⟨front, hfront⟩ := h
      have hsum : (String.ofList front ++ rest).utf8ByteSize = 2 := by
        rw [← String.ofList_toList (s := rest), ← String.ofList_append, hfront]
        decide +kernel
      rw [String.utf8ByteSize_append] at hsum
      omega
  obtain ⟨segment, hsegment⟩ := hsuffix
  have hrest : rest = String.ofList segment ++ ":*" := by
    rw [← String.toList_inj, String.toList_append, String.toList_ofList, hsegment]
  refine ⟨String.ofList segment, ?_, by rw [hrest, String.append_assoc]⟩
  intro hempty
  rw [hrest, hempty] at hlong
  exact absurd hlong (by decide +kernel)

/-- The check of a cache prefix knows no glob character but `*`. -/
theorem validateCachePrefix_eq_ok_iff {target : String} :
    validateCachePrefix target = .ok () ↔ CachePrefix ['*'] target := by
  unfold validateCachePrefix
  constructor
  · intro h
    split at h
    · rename_i hcheck
      simp only [Bool.and_eq_true, decide_eq_true_eq, beq_iff_eq] at hcheck
      obtain ⟨⟨⟨hstart, hend⟩, hcount⟩, hsize⟩ := hcheck
      obtain ⟨segment, hne, rfl⟩ := exists_segment hstart hend (by omega)
      rw [count_cachePrefix, Nat.add_eq_right, List.count_eq_zero] at hcount
      refine ⟨segment, hne, fun c hc hstar => hcount ?_, rfl⟩
      rwa [← List.mem_singleton.mp hstar]
    · cases h
  · rintro ⟨segment, hne, hstar, rfl⟩
    have hsize : 0 < segment.utf8ByteSize :=
      Nat.pos_of_ne_zero fun h => hne (String.utf8ByteSize_eq_zero_iff.mp h)
    have hcount : segment.toList.count '*' = 0 :=
      List.count_eq_zero.mpr fun h => hstar '*' h (List.mem_singleton_self _)
    have hend : ":*".toList.isSuffixOf ("demo:" ++ segment ++ ":*").toList = true := by
      rw [List.isSuffixOf_iff_suffix, String.toList_append]
      exact List.suffix_append _ _
    have hstart : hasPrefix ("demo:" ++ segment ++ ":*") "demo:" = true := by
      rw [String.append_assoc]
      exact Strings.hasPrefix_append _ _
    rw [if_pos]
    simp only [hstart, hend, count_cachePrefix, hcount, utf8ByteSize_cachePrefix, Bool.and_eq_true,
      decide_eq_true_eq, beq_iff_eq, true_and]
    omega

theorem pod_of_validateRestartPod {ν : Type} {target : String} {parameters : GoMap ν}
    (h : validateRestartPod target parameters = .ok ()) :
    ∃ environment pod, (environment = "local" ∨ environment = "demo") ∧ DNSLabel pod ∧
      target = environment ++ "/" ++ pod := by
  obtain ⟨-, -, h⟩ := exists_of_bind_eq_ok h
  split at h
  · rename_i environment pod hsplit
    split at h
    · rename_i hvalid
      exact ⟨environment, pod, hvalid.1, dnsLabel_of_validDNSLabel hvalid.2,
        Strings.eq_of_split_pair hsplit⟩
    · cases h
  · cases h

end Argus.Actions

import Argus.Base.Json
import Argus.Base.PythonRegexp
import Argus.Base.Sha256
import Argus.Base.Strings

/-!
# The prompt guard

`sanitizeUntrusted` cuts every text of a value to its length and puts a marker in the place of one
that matches an injection rule or has an invisible control character. The marker itself is never
blocked: two adjacent characters of it are of few kinds (`MarkerPair`), and each literal that a rule
demands has two others. Keys stay as they are, so a key that would be blocked as a value survives.
-/

namespace Argus.AiService

open Python (Pattern)

inductive Rule where
  | instructionOverride
  | toolCoercion
  | secretExfiltration
  | roleReassignment
  | invisibleUnicodeControl
  deriving DecidableEq, Repr

def Rule.name : Rule → String
  | instructionOverride => "instruction_override"
  | toolCoercion => "tool_coercion"
  | secretExfiltration => "secret_exfiltration"
  | roleReassignment => "role_reassignment"
  | invisibleUnicodeControl => "invisible_unicode_control"

section

variable (isAlnum : Char → Bool)

/-- `\w`, where `isAlnum` is `str.isalnum`. -/
def isWord (c : Char) : Bool := isAlnum c || c == '_'

/-- `\s`. -/
def isSpace (c : Char) : Bool := Strings.isSpace c || ('\x1c' ≤ c && c ≤ '\x1f')

/-- `\b(ignore|disregard|forget)\b.{0,80}\b(previous|prior|system|developer|safety)\b.{0,40}`
`\b(instruction|message|rule|policy)s?\b`. -/
def instructionOverride : Pattern :=
  .concat [.boundary, .anyOf ["ignore", "disregard", "forget"], .boundary, .within 80,
    .boundary, .anyOf ["previous", "prior", "system", "developer", "safety"], .boundary, .within 40,
    .boundary, .anyOf ["instruction", "message", "rule", "policy"], .opt (.anyOf ["s"]), .boundary]

/-- `\b(you\s+must|must|immediately|without\s+asking)\b.{0,60}\b(call|invoke|execute|run|use)\b`. -/
def toolCoercion : Pattern :=
  let spaces : Pattern := .seq (.one isSpace) (.run isSpace none)
  .concat [.boundary,
    .alt (.concat [.anyOf ["you"], spaces, .anyOf ["must"]])
      (.alt (.anyOf ["must", "immediately"]) (.concat [.anyOf ["without"], spaces, .anyOf ["asking"]])),
    .boundary, .within 60,
    .boundary, .anyOf ["call", "invoke", "execute", "run", "use"], .boundary]

/-- `\b(exfiltrat|upload|send|transmit)\w*\b.{0,100}\b(secret|credential|token|api[_ -]?key)s?\b`. -/
def secretExfiltration : Pattern :=
  .concat [.boundary, .anyOf ["exfiltrat", "upload", "send", "transmit"], .run (isWord isAlnum) none,
    .boundary, .within 100, .boundary,
    .alt (.anyOf ["secret", "credential", "token"])
      (.concat [.anyOf ["api"], .opt (.one (· ∈ ['_', ' ', '-'])), .anyOf ["key"]]),
    .opt (.anyOf ["s"]), .boundary]

/-- `\byou are now\b|\bact as\b.{0,50}\b(system|administrator|root|developer)\b`. -/
def roleReassignment : Pattern :=
  .alt (.concat [.boundary, .anyOf ["you are now"], .boundary])
    (.concat [.boundary, .anyOf ["act as"], .boundary, .within 50,
      .boundary, .anyOf ["system", "administrator", "root", "developer"], .boundary])

/-- `INJECTION_RULES`. -/
def injectionRules : List (Rule × Pattern) :=
  [(.instructionOverride, instructionOverride), (.toolCoercion, toolCoercion),
    (.secretExfiltration, secretExfiltration isAlnum), (.roleReassignment, roleReassignment)]

/-- `[\u200b-\u200f\u202a-\u202e\u2060-\u206f\ufeff]`. -/
def isInvisibleControl (c : Char) : Bool :=
  ('\u200b' ≤ c && c ≤ '\u200f') || ('\u202a' ≤ c && c ≤ '\u202e') ||
    ('\u2060' ≤ c && c ≤ '\u206f') || c == '\ufeff'

structure GuardFinding where
  path : String
  rule : String
  evidenceHash : String
  deriving DecidableEq, Repr

structure GuardedPayload (ν : Type) where
  value : Json ν
  findings : List GuardFinding

def matchingRule (text : List Char) : Option Rule :=
  ((injectionRules isAlnum).find? fun r => r.2.search (isWord isAlnum) text).map (·.1)

/-- `f"[BLOCKED_UNTRUSTED_CONTENT sha256={digest}]"`. -/
def marker (digest : List Char) : List Char :=
  "[BLOCKED_UNTRUSTED_CONTENT sha256=".toList ++ digest ++ [']']

/-- `walk` on a text. -/
def walkText (item path : String) : String × List GuardFinding :=
  let text := item.toList.take 4000
  let rule := matchingRule isAlnum text
  if rule.isNone && !text.any isInvisibleControl then (String.ofList text, [])
  else
    let digest := Sha256.hexText (Sha256.sum256 (Sha256.utf8 text))
    (String.ofList (marker digest),
      [⟨path, (rule.getD .invisibleUnicodeControl).name, String.ofList digest⟩])

/-- `walk`: the value at a path with its texts sanitized, and the findings on the way. -/
def walk {ν : Type} : Json ν → String → Json ν × List GuardFinding :=
  Json.fold
    { null := fun _ => (.null, [])
      bool := fun b _ => (.bool b, [])
      num := fun n _ => (.num n, [])
      str := fun item path => (.str (walkText isAlnum item path).1, (walkText isAlnum item path).2)
      arr := fun items path =>
        let walked := items.zipIdx.map fun (child, index) =>
          child (path ++ "[" ++ toString index ++ "]")
        (.arr (walked.map (·.1)), walked.flatMap (·.2))
      obj := fun members path =>
        let walked := members.map fun (key, child) => (key, child (path ++ "." ++ key))
        (.obj (walked.map fun m => (m.1, m.2.1)), walked.flatMap (·.2.2)) }

def sanitizeUntrusted {ν : Type} (value : Json ν) (path : String) : GuardedPayload ν :=
  ⟨(walk isAlnum value path).1, (walk isAlnum value path).2⟩

/-- What the guard does not block. -/
def Clean (text : String) : Prop :=
  matchingRule isAlnum text.toList = none ∧ text.toList.any isInvisibleControl = false

end

variable {isAlnum : Char → Bool}

/-! ## The marker -/

/-- What stands before the digest, without regard to case. -/
private def opening : List Char := "[blocked_untrusted_content sha256=".toList

private def hexDigits : List Char := "0123456789abcdef".toList

/-- The characters that may follow one another in a marker, without regard to case. -/
def MarkerPair (x y : Char) : Prop :=
  (x, y) ∈ opening.zip opening.tail ∨ x ∈ '=' :: hexDigits ∧ y ∈ ']' :: hexDigits

instance decidableMarkerPair (x y : Char) : Decidable (MarkerPair x y) :=
  inferInstanceAs (Decidable (_ ∨ _))

/-- What is used of the text before the digest, which is not unfolded after this. -/
theorem exists_marker_eq : ∃ front : List Char, front.map Python.fold = opening ∧
    front.any isInvisibleControl = false ∧ front.length = 34 ∧
    ∀ digest, marker digest = front ++ digest ++ [']'] :=
  ⟨"[BLOCKED_UNTRUSTED_CONTENT sha256=".toList, by decide +kernel, by decide +kernel, by simp,
    fun _ => rfl⟩

theorem digitChar_hex (n : Fin 16) : Nat.digitChar n ∈ hexDigits ∧
    Python.fold (Nat.digitChar n) = Nat.digitChar n ∧
    isInvisibleControl (Nat.digitChar n) = false := by
  revert n
  decide +kernel

theorem isChain_digest {digest : List Char} (h : ∀ c ∈ digest, c ∈ hexDigits) :
    ('=' :: (digest ++ [']'])).IsChain MarkerPair := by
  have hnext : ∀ y ∈ digest ++ [']'], y ∈ ']' :: hexDigits := fun y hy => by
    rcases List.mem_append.mp hy with hy | hy
    · exact List.mem_cons_of_mem _ (h y hy)
    · exact List.mem_singleton.mp hy ▸ List.mem_cons_self
  have hpair : ∀ x ∈ '=' :: digest, ∀ y ∈ digest ++ [']'], MarkerPair x y := fun x hx y hy => by
    refine .inr ⟨?_, hnext y hy⟩
    rcases List.mem_cons.mp hx with rfl | hx
    · exact List.mem_cons_self
    · exact List.mem_cons_of_mem _ (h x hx)
  refine List.Pairwise.isChain (List.pairwise_cons.mpr ⟨hpair _ List.mem_cons_self, ?_⟩)
  refine List.pairwise_append.mpr ⟨List.pairwise_of_forall_mem_list fun x hx y hy =>
    hpair x (List.mem_cons_of_mem _ hx) y (List.mem_append_left _ hy), List.pairwise_singleton _ _,
    fun x hx y hy => hpair x (List.mem_cons_of_mem _ hx) y (List.mem_append_right _ hy)⟩

theorem isChain_fold_marker {digest : List Char}
    (h : ∀ c ∈ digest, ∃ n : Fin 16, c = Nat.digitChar n) :
    ((marker digest).map Python.fold).IsChain MarkerPair := by
  have hfold : digest.map Python.fold = digest := by
    refine (List.map_congr_left fun c hc => ?_).trans (List.map_id digest)
    obtain ⟨n, rfl⟩ := h c hc
    exact (digitChar_hex n).2.1
  have hhex : ∀ c ∈ digest, c ∈ hexDigits := fun c hc => by
    obtain ⟨n, rfl⟩ := h c hc
    exact (digitChar_hex n).1
  have hopening : opening.IsChain MarkerPair ∧ opening.getLast? = some '=' := by decide +kernel
  obtain ⟨hfirst, hdigest⟩ := List.isChain_cons.mp (isChain_digest hhex)
  obtain ⟨front, hfront, -, -, hmarker⟩ := exists_marker_eq
  rw [hmarker, List.map_append, List.map_append, hfold, hfront, List.append_assoc,
    List.isChain_append, hopening.2]
  refine ⟨hopening.1, hdigest, fun x hx => ?_⟩
  rw [← Option.some.inj hx]
  exact hfirst

theorem literals_injectionRules :
    ∀ r ∈ injectionRules isAlnum, ∀ w ∈ r.2.literals, ¬ w.IsChain MarkerPair := by
  have hall : ∀ ws ∈ (injectionRules fun _ => false).map (·.2.literals), ∀ w ∈ ws,
      ¬ w.IsChain MarkerPair := by decide +kernel
  intro r hr w hw
  -- the class of words is not among the literals
  have hliterals : (injectionRules isAlnum).map (·.2.literals) =
      (injectionRules fun _ => false).map (·.2.literals) := rfl
  exact hall _ (hliterals ▸ List.mem_map_of_mem hr) w hw

/-- No marker is blocked. -/
theorem clean_marker {digest : List Char}
    (h : ∀ c ∈ digest, ∃ n : Fin 16, c = Nat.digitChar n) :
    Clean isAlnum (String.ofList (marker digest)) := by
  rw [Clean, String.toList_ofList]
  constructor
  · rw [matchingRule, Option.map_eq_none_iff, List.find?_eq_none]
    intro r hr hsearch
    obtain ⟨w, hw, hinfix⟩ := Pattern.exists_literal_of_search hsearch
    have hchain := isChain_fold_marker h
    exact literals_injectionRules r hr w hw <| hchain.infix hinfix
  · obtain ⟨front, -, hfront, -, hmarker⟩ := exists_marker_eq
    have hdigest : digest.any isInvisibleControl = false := List.any_eq_false.mpr fun c hc => by
      obtain ⟨n, rfl⟩ := h c hc
      simp [(digitChar_hex n).2.2]
    have hclosing : [']'].any isInvisibleControl = false := by decide +kernel
    rw [hmarker, List.any_append, List.any_append, hfront, hdigest, hclosing]
    rfl

/-! ## Texts -/

theorem walkText_clean (item path : String) :
    Clean isAlnum (walkText isAlnum item path).1 ∧
      (walkText isAlnum item path).1.toList.length ≤ 4000 := by
  unfold walkText
  dsimp only
  split
  · rename_i hclean
    rw [Bool.and_eq_true, Option.isNone_iff_eq_none, Bool.not_eq_true'] at hclean
    rw [Clean, String.toList_ofList]
    exact ⟨hclean, List.length_take_le _ _⟩
  · refine ⟨clean_marker fun c hc =>
      Sha256.exists_of_mem_hexText (Sha256.sum256_lt _) hc, ?_⟩
    obtain ⟨front, -, -, hfront, hmarker⟩ := exists_marker_eq
    rw [String.toList_ofList, hmarker, List.length_append, List.length_append, hfront,
      Sha256.length_hexText, Sha256.length_sum256]
    decide

theorem walkText_of_clean {item : String} (h : Clean isAlnum item)
    (hlength : item.toList.length ≤ 4000) (path : String) :
    walkText isAlnum item path = (item, []) := by
  have htake : item.toList.take 4000 = item.toList := List.take_of_length_le hlength
  rw [walkText, htake, h.1, h.2]
  simp

/-! ## Values -/

variable {ν : Type}

/-- What is put in the place of a text. -/
def sanitizeText (isAlnum : Char → Bool) (item : String) : String := (walkText isAlnum item "$").1

theorem walkText_fst (item path : String) :
    (walkText isAlnum item path).1 = sanitizeText isAlnum item := by
  rw [sanitizeText, walkText, walkText]
  dsimp only
  split <;> rfl

theorem walk_fst (v : Json ν) (path : String) :
    (walk isAlnum v path).1 = v.mapText (sanitizeText isAlnum) := by
  induction v using Json.induction generalizing path with
  | null | bool | num => rfl
  | str item => exact congrArg Json.str (walkText_fst item path)
  | arr items ih =>
    rw [walk, Json.fold_arr, Json.mapText_arr]
    refine congrArg Json.arr ?_
    rw [List.map_map, List.zipIdx_map, List.map_map]
    calc
      _ = (items.zipIdx.map Prod.fst).map (Json.mapText (sanitizeText isAlnum)) := by
        rw [List.map_map]
        exact List.map_congr_left fun p hp => ih p.1 (List.fst_mem_of_mem_zipIdx hp) _
      _ = _ := by rw [List.zipIdx_map_fst]
  | obj members ih =>
    rw [walk, Json.fold_obj, Json.mapText_obj]
    refine congrArg Json.obj ?_
    rw [List.map_map, List.map_map]
    exact List.map_congr_left fun m hm => congrArg (Prod.mk m.1) (ih m hm _)

theorem walk_snd {v : Json ν}
    (h : ∀ s ∈ v.texts, Clean isAlnum s ∧ s.toList.length ≤ 4000) (path : String) :
    (walk isAlnum v path).2 = [] := by
  induction v using Json.induction generalizing path with
  | null | bool | num => rfl
  | str item =>
    obtain ⟨hclean, hlength⟩ := h item (List.mem_singleton_self item)
    exact congrArg Prod.snd (walkText_of_clean hclean hlength path)
  | arr items ih =>
    rw [Json.texts_arr] at h
    rw [walk, Json.fold_arr]
    refine List.flatMap_eq_nil_iff.mpr (List.forall_mem_map.mpr fun p hp => ?_)
    rw [List.zipIdx_map] at hp
    obtain ⟨q, hq, rfl⟩ := List.mem_map.mp hp
    have hmem := List.fst_mem_of_mem_zipIdx hq
    exact ih q.1 hmem (fun s hs => h s (List.mem_flatMap_of_mem hmem hs)) _
  | obj members ih =>
    rw [Json.texts_obj] at h
    rw [walk, Json.fold_obj]
    refine List.flatMap_eq_nil_iff.mpr (List.forall_mem_map.mpr (List.forall_mem_map.mpr fun m hm => ?_))
    exact ih m hm (fun s hs => h s (List.mem_flatMap_of_mem hm hs)) _

end Argus.AiService

import Mathlib

/-!
# Prefixes, splitting, trimming and replacing in strings

The functions of Go's `strings` package that the development uses, on Lean strings through their
character lists, with the lemmas that relate a split, trimmed or replaced string to the original.
-/

namespace Argus.Strings

/-- `strings.HasPrefix`. -/
def hasPrefix (s p : String) : Bool := p.toList.isPrefixOf s.toList

/-- `strings.TrimPrefix`: drop `p` if `s` starts with it. -/
def trimPrefix (s p : String) : String :=
  if hasPrefix s p then String.ofList (s.toList.drop p.toList.length) else s

/-- `strings.Split` with a one-character separator. -/
def split (s : String) (sep : Char) : List String :=
  (s.toList.splitOn sep).map String.ofList

/-- `strings.Trim` with a one-character cutset. -/
def trim (s : String) (c : Char) : String :=
  String.ofList ((s.toList.dropWhile (· == c)).rdropWhile (· == c))

/-- `strings.TrimRight` with a one-character cutset. -/
def trimRight (s : String) (c : Char) : String := String.ofList (s.toList.rdropWhile (· == c))

/-- `strings.Contains`. -/
def contains (s part : String) : Bool := part.toList <:+: s.toList

/-- The occurrences of `old` replaced, from the left; `skip` characters belong to the last one. -/
def replaceIn (old new : List Char) : ℕ → List Char → List Char
  | _, [] => []
  | skip + 1, _ :: cs => replaceIn old new skip cs
  | 0, c :: cs =>
    if old.isPrefixOf (c :: cs) then new ++ replaceIn old new (old.length - 1) cs
    else c :: replaceIn old new 0 cs

/-- `strings.ReplaceAll`, for a nonempty `old`. -/
def replaceAll (s old new : String) : String :=
  String.ofList (replaceIn old.toList new.toList 0 s.toList)

/-- The occurrences of `part`, counted as `replaceIn` finds them. -/
def countIn (part : List Char) : ℕ → List Char → ℕ
  | _, [] => 0
  | skip + 1, _ :: cs => countIn part skip cs
  | 0, c :: cs =>
    if part.isPrefixOf (c :: cs) then countIn part (part.length - 1) cs + 1
    else countIn part 0 cs

/-- `strings.Count`, for a nonempty `part`. -/
def count (s part : String) : ℕ := countIn part.toList 0 s.toList

/-- `unicode.IsSpace`. -/
def isSpace (c : Char) : Bool :=
  c ∈ ['\t', '\n', '\x0b', '\x0c', '\r', ' ', '\u0085', '\u00a0', '\u1680', '\u2028', '\u2029',
    '\u202f', '\u205f', '\u3000'] || ('\u2000' ≤ c && c ≤ '\u200a')

variable {c sep : Char} {t : List Char} {a b p s : String}

theorem isSpace_of_visible (hlow : 0x20 < c.toNat) (hhigh : c.toNat < 0x80) :
    isSpace c = false := by
  have hne : ∀ d : Char, d.toNat ≤ 0x20 ∨ 0x80 ≤ d.toNat → c ≠ d := by
    rintro d hd rfl
    omega
  have hrange : ¬ ('\u2000' ≤ c) := fun h => by
    have : '\u2000'.toNat ≤ c.toNat := h
    have h2000 : '\u2000'.toNat = 0x2000 := rfl
    omega
  simp (disch := decide) [isSpace, hne, hrange]

/-- `strings.TrimSpace`. -/
def trimSpace (s : String) : String :=
  String.ofList ((s.toList.dropWhile isSpace).rdropWhile isSpace)

/-- `strings.ToLower` on ASCII letters. -/
def toLower (s : String) : String := String.ofList (s.toList.map Char.toLower)

/-- `strings.EqualFold`, where `fold` is simple case folding. -/
def equalFold (fold : Char → Char) (s t : String) : Bool := s.toList.map fold == t.toList.map fold

/-- The `%s` of a format filled in. -/
def sprintfIn (value : List Char) : List Char → List Char
  | [] => []
  | '%' :: 's' :: cs => value ++ sprintfIn value cs
  | '%' :: '%' :: cs => '%' :: sprintfIn value cs
  | c :: cs => c :: sprintfIn value cs

/-- `fmt.Sprintf` with one string operand, for a format that has no other verb than `%s` and `%%`. -/
def sprintf (format value : String) : String :=
  String.ofList (sprintfIn value.toList format.toList)

/-! ## Prefixes -/

theorem hasPrefix_iff : hasPrefix s p = true ↔ ∃ r : String, s = p ++ r := by
  simp only [hasPrefix, List.isPrefixOf_iff_prefix]
  constructor
  · rintro ⟨r, hr⟩
    exact ⟨String.ofList r, by rw [← String.toList_inj]; simp [hr]⟩
  · rintro ⟨r, rfl⟩
    exact ⟨r.toList, by simp⟩

@[simp] theorem hasPrefix_append (p r : String) : hasPrefix (p ++ r) p = true :=
  hasPrefix_iff.mpr ⟨r, rfl⟩

@[simp] theorem trimPrefix_append (p r : String) : trimPrefix (p ++ r) p = r := by
  rw [trimPrefix, if_pos (hasPrefix_append p r), ← String.toList_inj]
  simp

/-- A string with prefix `p` differs from every string without it. -/
theorem ne_of_hasPrefix {t : String} (hs : hasPrefix s p = true) (ht : hasPrefix t p = false) :
    s ≠ t := by
  rintro rfl
  rw [hs] at ht
  exact Bool.noConfusion ht

/-- Two prefixes of one string are comparable, so incomparable prefixes exclude each other. -/
theorem hasPrefix_false_of_incomparable {q : String} (hs : hasPrefix s p = true)
    (hpq : hasPrefix p q = false) (hqp : hasPrefix q p = false) : hasPrefix s q = false := by
  rw [Bool.eq_false_iff]
  intro hq
  simp only [hasPrefix, List.isPrefixOf_iff_prefix, Bool.eq_false_iff, ne_eq] at hs hq hpq hqp
  rcases List.prefix_or_prefix_of_prefix hs hq with h | h
  · exact hqp h
  · exact hpq h

/-! ## Splitting -/

/-- Splitting a string with exactly one separator gives its two sides. -/
theorem split_pair (ha : sep ∉ a.toList) (hb : sep ∉ b.toList) :
    split (a ++ String.singleton sep ++ b) sep = [a, b] := by
  have hs : (a ++ String.singleton sep ++ b).toList = a.toList ++ sep :: b.toList := by simp
  rw [split, hs, List.splitOn_append_cons_self_of_not_mem ha, List.splitOn_eq_singleton hb]
  simp

/-- A two-part split determines the string. -/
theorem eq_of_split_pair (h : split s sep = [a, b]) : s = a ++ String.singleton sep ++ b := by
  have hparts : s.toList.splitOn sep = [a.toList, b.toList] := by
    have := congrArg (List.map String.toList) h
    simpa [split, Function.comp_def] using this
  have hs : [sep].intercalate (s.toList.splitOn sep) = s.toList := List.intercalate_splitOn sep
  rw [hparts] at hs
  rw [← String.toList_inj, ← hs]
  simp [List.intercalate]

private theorem sep_not_mem_splitOnP {α : Type*} (p : α → Bool) :
    ∀ (xs : List α) (part : List α), part ∈ xs.splitOnP p → ∀ x ∈ part, p x = false
  | [], part, hpart, x, hx => by
      simp only [List.splitOnP_nil, List.mem_singleton] at hpart
      subst hpart
      cases hx
  | y :: ys, part, hpart, x, hx => by
      rw [List.splitOnP_cons_eq_if_modifyHead] at hpart
      have ih := sep_not_mem_splitOnP p ys
      split at hpart
      · rcases List.mem_cons.mp hpart with rfl | hmem
        · cases hx
        · exact ih part hmem x hx
      · rename_i hy
        obtain ⟨hd, tl, htl⟩ := List.exists_cons_of_ne_nil (List.splitOnP_ne_nil p ys)
        rw [htl, List.modifyHead_cons] at hpart
        rcases List.mem_cons.mp hpart with rfl | hmem
        · rcases List.mem_cons.mp hx with rfl | hx
          · simpa using hy
          · exact ih hd (by rw [htl]; exact List.mem_cons_self) x hx
        · exact ih part (by rw [htl]; exact List.mem_cons_of_mem _ hmem) x hx

/-- No part of a split contains the separator. -/
theorem sep_not_mem_of_mem_split {part : String} (h : part ∈ split s sep) : sep ∉ part.toList := by
  simp only [split, List.mem_map] at h
  obtain ⟨l, hl, rfl⟩ := h
  rw [String.toList_ofList]
  intro hsep
  rw [List.splitOn_eq_splitOnP] at hl
  simpa using sep_not_mem_splitOnP (· == sep) s.toList l hl sep hsep

/-! ## Trimming -/

/-- `n` copies of one character. -/
def repeated (n : ℕ) (c : Char) : String := String.ofList (List.replicate n c)

private theorem eq_replicate_append_dropWhile (c : Char) (l : List Char) :
    ∃ n, l = List.replicate n c ++ l.dropWhile (· == c) := by
  refine ⟨(l.takeWhile (· == c)).length, ?_⟩
  have hall : ∀ x ∈ l.takeWhile (· == c), x = c := fun x hx => by
    simpa using List.mem_takeWhile_imp hx
  conv_lhs => rw [← List.takeWhile_append_dropWhile (p := (· == c)) (l := l)]
  rw [List.eq_replicate_of_mem hall]
  simp

/-- A string is its trimmed text between runs of the trimmed character. -/
theorem exists_eq_repeated_trim (s : String) (c : Char) :
    ∃ i j, s = repeated i c ++ trim s c ++ repeated j c := by
  obtain ⟨i, hi⟩ := eq_replicate_append_dropWhile c s.toList
  obtain ⟨j, hj⟩ := eq_replicate_append_dropWhile c (s.toList.dropWhile (· == c)).reverse
  refine ⟨i, j, ?_⟩
  rw [← String.toList_inj]
  simp only [repeated, trim, List.rdropWhile, String.toList_append, String.toList_ofList]
  have hrev := congrArg List.reverse hj
  rw [List.reverse_reverse, List.reverse_append, List.reverse_replicate] at hrev
  rw [List.append_assoc, ← hrev]
  exact hi

/-- Trimmed text does not start with the trimmed character. -/
theorem head_trim_ne (s : String) (c : Char) (r : String) :
    trim s c ≠ String.singleton c ++ r := by
  intro h
  have hl := congrArg String.toList h
  simp only [trim, String.toList_ofList, String.toList_append, String.toList_singleton,
    List.singleton_append] at hl
  have hpre : (s.toList.dropWhile (· == c)).rdropWhile (· == c) <+: s.toList.dropWhile (· == c) :=
    List.rdropWhile_prefix _ _
  rw [hl] at hpre
  obtain ⟨t, ht⟩ := hpre
  have hhead := List.head?_dropWhile_not (· == c) s.toList
  rw [← ht] at hhead
  simp at hhead

private theorem rdropWhile_append_replicate (j : ℕ) (hne : t ≠ []) (hlast : t.getLast hne ≠ c) :
    (t ++ List.replicate j c).rdropWhile (· == c) = t := by
  induction j with
  | zero =>
    rw [List.replicate_zero, List.append_nil, List.rdropWhile_eq_self_iff]
    intro _
    simpa using hlast
  | succ j ih =>
    rw [List.replicate_succ', ← List.append_assoc, List.rdropWhile_concat_pos _ _ _ (by simp)]
    exact ih

/-- Trimming removes runs of the trimmed character around text that neither starts nor ends
with it. -/
theorem trim_repeated (i j : ℕ) (hne : t ≠ []) (hhead : t.head hne ≠ c) (hlast : t.getLast hne ≠ c) :
    trim (repeated i c ++ String.ofList t ++ repeated j c) c = String.ofList t := by
  obtain ⟨x, xs, rfl⟩ := List.exists_cons_of_ne_nil hne
  have hl : (repeated i c ++ String.ofList (x :: xs) ++ repeated j c).toList
      = List.replicate i c ++ ((x :: xs) ++ List.replicate j c) := by
    simp [repeated]
  have hdrop : (List.replicate i c ++ ((x :: xs) ++ List.replicate j c)).dropWhile (· == c)
      = (x :: xs) ++ List.replicate j c := by
    rw [List.dropWhile_append_of_pos (by simp), List.cons_append,
      List.dropWhile_cons_of_neg (by simpa using hhead)]
  rw [trim, hl, hdrop, rdropWhile_append_replicate j hne hlast]

/-- `trim_repeated` for text in two parts, the first of them free of the trimmed character. -/
theorem trim_repeated_append {a b : List Char} (i j : ℕ) (ha : a ≠ []) (hb : b ≠ []) (hca : c ∉ a)
    (hlast : b.getLast hb ≠ c) :
    trim (repeated i c ++ String.ofList (a ++ b) ++ repeated j c) c = String.ofList (a ++ b) := by
  refine trim_repeated i j (by simp [ha]) ?_ ?_
  · rw [List.head_append_of_ne_nil ha]
    intro h
    exact hca (h ▸ List.head_mem ha)
  · rwa [List.getLast_append_of_ne_nil _ hb]

/-! ## Separators -/

/-- Where a separator occurs equally often before the place of the cut, the cut is at the same place. -/
theorem append_cons_inj_of_count {s u v : List Char} (hcount : s.count c = t.count c)
    (h : s ++ c :: u = t ++ c :: v) : s = t ∧ u = v := by
  induction s generalizing t with
  | nil =>
    cases t with
    | nil => exact ⟨rfl, (List.cons.inj h).2⟩
    | cons y t =>
      obtain ⟨rfl, -⟩ := List.cons.inj h
      simp at hcount
  | cons x s ih =>
    cases t with
    | nil =>
      obtain ⟨rfl, -⟩ := List.cons.inj h
      simp at hcount
    | cons y t =>
      obtain ⟨rfl, hrest⟩ := List.cons.inj h
      have hcount' : s.count c = t.count c := by
        simp only [List.count_cons] at hcount
        omega
      obtain ⟨rfl, rfl⟩ := ih hcount' hrest
      exact ⟨rfl, rfl⟩

/-! ## Replacing -/

/-- Between the occurrences that a replacement finds stand the same pieces, whatever is put in. -/
theorem exists_pieces {old : List Char} (hold : old ≠ []) (skip : ℕ) (s : List Char) :
    ∃ pieces : List (List Char), pieces ≠ [] ∧ s.drop skip = old.intercalate pieces ∧
      (∀ p ∈ pieces, ¬ old <:+: p) ∧ ∀ new, replaceIn old new skip s = new.intercalate pieces := by
  have hnil : ∀ p ∈ [([] : List Char)], ¬ old <:+: p := by simpa using hold
  induction s generalizing skip with
  | nil => exact ⟨[[]], by simp, by simp, hnil, fun new => by simp [replaceIn]⟩
  | cons c cs ih =>
    cases skip with
    | succ skip =>
      obtain ⟨pieces, hne, hdrop, hfree, hreplace⟩ := ih skip
      exact ⟨pieces, hne, hdrop, hfree, fun new => by rw [replaceIn, hreplace]⟩
    | zero =>
      by_cases hprefix : old <+: c :: cs
      · obtain ⟨pieces, hne, hdrop, hfree, hreplace⟩ := ih (old.length - 1)
        refine ⟨[] :: pieces, by simp, ?_, List.forall_mem_cons.mpr ⟨hnil _ (by simp), hfree⟩,
          fun new => ?_⟩
        · obtain ⟨rest, hrest⟩ := hprefix
          have hlength : old.length = old.length - 1 + 1 :=
            (Nat.succ_pred_eq_of_pos (List.length_pos_of_ne_nil hold)).symm
          have hcs : cs.drop (old.length - 1) = rest := by
            rw [← List.drop_succ_cons (a := c), ← hlength, ← hrest, List.drop_left]
          rw [List.intercalate_cons_of_ne_nil hne, ← hdrop, hcs, List.drop_zero, ← hrest]
          rfl
        · rw [replaceIn, if_pos (List.isPrefixOf_iff_prefix.mpr hprefix), hreplace,
            List.intercalate_cons_of_ne_nil hne]
          rfl
      · obtain ⟨pieces, hne, hdrop, hfree, hreplace⟩ := ih 0
        cases pieces with
        | nil => exact absurd rfl hne
        | cons p ps =>
          have hcons : ∀ sep : List Char,
              sep.intercalate ((c :: p) :: ps) = c :: sep.intercalate (p :: ps) := fun sep => by
            cases ps with
            | nil => simp
            | cons q ps => simp [List.intercalate_cons_cons]
          obtain ⟨hp, hps⟩ := List.forall_mem_cons.mp hfree
          refine ⟨(c :: p) :: ps, by simp, ?_, List.forall_mem_cons.mpr ⟨fun hinfix => ?_, hps⟩,
            fun new => ?_⟩
          · rw [hcons, ← hdrop]
            rfl
          · -- the piece is a prefix of what follows, where `old` does not start
            rcases List.infix_cons_iff.mp hinfix with hstart | hlater
            · refine hprefix (hstart.trans ?_)
              rw [← List.drop_zero (l := cs), hdrop]
              cases ps with
              | nil => simp
              | cons q ps =>
                rw [List.intercalate_cons_cons, List.append_assoc]
                exact List.prefix_append (c :: p) _
            · exact hp hlater
          · rw [replaceIn, if_neg (by simpa using hprefix), hreplace, hcons]

/-- A word that shares no character with the separator lies within one of the pieces. -/
theorem infix_intercalate_iff {word sep : List Char} (hword : word ≠ []) (hsep : sep ≠ [])
    (hdisjoint : word.Disjoint sep) {pieces : List (List Char)} :
    word <:+: sep.intercalate pieces ↔ ∃ p ∈ pieces, word <:+: p := by
  induction pieces with
  | nil => simpa using hword
  | cons p ps ih =>
    rcases eq_or_ne ps [] with rfl | hps
    · simp
    rw [List.intercalate_cons_of_ne_nil hps, List.exists_mem_cons_iff, ← ih, List.append_assoc]
    constructor
    · intro h
      rcases List.infix_append_iff.mp h with h | h | ⟨l₁, l₂, rfl, h₁, h₂⟩
      · exact .inl h
      · rcases List.infix_append_iff.mp h with h | h | ⟨l₁, l₂, rfl, h₁, h₂⟩
        · obtain ⟨x, hx⟩ := List.exists_mem_of_ne_nil _ hword
          exact absurd (h.mem hx) (hdisjoint hx)
        · exact .inr h
        · cases l₁ with
          | nil => exact .inr h₂.isInfix
          | cons x l₁ => exact absurd (h₁.mem List.mem_cons_self) (hdisjoint List.mem_cons_self)
      · cases l₂ with
        | nil => exact .inl (by simpa using h₁.isInfix)
        | cons x l₂ =>
          obtain ⟨y, sep, rfl⟩ := List.exists_cons_of_ne_nil hsep
          obtain ⟨rfl, -⟩ := List.cons_prefix_cons.mp h₂
          exact absurd List.mem_cons_self (hdisjoint (List.mem_append_right _ List.mem_cons_self))
    · rintro (h | h)
      · exact h.trans (List.prefix_append _ _).isInfix
      · exact h.trans ((List.suffix_append _ _).isInfix.trans (List.suffix_append _ _).isInfix)

end Argus.Strings

import Argus.Base.Sql
import Argus.Migrations.Lint

/-!
# What the lint reads

The lint reads a file with fewer rules than the database: it knows comments to the end of a line and
bodies between `$$`, but no string, no quoted identifier and no other comment. In a file whose other
texts hold nothing that the lint would take for one of those, or for the end of a statement, it
finds the statements that the database finds, and it renders their tokens.
-/

namespace Argus.Migrations

open Sql (Kind Mark Mode Token marks)

/-! ## Files -/

/-- A character that means the same to the lint, before another one. -/
def tame (m : Mark) (next : Option Char) : Bool :=
  let dashes := m.char = '-' && next = some '-'
  let dollars := m.char = '$' && next = some '$'
  match m.kind with
  | .code => !dollars
  | .comment => true
  | .block => m.char ≠ ';' && !dashes && !dollars
  | .quoted => m.char ≠ ';' && !dashes && !dollars
  | .delimiter => m.char = '$'
  | .body => !dashes

/-- No identifier holds `$$`, no string, quoted identifier or block comment holds `--`, `;` or `$$`,
and dollar-quoted bodies are delimited by `$$` and hold no `--`. -/
def readable : List Mark → Bool
  | [] => true
  | m :: ms => tame m (ms.head?.map Mark.char) && readable ms

/-- What a statement leaves when its comments are removed. -/
def visible (ms : List Mark) : List Char := (ms.filter (·.kind ≠ .comment)).map Mark.char

theorem visible_append (ms ms' : List Mark) : visible (ms ++ ms') = visible ms ++ visible ms' := by
  rw [visible, List.filter_append, List.map_append]
  rfl

variable {kind : Kind} {sql tag word : List Char} {ts : List Token} {m : Mark} {t : Token}

theorem visible_concat (h : m.kind ≠ .comment) (ms : List Mark) :
    visible (ms ++ [m]) = visible ms ++ [m.char] := by
  rw [visible_append]
  simp [visible, h]

theorem visible_concat_comment (ms : List Mark) (c : Char) :
    visible (ms ++ [⟨.comment, c⟩]) = visible ms := by
  rw [visible_append]
  simp [visible]

/-- What the text before a character leaves open for the lint. -/
def inDollar : Mode → Bool
  | .dollar _ => true
  | _ => false

def inLine : Mode → Bool
  | .line => true
  | _ => false

/-- The modes at the ends of what the lint reads at once. -/
def Aligned : Mode → Prop
  | .dollar tag => tag = []
  | .skip kind _ next => (kind = .quoted ∨ kind = .block) ∧ Aligned next ∧ inDollar next = false ∧
      inLine next = false
  | _ => True

theorem head?_marks (mode : Mode) (cs : List Char) :
    (marks mode cs).head?.map Mark.char = cs.head? := by
  cases cs <;> rfl

variable {cs : List Char}

theorem head?_stripComments_ne {comment : Bool} (h : cs.head? ≠ some '$') :
    (stripComments comment cs).head? ≠ some '$' := by
  have htrue : ∀ cs : List Char, (stripComments true cs).head? ≠ some '$' := by
    intro cs
    induction cs with
    | nil => simp [stripComments]
    | cons c cs ih =>
      by_cases hc : c = '\n'
      · subst hc
        simp [stripComments]
      · rw [stripComments]
        · exact ih
        · exact fun h => hc h
  cases comment with
  | true => exact htrue cs
  | false =>
    fun_cases stripComments false cs <;> simp_all

variable {c : Char}

/-- A character that begins nothing is copied. -/
theorem pieces_ordinary {d : Bool} {b : List Char} (hdashes : ¬ (c = '-' ∧ cs.head? = some '-'))
    (hdollars : ¬ (c = '$' ∧ cs.head? = some '$')) (hend : c = ';' → d = true) :
    pieces d b (stripComments false (c :: cs)) = pieces d (b ++ [c]) (stripComments false cs) := by
  have hstrip : stripComments false (c :: cs) = c :: stripComments false cs := by
    rw [stripComments]
    rintro rest rfl rfl
    exact hdashes ⟨rfl, rfl⟩
  rw [hstrip]
  by_cases hc : c = ';'
  · subst hc
    rw [pieces, if_pos (hend rfl)]
  · rw [pieces]
    · rintro rest rfl hrest
      have hne : cs.head? ≠ some '$' := fun h => hdollars ⟨rfl, h⟩
      exact head?_stripComments_ne hne (by rw [hrest]; rfl)
    · exact fun h => hc h

/-- The lint and the database have read the same statements of a text, after a mode and a text that
has begun. -/
def Agree (mode : Mode) (b : List Mark) (cs : List Char) : Prop :=
  pieces (inDollar mode) (visible b) (stripComments (inLine mode) cs) =
    (Sql.splitAt b (marks mode cs)).map visible

variable {kind : Kind} {mode mode' : Mode}

theorem splitAt_marks (hstep : Sql.step mode c cs = (kind, mode')) (hcode : kind = .code → c ≠ ';')
    (b : List Mark) :
    Sql.splitAt b (marks mode (c :: cs)) = Sql.splitAt (b ++ [⟨kind, c⟩]) (marks mode' cs) := by
  have hne : (⟨kind, c⟩ : Mark) ≠ ⟨.code, ';'⟩ := fun h => by
    rw [Mark.mk.injEq] at h
    exact hcode h.1 h.2
  rw [marks, hstep, Sql.splitAt, if_neg hne]

variable {b : List Mark}

/-- A step over a character that begins and ends nothing for the lint. -/
theorem Agree.ordinary (hstep : Sql.step mode c cs = (kind, mode')) (hline : inLine mode = false)
    (hline' : inLine mode' = false) (hdollar : inDollar mode' = inDollar mode)
    (hkind : kind ≠ .comment) (hdashes : ¬ (c = '-' ∧ cs.head? = some '-'))
    (hdollars : ¬ (c = '$' ∧ cs.head? = some '$')) (hend : c = ';' → inDollar mode = true)
    (hcode : kind = .code → c ≠ ';') (h : Agree mode' (b ++ [⟨kind, c⟩]) cs) :
    Agree mode b (c :: cs) := by
  unfold Agree at h ⊢
  rw [splitAt_marks hstep hcode, hline, pieces_ordinary hdashes hdollars hend, ← h, hline',
    hdollar, visible_concat hkind]

/-- A step over a character of a comment. -/
theorem Agree.comment (hstep : Sql.step mode c cs = (.comment, .line))
    (hdollar : inDollar mode = false)
    (hstrip : stripComments (inLine mode) (c :: cs) = stripComments true cs)
    (h : Agree .line (b ++ [⟨.comment, c⟩]) cs) : Agree mode b (c :: cs) := by
  unfold Agree at h ⊢
  rw [visible_concat_comment] at h
  rw [splitAt_marks hstep (by simp), ← h, hstrip, hdollar]
  rfl

/-- A step over the `$$` around a body. -/
theorem Agree.delimiter
    (hstep : Sql.step mode '$' ('$' :: cs) = (.delimiter, .skip .delimiter 0 mode'))
    (hline : inLine mode = false) (hline' : inLine mode' = false)
    (hdollar : inDollar mode' = !inDollar mode)
    (h : Agree mode' (b ++ [⟨.delimiter, '$'⟩] ++ [⟨.delimiter, '$'⟩]) cs) :
    Agree mode b ('$' :: '$' :: cs) := by
  unfold Agree at h ⊢
  have hskip : Sql.step (.skip .delimiter 0 mode') '$' cs = (.delimiter, mode') := rfl
  have hstrip : stripComments false ('$' :: '$' :: cs) = '$' :: '$' :: stripComments false cs := by
    rw [stripComments, stripComments]
    · simp
    · simp
  rw [splitAt_marks hstep (by simp), splitAt_marks hskip (by simp), ← h, hline, hstrip, pieces,
    hline', hdollar, visible_concat (by simp), visible_concat (by simp), List.append_assoc]
  rfl

/-- A step over the end of a statement. -/
theorem Agree.semicolon (h : Agree (.code []) [] cs) : Agree (.code word) b (';' :: cs) := by
  unfold Agree at h ⊢
  have hmarks : marks (.code word) (';' :: cs) = ⟨.code, ';'⟩ :: marks (.code []) cs := rfl
  have hstrip : stripComments false (';' :: cs) = ';' :: stripComments false cs := by
    rw [stripComments]
    simp
  rw [hmarks, Sql.splitAt, if_pos rfl, List.map_cons, ← h]
  change pieces false (visible b) (stripComments false (';' :: cs)) = _
  rw [hstrip, pieces, if_neg (by simp)]
  rfl

/-- The end of a comment. -/
theorem Agree.newline (h : Agree (.code []) (b ++ [⟨.code, '\n'⟩]) cs) :
    Agree .line b ('\n' :: cs) := by
  unfold Agree at h ⊢
  have hstep : Sql.step .line '\n' cs = (.code, .code []) := rfl
  rw [splitAt_marks hstep (by simp), ← h, visible_concat (by simp)]
  change pieces false (visible b) (stripComments true ('\n' :: cs)) = _
  rw [stripComments, pieces]
  · rfl
  · simp
  · simp

theorem of_tame_quoted (hkind : kind = .quoted ∨ kind = .block)
    (h : tame ⟨kind, c⟩ ((marks mode cs).head?.map Mark.char) = true) :
    c ≠ ';' ∧ ¬ (c = '-' ∧ cs.head? = some '-') ∧ ¬ (c = '$' ∧ cs.head? = some '$') := by
  rw [head?_marks] at h
  rcases hkind with rfl | rfl <;> simpa [tame, and_assoc, imp_iff_not_or] using h

theorem dollarTag_eq_some (h : Sql.dollarTag cs = some tag) :
    ∃ rest, cs = tag ++ '$' :: rest ∧ '$' ∉ tag := by
  unfold Sql.dollarTag at h
  dsimp only at h
  split at h
  · rename_i hcond
    obtain rfl := Option.some.inj h
    rw [Bool.and_eq_true, decide_eq_true_eq] at hcond
    obtain ⟨rest, hrest⟩ := List.head?_eq_some_iff.mp hcond.1
    obtain ⟨tail, htail⟩ := List.takeWhile_prefix (fun c => Sql.isWordChar c && c != '$') (l := cs)
    have hdrop : tail = '$' :: rest := by
      have hdrop := congrArg
        (List.drop (cs.takeWhile fun c => Sql.isWordChar c && c != '$').length) htail
      rw [List.drop_left] at hdrop
      exact hdrop.trans hrest
    refine ⟨rest, ?_, fun hmem => ?_⟩
    · rw [← hdrop, htail]
    · have hnot := List.mem_takeWhile_imp hmem
      simp at hnot
  · cases h

/-- In a readable text the tag of a dollar-quoted body is empty. -/
theorem eq_cons_of_dollarTag {next : Mode} (h : Sql.dollarTag cs = some tag)
    (hreadable : readable (marks (.skip .delimiter tag.length next) cs) = true) :
    tag = [] ∧ ∃ rest, cs = '$' :: rest := by
  obtain ⟨rest, rfl, hnot⟩ := dollarTag_eq_some h
  cases tag with
  | nil => exact ⟨rfl, rest, rfl⟩
  | cons c tag =>
    rw [List.cons_append, marks, readable, Bool.and_eq_true] at hreadable
    have hc : c = '$' := by simpa [tame, Sql.step] using hreadable.1
    exact absurd (hc ▸ List.mem_cons_self) hnot

/-- Shorter texts are read alike. -/
def AgreeBelow (n : ℕ) : Prop :=
  ∀ ⦃cs : List Char⦄, cs.length < n → ∀ ⦃mode : Mode⦄, Aligned mode →
    readable (marks mode cs) = true → ∀ b, Agree mode b cs

section

variable {c : Char} {cs : List Char} (ih : AgreeBelow (c :: cs).length)

include ih

variable {mode mode' : Mode}

theorem AgreeBelow.next (hstep : Sql.step mode c cs = (kind, mode')) (hready : Aligned mode')
    (hreadable : readable (marks mode (c :: cs)) = true) (b : List Mark) : Agree mode' b cs := by
  rw [marks, readable, Bool.and_eq_true, hstep] at hreadable
  exact ih (Nat.lt_succ_self _) hready hreadable.2 b

/-- Two characters are read at once at a delimiter. -/
theorem AgreeBelow.delimiter {rest : List Char} (hc : c = '$') (hcs : cs = '$' :: rest)
    (hstep : Sql.step mode c cs = (.delimiter, .skip .delimiter 0 mode'))
    (hline : inLine mode = false) (hline' : inLine mode' = false)
    (hdollar : inDollar mode' = !inDollar mode) (hready : Aligned mode')
    (hreadable : readable (marks mode (c :: cs)) = true) (b : List Mark) :
    Agree mode b (c :: cs) := by
  subst hc hcs
  rw [marks, readable, Bool.and_eq_true, hstep, marks, readable, Bool.and_eq_true] at hreadable
  have hlt : rest.length < ('$' :: '$' :: rest).length := by
    rw [List.length_cons, List.length_cons]
    omega
  exact Agree.delimiter hstep hline hline' hdollar (ih hlt hready hreadable.2.2 _)

/-- A character of a string, a quoted identifier or a block comment. -/
theorem AgreeBelow.quoted (hstep : Sql.step mode c cs = (kind, mode'))
    (hkind : kind = .quoted ∨ kind = .block) (hline : inLine mode = false)
    (hline' : inLine mode' = false) (hdollar : inDollar mode' = inDollar mode)
    (hready : Aligned mode') (hreadable : readable (marks mode (c :: cs)) = true) (b : List Mark) :
    Agree mode b (c :: cs) := by
  have hnext := ih.next hstep hready hreadable
  rw [marks, readable, Bool.and_eq_true, hstep] at hreadable
  obtain ⟨hend, hdashes, hdollars⟩ := of_tame_quoted hkind hreadable.1
  refine Agree.ordinary hstep hline hline' hdollar ?_ hdashes hdollars (fun h => absurd h hend)
    (fun _ => hend) (hnext _)
  rcases hkind with rfl | rfl <;> simp

theorem AgreeBelow.code (hreadable : readable (marks (.code word) (c :: cs)) = true) (b : List Mark) :
    Agree (.code word) b (c :: cs) := by
  have hstep : Sql.step (.code word) c cs = Sql.stepCode word c cs := rfl
  have hdollars : ∀ {mode' : Mode}, Sql.step (.code word) c cs = (.code, mode') →
      ¬ (c = '$' ∧ cs.head? = some '$') := by
    intro mode' h
    rw [marks, readable, Bool.and_eq_true, h, head?_marks] at hreadable
    simpa [tame, imp_iff_not_or] using hreadable.1
  unfold Sql.stepCode at hstep
  split_ifs at hstep with hcomment hblock hquote hident hdollar hword
  · refine Agree.comment hstep rfl ?_ (ih.next hstep trivial hreadable _)
    obtain ⟨rfl, hhead⟩ := hcomment
    obtain ⟨rest, rfl⟩ := List.head?_eq_some_iff.mp hhead
    change stripComments false ('-' :: '-' :: rest) = _
    rw [stripComments, stripComments]
    simp
  · exact ih.quoted hstep (.inr rfl) rfl rfl rfl ⟨.inr rfl, trivial, rfl, rfl⟩ hreadable b
  · exact ih.quoted hstep (.inl rfl) rfl rfl rfl trivial hreadable b
  · exact ih.quoted hstep (.inl rfl) rfl rfl rfl trivial hreadable b
  · cases htag : Sql.dollarTag cs with
    | none =>
      rw [htag] at hstep
      exact Agree.ordinary hstep rfl rfl rfl (by simp) (fun h => hcomment h) (hdollars hstep)
        (fun h => by rw [hdollar.1] at h; cases h) (fun _ h => by rw [hdollar.1] at h; cases h)
        (ih.next hstep trivial hreadable _)
    | some tag =>
      rw [htag] at hstep
      have hskip := hreadable
      rw [marks, readable, Bool.and_eq_true, hstep] at hskip
      obtain ⟨rfl, rest, hrest⟩ := eq_cons_of_dollarTag htag hskip.2
      exact ih.delimiter hdollar.1 hrest hstep rfl rfl rfl rfl hreadable b
  · have hend : c ≠ ';' := by
      rintro rfl
      cases hword
    exact Agree.ordinary hstep rfl rfl rfl (by simp) (fun h => hcomment h) (hdollars hstep)
      (fun h => absurd h hend) (fun _ => hend) (ih.next hstep trivial hreadable _)
  · by_cases hend : c = ';'
    · subst hend
      exact Agree.semicolon (ih.next hstep trivial hreadable [])
    · exact Agree.ordinary hstep rfl rfl rfl (by simp) (fun h => hcomment h) (hdollars hstep)
        (fun h => absurd h hend) (fun _ => hend) (ih.next hstep trivial hreadable _)

theorem AgreeBelow.line (hreadable : readable (marks .line (c :: cs)) = true) (b : List Mark) :
    Agree .line b (c :: cs) := by
  by_cases hc : c = '\n'
  · subst hc
    have hstep : Sql.step .line '\n' cs = (.code, .code []) := rfl
    exact Agree.newline (ih.next hstep trivial hreadable _)
  · have hstep : Sql.step .line c cs = (.comment, .line) := if_neg hc
    refine Agree.comment hstep rfl ?_ (ih.next hstep trivial hreadable _)
    change stripComments true (c :: cs) = _
    rw [stripComments]
    exact fun h => hc h

theorem AgreeBelow.block {depth : ℕ} (hreadable : readable (marks (.block depth) (c :: cs)) = true)
    (b : List Mark) : Agree (.block depth) b (c :: cs) := by
  have hstep : Sql.step (.block depth) c cs = Sql.step (.block depth) c cs := rfl
  conv_rhs at hstep => rw [Sql.step]
  split_ifs at hstep with hclose hzero hopen
  · exact ih.quoted hstep (.inr rfl) rfl rfl rfl ⟨.inr rfl, trivial, rfl, rfl⟩ hreadable b
  · exact ih.quoted hstep (.inr rfl) rfl rfl rfl ⟨.inr rfl, trivial, rfl, rfl⟩ hreadable b
  · exact ih.quoted hstep (.inr rfl) rfl rfl rfl ⟨.inr rfl, trivial, rfl, rfl⟩ hreadable b
  · exact ih.quoted hstep (.inr rfl) rfl rfl rfl trivial hreadable b

theorem AgreeBelow.string {escapes : Bool}
    (hreadable : readable (marks (.string escapes) (c :: cs)) = true) (b : List Mark) :
    Agree (.string escapes) b (c :: cs) := by
  have hstep : Sql.step (.string escapes) c cs = Sql.step (.string escapes) c cs := rfl
  conv_rhs at hstep => rw [Sql.step]
  split_ifs at hstep with hclose hskip
  · exact ih.quoted hstep (.inl rfl) rfl rfl rfl trivial hreadable b
  · exact ih.quoted hstep (.inl rfl) rfl rfl rfl ⟨.inl rfl, trivial, rfl, rfl⟩ hreadable b
  · exact ih.quoted hstep (.inl rfl) rfl rfl rfl trivial hreadable b

theorem AgreeBelow.identifier (hreadable : readable (marks .identifier (c :: cs)) = true)
    (b : List Mark) : Agree .identifier b (c :: cs) := by
  have hstep : Sql.step .identifier c cs = Sql.step .identifier c cs := rfl
  conv_rhs at hstep => rw [Sql.step]
  split_ifs at hstep with hclose hskip
  · exact ih.quoted hstep (.inl rfl) rfl rfl rfl trivial hreadable b
  · exact ih.quoted hstep (.inl rfl) rfl rfl rfl ⟨.inl rfl, trivial, rfl, rfl⟩ hreadable b
  · exact ih.quoted hstep (.inl rfl) rfl rfl rfl trivial hreadable b

theorem AgreeBelow.dollar (hreadable : readable (marks (.dollar []) (c :: cs)) = true)
    (b : List Mark) : Agree (.dollar []) b (c :: cs) := by
  have hstep : Sql.step (.dollar []) c cs = Sql.step (.dollar []) c cs := rfl
  conv_rhs at hstep => rw [Sql.step]
  split_ifs at hstep with hclose
  · obtain ⟨rest, hrest⟩ := List.isPrefixOf_iff_prefix.mp hclose.2
    exact ih.delimiter hclose.1 hrest.symm hstep rfl rfl rfl trivial hreadable b
  · have htame := hreadable
    rw [marks, readable, Bool.and_eq_true, hstep, head?_marks] at htame
    have hdashes : ¬ (c = '-' ∧ cs.head? = some '-') := by
      simpa [tame, imp_iff_not_or] using htame.1
    refine Agree.ordinary hstep rfl rfl rfl (by simp) hdashes ?_ (fun _ => rfl) (by simp)
      (ih.next hstep rfl hreadable _)
    rintro ⟨hc, hhead⟩
    obtain ⟨rest, rfl⟩ := List.head?_eq_some_iff.mp hhead
    exact hclose ⟨hc, rfl⟩

end

/-- The lint finds the statements of a readable text. -/
theorem agree (cs : List Char) (b : List Mark) (hready : Aligned mode)
    (hreadable : readable (marks mode cs) = true) : Agree mode b cs := by
  have hbelow : ∀ n, AgreeBelow n := by
    intro n
    induction n with
    | zero => exact fun cs hlt => absurd hlt (Nat.not_lt_zero _)
    | succ n ih =>
      intro cs hlt mode hready hreadable b
      cases cs with
      | nil =>
        unfold Agree
        cases inLine mode <;> rfl
      | cons c cs =>
        have ih : AgreeBelow (c :: cs).length := fun cs' hlt' =>
          ih (lt_of_lt_of_le hlt' (Nat.le_of_lt_succ hlt))
        cases mode with
        | code word => exact ih.code hreadable b
        | line => exact ih.line hreadable b
        | block depth => exact ih.block hreadable b
        | string escapes => exact ih.string hreadable b
        | identifier => exact ih.identifier hreadable b
        | dollar tag =>
          obtain rfl : tag = [] := hready
          exact ih.dollar hreadable b
        | skip kind more next =>
          obtain ⟨hkind, hnext, hdollar, hline⟩ := hready
          by_cases hmore : more = 0
          · have hstep : Sql.step (.skip kind more next) c cs = (kind, next) := by
              rw [Sql.step, if_pos hmore]
            exact ih.quoted hstep hkind rfl hline hdollar hnext hreadable b
          · have hstep : Sql.step (.skip kind more next) c cs =
                (kind, .skip kind (more - 1) next) := by
              rw [Sql.step, if_neg hmore]
            exact ih.quoted hstep hkind rfl rfl rfl ⟨hkind, hnext, hdollar, hline⟩ hreadable b
  exact hbelow (cs.length + 1) (Nat.lt_succ_self _) hready hreadable b

/-! ## Characters -/

section

variable (lowering : Lowering)

theorem lower_toLower (c : Char) : lowering.lower c.toLower = lowering.lower c := by
  by_cases hc : c.toNat < 128
  · have hlower : c.toLower.toNat < 128 :=
      Sql.forall_ascii (P := fun c => c.toLower.toNat < 128) (by decide +kernel) hc
    rw [lowering.ascii _ hlower, lowering.ascii c hc, Sql.toLower_toLower]
  · rw [Sql.toLower_of_not_ascii (not_lt.mp hc)]

theorem isSpace_toLower (c : Char) : Strings.isSpace c.toLower = Strings.isSpace c := by
  by_cases hc : c.toNat < 128
  · exact Sql.forall_ascii (P := fun c => Strings.isSpace c.toLower = Strings.isSpace c)
      (by decide +kernel) hc
  · rw [Sql.toLower_of_not_ascii (not_lt.mp hc)]

theorem isSpace_lower (c : Char) : Strings.isSpace (lowering.lower c) = Strings.isSpace c := by
  by_cases hc : c.toNat < 128
  · rw [lowering.ascii c hc, isSpace_toLower]
  · exact lowering.space c (not_lt.mp hc)

/-- The two notions of white space between words agree, whatever the case. -/
theorem isBlank_lower (c : Char) : isBlank (lowering.lower c) = Sql.isBlank c := by
  by_cases hc : c.toNat < 128
  · rw [lowering.ascii c hc]
    exact Sql.forall_ascii (P := fun c => isBlank c.toLower = Sql.isBlank c) (by decide +kernel) hc
  · have hblank : ∀ d : Char, 128 ≤ d.toNat → isBlank d = false ∧ Sql.isBlank d = false := by
      intro d hd
      have hne : ∀ e : Char, e.toNat < 128 → d ≠ e := by
        rintro e he rfl
        omega
      constructor <;> simp (disch := decide) [isBlank, Sql.isBlank, hne]
    rw [(hblank c (not_lt.mp hc)).2]
    rcases lowering.other c (not_lt.mp hc) with h | h | h
    · exact (hblank _ h).1
    · rw [h]
      rfl
    · rw [h]
      rfl

/-! ## Rendering -/

def renderToken : Token → List Char
  | .space => [' ']
  | .word w => w.map lowering.lower
  | .symbol c => [lowering.lower c]
  | .quoted c => [lowering.lower c]

/-- The text of tokens as the lint normalizes it. -/
def render (ts : List Token) : List Char := ts.flatMap (renderToken lowering)

/-- A statement without quoted text and block comments, with ordinary white space only. -/
def plain (ms : List Mark) : Bool :=
  ms.all fun m => m.kind = .comment ||
    (m.kind = .code && (!Strings.isSpace m.char || Sql.isBlank m.char))

variable {lowering}

theorem render_append (ts ts' : List Token) :
    render lowering (ts ++ ts') = render lowering ts ++ render lowering ts' := List.flatMap_append

theorem render_cons (t : Token) (ts : List Token) :
    render lowering (t :: ts) = renderToken lowering t ++ render lowering ts := List.flatMap_cons

theorem render_consSpace (ts : List Token) :
    render lowering (Sql.consSpace ts) =
      if ts.head? = some .space then render lowering ts else ' ' :: render lowering ts := by
  unfold Sql.consSpace
  split
  · rfl
  · rename_i hne
    rw [if_neg]
    · rfl
    · intro h
      obtain ⟨rest, rfl⟩ := List.head?_eq_some_iff.mp h
      exact hne rest rfl

theorem render_consWord (c : Char) (ts : List Token) :
    render lowering (Sql.consWord c ts) = lowering.lower c :: render lowering ts := by
  unfold Sql.consWord
  split <;> rfl

variable {ms : List Mark}

theorem plain_cons (h : plain (m :: ms) = true) :
    (m.kind = .comment ∨
      m.kind = .code ∧ (Strings.isSpace m.char = true → Sql.isBlank m.char = true)) ∧
      plain ms = true := by
  rw [plain, List.all_cons, Bool.and_eq_true] at h
  refine ⟨?_, h.2⟩
  have hm := h.1
  simp only [Bool.or_eq_true, Bool.and_eq_true, decide_eq_true_eq, Bool.not_eq_true'] at hm
  refine hm.imp id fun hcode => ⟨hcode.1, fun hspace => ?_⟩
  exact hcode.2.resolve_left (by simp [hspace])

variable (lowering) in
/-- The first token is white space exactly when the first character is. -/
theorem head?_lex (h : plain ms = true) :
    (Sql.lex ms).head? = some .space ↔
      ((visible ms).map lowering.lower).head?.any isBlank = true := by
  induction ms with
  | nil => simp [Sql.lex, visible]
  | cons m ms ih =>
    obtain ⟨hkind, hplain⟩ := plain_cons h
    obtain ⟨kind, c⟩ := m
    rcases hkind with hkind | ⟨hkind, -⟩
    · obtain rfl : kind = .comment := hkind
      exact ih hplain
    · obtain rfl : kind = .code := hkind
      have hvisible : (visible (⟨.code, c⟩ :: ms)).map lowering.lower =
          lowering.lower c :: (visible ms).map lowering.lower := rfl
      rw [hvisible, List.head?_cons, Option.any_some, isBlank_lower]
      rw [Sql.lex_code]
      split_ifs with hblank hword
      · refine iff_of_true ?_ hblank
        unfold Sql.consSpace
        split <;> rfl
      · refine iff_of_false ?_ (by simp [hblank])
        unfold Sql.consWord
        split <;> simp
      · exact iff_of_false (by simp) (by simp [hblank])

/-- Collapsing white space renders the tokens. -/
theorem collapse_visible (h : plain ms = true) :
    collapse ((visible ms).map lowering.lower) = render lowering (Sql.lex ms) := by
  induction ms with
  | nil => rfl
  | cons m ms ih =>
    obtain ⟨hkind, hplain⟩ := plain_cons h
    obtain ⟨kind, c⟩ := m
    rcases hkind with hkind | ⟨hkind, -⟩
    · obtain rfl : kind = .comment := hkind
      exact ih hplain
    · obtain rfl : kind = .code := hkind
      have hvisible : (visible (⟨.code, c⟩ :: ms)).map lowering.lower =
          lowering.lower c :: (visible ms).map lowering.lower := rfl
      have hhead := head?_lex lowering hplain
      rw [hvisible, collapse, isBlank_lower, ih hplain]
      rw [Sql.lex_code]
      split_ifs with hblank hnext hword
      · rw [render_consSpace, if_pos (hhead.mpr hnext)]
      · rw [render_consSpace, if_neg fun hspace => hnext (hhead.mp hspace)]
      · rw [render_consWord, lower_toLower]
      · rfl

/-- A token that renders without white space. -/
def Solid : Token → Prop
  | .space => True
  | .word w => ∀ c ∈ w, Strings.isSpace c = false
  | .symbol c => Strings.isSpace c = false
  | .quoted _ => False

theorem solid_lex (h : plain ms = true) : ∀ t ∈ Sql.lex ms, Solid t := by
  induction ms with
  | nil => simp [Sql.lex]
  | cons m ms ih =>
    obtain ⟨hkind, hplain⟩ := plain_cons h
    obtain ⟨kind, c⟩ := m
    rcases hkind with hkind | ⟨hkind, hspace⟩
    · obtain rfl : kind = .comment := hkind
      exact ih hplain
    · obtain rfl : kind = .code := hkind
      have hmem := ih hplain
      rw [Sql.lex_code]
      split_ifs with hblank hword
      · unfold Sql.consSpace
        split
        · rename_i heq
          rwa [heq] at hmem
        · exact List.forall_mem_cons.mpr ⟨trivial, hmem⟩
      · have hc : Strings.isSpace c.toLower = false := by
          rw [isSpace_toLower, ← Bool.not_eq_true]
          exact fun h => hblank (hspace h)
        unfold Sql.consWord
        split
        · rename_i w ts heq
          rw [heq] at hmem
          obtain ⟨hw, hts⟩ := List.forall_mem_cons.mp hmem
          exact List.forall_mem_cons.mpr ⟨List.forall_mem_cons.mpr ⟨hc, hw⟩, hts⟩
        · exact List.forall_mem_cons.mpr ⟨List.forall_mem_singleton.mpr hc, hmem⟩
      · refine List.forall_mem_cons.mpr ⟨?_, hmem⟩
        rw [Solid, ← Bool.not_eq_true]
        exact fun h => hblank (hspace h)

/-- The text of a token other than white space has no white space. -/
theorem isSpace_of_mem_renderToken (hsolid : Solid t) (hne : t ≠ .space) {c : Char}
    (hc : c ∈ renderToken lowering t) : Strings.isSpace c = false := by
  cases t with
  | space => exact absurd rfl hne
  | word w =>
    obtain ⟨d, hd, rfl⟩ := List.mem_map.mp hc
    rw [isSpace_lower]
    exact hsolid d hd
  | symbol d =>
    obtain rfl := List.mem_singleton.mp hc
    rw [isSpace_lower]
    exact hsolid
  | quoted d => exact hsolid.elim

theorem renderToken_ne_nil (h : t.Wf) : renderToken lowering t ≠ [] := by
  cases t with
  | word w => exact fun hnil => h.1 (List.map_eq_nil_iff.mp hnil)
  | space | symbol c | quoted c => simp [renderToken]

theorem dropWhile_render (hwf : ∀ t ∈ ts, t.Wf) (hsolid : ∀ t ∈ ts, Solid t) :
    (render lowering ts).dropWhile Strings.isSpace =
      render lowering (ts.dropWhile (· = .space)) := by
  induction ts with
  | nil => rfl
  | cons t ts ih =>
    obtain ⟨ht, hwf'⟩ := List.forall_mem_cons.mp hwf
    obtain ⟨ht', hsolid'⟩ := List.forall_mem_cons.mp hsolid
    by_cases hspace : t = .space
    · subst hspace
      exact ih hwf' hsolid'
    · have hne : renderToken lowering t ≠ [] := renderToken_ne_nil ht
      obtain ⟨c, cs, hcs⟩ := List.exists_cons_of_ne_nil hne
      have hmem : c ∈ renderToken lowering t := hcs ▸ List.mem_cons_self
      have hc := isSpace_of_mem_renderToken ht' hspace hmem
      rw [List.dropWhile_cons_of_neg (by simp [hspace]), render_cons, hcs, List.cons_append,
        List.dropWhile_cons_of_neg (by simp [hc])]

theorem rdropWhile_render (hwf : ∀ t ∈ ts, t.Wf) (hsolid : ∀ t ∈ ts, Solid t) :
    (render lowering ts).rdropWhile Strings.isSpace =
      render lowering (ts.rdropWhile (· = .space)) := by
  induction ts using List.reverseRecOn with
  | nil => rfl
  | append_singleton ts t ih =>
    have hwf' : ∀ t ∈ ts, t.Wf := fun t ht => hwf t (List.mem_append_left _ ht)
    have hsolid' : ∀ t ∈ ts, Solid t := fun t ht => hsolid t (List.mem_append_left _ ht)
    have hlast : t ∈ ts ++ [t] := List.mem_append_right _ (List.mem_singleton_self t)
    by_cases hspace : t = .space
    · subst hspace
      have hrender : render lowering (ts ++ [.space]) = render lowering ts ++ [' '] :=
        render_append ts _
      rw [hrender, List.rdropWhile_concat_pos _ _ _ (by decide),
        List.rdropWhile_concat_pos _ _ _ (by simp)]
      exact ih hwf' hsolid'
    · obtain ⟨cs, c, hcs⟩ :=
        List.eq_nil_or_concat' (renderToken lowering t) |>.resolve_left
          (renderToken_ne_nil (hwf t hlast))
      have hmem : c ∈ renderToken lowering t := by simp [hcs]
      have hc := isSpace_of_mem_renderToken (hsolid t hlast) hspace hmem
      have hrender : render lowering (ts ++ [t]) = render lowering ts ++ cs ++ [c] := by
        rw [render_append, render_cons, hcs, List.append_assoc]
        simp [render]
      rw [List.rdropWhile_concat_neg _ _ _ (by simp [hspace]), hrender,
        List.rdropWhile_concat_neg _ _ _ (by simp [hc])]

/-- A plain statement is normalized to the text of its tokens. -/
theorem normalize_visible (h : plain ms = true) :
    normalize lowering (visible ms) = render lowering (Sql.tokens ms) := by
  have hwf := (Sql.lexed_lex ms).wf
  have hsolid := solid_lex h
  have hdrop : ∀ t ∈ (Sql.lex ms).dropWhile (· = .space), t ∈ Sql.lex ms := fun t ht =>
    (List.dropWhile_suffix _).subset ht
  rw [normalize, collapse_visible h, trimSpace, dropWhile_render hwf hsolid,
    rdropWhile_render (fun t ht => hwf t (hdrop t ht)) fun t ht => hsolid t (hdrop t ht)]
  rfl

end

/-! ## The statements of a file -/

theorem mem_statements {lowering : Lowering} {piece : List Char}
    (h : piece ∈ pieces false [] (stripComments false sql)) (hne : normalize lowering piece ≠ []) :
    normalize lowering piece ∈ statements lowering sql := by
  have hfold : ∀ (l : List (List Char)) (out : List (List Char)),
      (∀ stmt ∈ out, stmt ∈ l.foldl (appendStatement lowering) out) ∧
      (piece ∈ l → normalize lowering piece ∈ l.foldl (appendStatement lowering) out) := by
    intro l
    induction l with
    | nil => exact fun out => ⟨fun _ h => h, by simp⟩
    | cons first l ih =>
      intro out
      have hkept : ∀ stmt ∈ out, stmt ∈ appendStatement lowering out first := by
        intro stmt hstmt
        unfold appendStatement
        dsimp only
        split
        · exact hstmt
        · exact List.mem_append_left _ hstmt
      refine ⟨fun stmt hstmt => (ih _).1 stmt (hkept stmt hstmt), fun hmem => ?_⟩
      rcases List.mem_cons.mp hmem with rfl | hmem
      · refine (ih _).1 _ ?_
        unfold appendStatement
        dsimp only
        rw [if_neg hne]
        exact List.mem_append_right _ (List.mem_singleton_self _)
      · exact (ih _).2 hmem
  exact (hfold _ []).2 h

/-- The lint sees every plain statement of a readable file, as the text of its tokens. -/
theorem render_mem_statements {lowering : Lowering}
    (hreadable : readable (marks (.code []) sql) = true) {ms : List Mark}
    (hms : ms ∈ Sql.statements sql) (hplain : plain ms = true) (hne : Sql.tokens ms ≠ []) :
    render lowering (Sql.tokens ms) ∈ statements lowering sql := by
  have hagree : Agree (.code []) [] sql := agree sql [] trivial hreadable
  have hpiece : visible ms ∈ pieces false [] (stripComments false sql) := by
    change visible ms ∈
      pieces (inDollar (.code [])) (visible []) (stripComments (inLine (.code [])) sql)
    rw [hagree]
    exact List.mem_map_of_mem hms
  rw [← normalize_visible hplain]
  refine mem_statements hpiece ?_
  rw [normalize_visible hplain]
  obtain ⟨t, ts, hts⟩ := List.exists_cons_of_ne_nil hne
  have hwf : t.Wf := (Sql.lexed_tokens ms).wf t (hts ▸ List.mem_cons_self)
  rw [hts, render_cons]
  exact List.append_ne_nil_of_left_ne_nil (renderToken_ne_nil hwf) _

end Argus.Migrations

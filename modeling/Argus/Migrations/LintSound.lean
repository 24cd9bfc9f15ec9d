import Argus.Migrations.LintReading

/-!
# What the lint finds

A statement that drops a column, or adds one that older builds do not fill, is found by its text:
the text of the statement begins with `alter table `, and the action stands in one of its parts
between commas. The words that the rules look for are then words of the action.
-/

namespace Argus.Migrations

open Sql (Alteration Lexed Mark Token key words)

/-! ## Tokens of words -/

/-- Words with white space between them. -/
def spaced : List (List Char) → List Token
  | [] => []
  | [w] => [.word w]
  | w :: ws => .word w :: .space :: spaced ws

variable {ifExists : Bool} {ws : List (List Char)} {column k p r w : List Char}
  {between front l rest ts : List Token} {t : Token}

theorem words_eq_nil (h : words ts = []) : ∀ t ∈ ts, t = .space := by
  intro t ht
  by_contra hne
  have hmem : t ∈ words ts := List.mem_filter.mpr ⟨ht, by simpa using hne⟩
  rw [h] at hmem
  cases hmem

/-- White space between two tokens is at most one token. -/
theorem Lexed.eq_nil_or_space (h : Lexed ts) (hwords : words ts = []) :
    ts = [] ∨ ts = [.space] := by
  have hspace := words_eq_nil hwords
  match ts, h, hspace with
  | [], _, _ => exact .inl rfl
  | [t], _, hspace => exact .inr (by rw [hspace t List.mem_cons_self])
  | t :: t' :: ts, h, hspace =>
    have hseparate := (List.isChain_cons_cons.mp h.separate).1
    rw [hspace t List.mem_cons_self, hspace t' (by simp)] at hseparate
    exact hseparate.elim

theorem exists_cons_of_words {t : Token} {l : List Token} (hfirst : ts.head? ≠ some .space)
    (h : words ts = t :: l) : ∃ ts', ts = t :: ts' ∧ words ts' = l := by
  cases ts with
  | nil => cases h
  | cons t ts =>
    have ht : t ≠ .space := fun ht => hfirst (by rw [ht]; rfl)
    rw [words, List.filter_cons_of_pos (by simpa using ht)] at h
    obtain ⟨rfl, hrest⟩ := List.cons.inj h
    exact ⟨ts, rfl, hrest⟩

/-- The words at the beginning of tokens have white space between them. -/
theorem exists_spaced (h : Lexed ts) (hfirst : ts.head? ≠ some .space)
    (hwords : words ts = (w :: ws).map .word ++ rest) :
    ∃ ts', ts = spaced (w :: ws) ++ ts' ∧ words ts' = rest := by
  induction ws generalizing w ts with
  | nil =>
    obtain ⟨ts, rfl, hrest⟩ := exists_cons_of_words hfirst hwords
    exact ⟨ts, rfl, hrest⟩
  | cons w' ws ih =>
    obtain ⟨ts, rfl, hrest⟩ := exists_cons_of_words hfirst hwords
    cases ts with
    | nil => cases hrest
    | cons t' ts =>
      have hseparate := List.isChain_cons_cons.mp h.separate
      by_cases ht' : t' = .space
      · subst ht'
        have hlexed : Lexed ts := h.of_part ⟨[.word w, .space], [], by simp⟩
        have hnext : ts.head? ≠ some .space := by
          intro hspace
          obtain ⟨rest', rfl⟩ := List.head?_eq_some_iff.mp hspace
          exact (List.isChain_cons_cons.mp hseparate.2).1
        obtain ⟨ts', rfl, hts'⟩ := ih hlexed hnext hrest
        exact ⟨ts', rfl, hts'⟩
      · rw [words, List.filter_cons_of_pos (by simpa using ht')] at hrest
        obtain ⟨rfl, -⟩ := List.cons.inj hrest
        exact hseparate.1.elim

theorem exists_spaced_concat (ws : List (List Char)) (w : List Char) :
    ∃ front, spaced (ws ++ [w]) = front ++ [.word w] := by
  induction ws with
  | nil => exact ⟨[], rfl⟩
  | cons v ws ih =>
    obtain ⟨front, hfront⟩ := ih
    obtain ⟨v', vs, hvs⟩ := List.exists_cons_of_ne_nil (List.append_ne_nil_of_right_ne_nil ws
      (List.cons_ne_nil w []))
    refine ⟨.word v :: .space :: front, ?_⟩
    rw [List.cons_append, List.cons_append, List.cons_append, ← hfront, hvs]
    rfl

theorem words_append_eq {l' : List Token} (h : words ts = l ++ l') :
    ∃ ts₁ ts₂, ts = ts₁ ++ ts₂ ∧ words ts₁ = l ∧ words ts₂ = l' := List.filter_eq_append_iff.mp h

theorem words_cons_eq (h : words ts = t :: l) :
    ∃ ts₁ ts₂, ts = ts₁ ++ t :: ts₂ ∧ words ts₁ = [] ∧ words ts₂ = l := by
  obtain ⟨ts₁, ts₂, rfl, hspace, -, hrest⟩ := List.filter_eq_cons_iff.mp h
  exact ⟨ts₁, ts₂, rfl, List.filter_eq_nil_iff.mpr hspace, hrest⟩

theorem head?_tokens_ne (ms : List Mark) : (Sql.tokens ms).head? ≠ some .space := by
  intro hspace
  obtain ⟨rest, hrest⟩ := List.head?_eq_some_iff.mp hspace
  obtain ⟨tail, htail⟩ := List.rdropWhile_prefix (fun t => decide (t = Token.space))
    ((Sql.lex ms).dropWhile (· = .space))
  have hdrop : ((Sql.lex ms).dropWhile (· = .space)).head? = some .space := by
    rw [← htail]
    change (Sql.tokens ms ++ tail).head? = _
    rw [hrest]
    rfl
  have hnot := List.head?_dropWhile_not (fun t => decide (t = Token.space)) (Sql.lex ms)
  rw [hdrop] at hnot
  simp at hnot

/-! ## Texts of words -/

/-- Words with a blank before each of them. -/
def pad (ws : List (List Char)) : List Char := ws.flatMap fun w => ' ' :: w

section

variable {lowering : Lowering}

theorem render_spaced (w : List Char) (ws : List (List Char)) :
    render lowering (spaced (w :: ws)) =
      w.map lowering.lower ++ pad (ws.map fun w => w.map lowering.lower) := by
  induction ws generalizing w with
  | nil => simp [spaced, render, renderToken, pad]
  | cons w' ws ih =>
    have hrender : render lowering (spaced (w :: w' :: ws)) =
        w.map lowering.lower ++ ' ' :: render lowering (spaced (w' :: ws)) := rfl
    rw [hrender, ih]
    rfl

/-- A key word is its own lower case. -/
theorem map_lower_of_lower (h : (w.all fun c => c.toNat < 128 && c.toLower == c) = true) :
    w.map lowering.lower = w := by
  refine (List.map_congr_left fun c hc => ?_).trans (List.map_id w)
  have hc := List.all_eq_true.mp h c hc
  rw [Bool.and_eq_true, decide_eq_true_eq, beq_iff_eq] at hc
  rw [lowering.ascii c hc.1, hc.2]
  rfl

/-- Without the letters i and k, only a key word has its lower case. -/
theorem eq_of_map_lower_eq (hw : ∀ c ∈ w, c.toLower = c)
    (hk : (k.all fun c => c.toNat < 128 && c != 'i' && c != 'k') = true)
    (h : w.map lowering.lower = k) : w = k := by
  subst h
  refine ((List.map_congr_left fun c hc => ?_).trans (List.map_id w)).symm
  have hlower := List.all_eq_true.mp hk (lowering.lower c) (List.mem_map_of_mem hc)
  simp only [Bool.and_eq_true, decide_eq_true_eq, bne_iff_ne] at hlower
  by_cases hascii : c.toNat < 128
  · rw [lowering.ascii c hascii, hw c hc]
    rfl
  · rcases lowering.other c (not_lt.mp hascii) with h | h | h
    · exact absurd h (not_le.mpr hlower.1.1)
    · exact absurd h hlower.1.2
    · exact absurd h hlower.2

end

/-- A text after a word that ends there. -/
def EndsWord (r : List Char) : Prop := r.head?.all (· = ' ') = true

theorem endsWord_pad (ws : List (List Char)) (hr : EndsWord r) : EndsWord (pad ws ++ r) := by
  cases ws with
  | nil => exact hr
  | cons w ws => rfl

/-- A text without a blank that a word begins with is the beginning of the word. -/
theorem isPrefixOf_word (hp : ' ' ∉ p) (hr : EndsWord r) (h : p.isPrefixOf (w ++ r) = true) :
    p.isPrefixOf w = true := by
  induction w generalizing p with
  | nil =>
    cases p with
    | nil => rfl
    | cons c p =>
      cases r with
      | nil => cases h
      | cons d r =>
        have hd : d = ' ' := by simpa [EndsWord] using hr
        rw [List.nil_append, List.isPrefixOf_cons_cons, Bool.and_eq_true, beq_iff_eq] at h
        exact absurd (by rw [h.1, hd]; exact List.mem_cons_self) hp
  | cons d w ih =>
    cases p with
    | nil => rfl
    | cons c p =>
      rw [List.cons_append, List.isPrefixOf_cons_cons, Bool.and_eq_true] at h
      rw [List.isPrefixOf_cons_cons, Bool.and_eq_true]
      exact ⟨h.1, ih (fun hmem => hp (List.mem_cons_of_mem _ hmem)) h.2⟩

/-- A text with one blank that a word begins with is the whole word before the blank. -/
theorem eq_of_isPrefixOf_blank (hk : ' ' ∉ k) (hw : ' ' ∉ w)
    (h : (k ++ ' ' :: p).isPrefixOf (w ++ r) = true) (hr : EndsWord r) : w = k := by
  induction w generalizing k with
  | nil =>
    cases k with
    | nil => rfl
    | cons c k =>
      cases r with
      | nil => cases h
      | cons d r =>
        have hd : d = ' ' := by simpa [EndsWord] using hr
        rw [List.nil_append, List.cons_append, List.isPrefixOf_cons_cons, Bool.and_eq_true,
          beq_iff_eq] at h
        exact absurd (by rw [h.1, hd]; exact List.mem_cons_self) hk
  | cons d w ih =>
    cases k with
    | nil =>
      rw [List.nil_append, List.cons_append, List.isPrefixOf_cons_cons, Bool.and_eq_true,
        beq_iff_eq] at h
      exact absurd (by rw [h.1]; exact List.mem_cons_self) hw
    | cons c k =>
      rw [List.cons_append, List.cons_append, List.isPrefixOf_cons_cons, Bool.and_eq_true,
        beq_iff_eq] at h
      rw [h.1, ih (fun hmem => hk (List.mem_cons_of_mem _ hmem))
        (fun hmem => hw (List.mem_cons_of_mem _ hmem)) h.2]

/-! ## Parts -/

/-- A text without a comma between commas is a part. -/
theorem mem_splitOn {front x rest : List Char} (hx : ',' ∉ x)
    (hfront : front = [] ∨ ∃ f, front = f ++ [','])
    (hrest : rest = [] ∨ ∃ r, rest = ',' :: r) : x ∈ (front ++ (x ++ rest)).splitOn ',' := by
  have hfirst : x ∈ (x ++ rest).splitOn ',' := by
    have hself : x.splitOn ',' = [x] := List.splitOnP_eq_singleton fun c hc => by
      rw [beq_eq_false_iff_ne]
      rintro rfl
      exact hx hc
    rcases hrest with rfl | ⟨r, rfl⟩
    · rw [List.append_nil, hself]
      exact List.mem_singleton_self x
    · rw [List.splitOn, List.splitOnP_append_cons x r (by simp)]
      exact List.mem_append_left _ (by rw [← List.splitOn, hself]; exact List.mem_singleton_self x)
  rcases hfront with rfl | ⟨f, rfl⟩
  · exact hfirst
  · rw [List.append_assoc, List.singleton_append, List.splitOn,
      List.splitOnP_append_cons f _ (by simp)]
    exact List.mem_append_right _ hfirst

/-! ## The place of an action -/

/-- The words of `ALTER TABLE [IF EXISTS] [ONLY]` after the first one. -/
def headerWords (ifExists only : Bool) : List (List Char) :=
  ["table".toList] ++ (if ifExists then ["if".toList, "exists".toList] else []) ++
    (if only then ["only".toList] else [])

theorem header_eq (ifExists only : Bool) (table : List Char) :
    Sql.header ifExists only table =
      ("alter".toList :: (headerWords ifExists only ++ [table])).map .word := by
  cases ifExists <;> cases only <;> rfl

/-- What stands between the last comma before an action, or the beginning of its statement, and the
action. -/
inductive Lead : List Token → List Token → Prop where
  | header (ifExists only : Bool) {table : List Char} (h : Sql.IsIdentifier table) :
      Lead [] (spaced ("alter".toList :: (headerWords ifExists only ++ [table])) ++ [.space])
  | comma (front : List Token) {between : List Token} (h : between = [] ∨ between = [.space]) :
      Lead (front ++ [.symbol ',']) between

section

variable {statement : List Token} (hlexed : Lexed statement)
  (hfirst : statement.head? ≠ some .space) {a : Alteration} (ha : a.In statement)

include hlexed hfirst ha

theorem exists_lead (hne : ws ≠ []) (haction : a.action = spaced (w :: ws) ++ rest) :
    ∃ front between, a.before = front ++ between ∧ Lead front between := by
  obtain ⟨w', ws, rfl⟩ := List.exists_cons_of_ne_nil hne
  obtain ⟨rest, hword⟩ : ∃ rest, a.action = .word w :: rest := ⟨_, haction⟩
  have hbefore : Lexed a.before := hlexed.of_part ⟨[], a.action ++ a.after, by rw [ha.eq]; simp⟩
  obtain ⟨ifExists, only, table, htable, hopening⟩ := ha.opening
  rcases hopening with hopening | ⟨earlier, hopening, -⟩
  · have hne : a.before.head? ≠ some .space := by
      intro hspace
      obtain ⟨tail, htail⟩ := List.head?_eq_some_iff.mp hspace
      exact hfirst (by rw [ha.eq, htail]; rfl)
    rw [header_eq, ← List.append_nil (List.map _ _)] at hopening
    obtain ⟨between, heq, hbetween⟩ := exists_spaced hbefore hne hopening
    have hspaces : Lexed between := hbefore.of_part
      ⟨spaced ("alter".toList :: (headerWords ifExists only ++ [table])), [],
        by rw [heq, List.append_nil]⟩
    refine ⟨[], a.before, rfl, ?_⟩
    rcases Lexed.eq_nil_or_space hspaces hbetween with rfl | rfl
    · -- the name of the table and the action would be one word
      obtain ⟨front, hfront⟩ :=
        exists_spaced_concat ("alter".toList :: headerWords ifExists only) table
      rw [List.cons_append] at hfront
      have hpair : Lexed [.word table, .word w] :=
        hlexed.of_part ⟨front, rest ++ a.after, by rw [ha.eq, heq, hfront, hword]; simp⟩
      exact (List.isChain_cons_cons.mp hpair.separate).1.elim
    · rw [heq]
      exact .header ifExists only htable
  · obtain ⟨front, last, heq, -, hlast⟩ := words_append_eq hopening
    obtain ⟨spaces, between, rfl, hspaces, hbetween⟩ := words_cons_eq hlast
    have hsplit : a.before = front ++ spaces ++ [.symbol ','] ++ between := by
      rw [heq]
      simp
    have hlexed : Lexed between := hbefore.of_part
      ⟨front ++ spaces ++ [.symbol ','], [], by rw [hsplit, List.append_nil]⟩
    exact ⟨_, between, hsplit, .comma _ (Lexed.eq_nil_or_space hlexed hbetween)⟩

/-- A statement with an action begins with the words `alter table`. -/
theorem isPrefixOf_render (lowering : Lowering) :
    "alter table ".toList.isPrefixOf (render lowering statement) = true := by
  obtain ⟨ifExists, only, table, -, hopening⟩ := ha.opening
  obtain ⟨third, rest, hheader⟩ : ∃ third rest, Sql.header ifExists only table =
      ["alter".toList, "table".toList, third].map .word ++ rest := by
    cases ifExists <;> cases only <;> exact ⟨_, _, rfl⟩
  obtain ⟨rest', hwords⟩ : ∃ rest', words statement =
      ["alter".toList, "table".toList, third].map .word ++ rest' := by
    rw [ha.eq, Sql.words_append]
    rcases hopening with hopening | ⟨earlier, hopening, -⟩
    · rw [hopening, hheader, List.append_assoc]
      exact ⟨_, rfl⟩
    · rw [hopening, hheader, List.append_assoc, List.append_assoc, List.append_assoc]
      exact ⟨_, rfl⟩
  obtain ⟨tail, heq, -⟩ := exists_spaced hlexed hfirst hwords
  have hlower : ∀ s : String, (s.toList.all fun c => c.toNat < 128 && c.toLower == c) = true →
      s.toList.map lowering.lower = s.toList := fun s => map_lower_of_lower
  rw [heq, render_append, render_spaced, List.map_cons, hlower "alter" (by decide),
    hlower "table" (by decide)]
  rfl

end

/-- The tokens after an action go on with a comma. -/
theorem exists_closing {after : List Token} (h : words after = [] ∨
    (words after).head? = some (.symbol ',')) :
    ∃ spaces rest, after = spaces ++ rest ∧ words spaces = [] ∧
      (rest = [] ∨ ∃ more, rest = .symbol ',' :: more) := by
  rcases h with h | h
  · exact ⟨after, [], by simp, h, .inl rfl⟩
  · obtain ⟨tail, htail⟩ := List.head?_eq_some_iff.mp h
    obtain ⟨spaces, more, rfl, hspaces, -⟩ := words_cons_eq htail
    exact ⟨spaces, _, rfl, hspaces, .inr ⟨more, rfl⟩⟩

section

variable {lowering : Lowering}

theorem lower_comma : lowering.lower ',' = ',' := lowering.ascii ',' (by decide)

/-- A comma of the text is a symbol. -/
theorem comma_not_mem_render (hwf : ∀ t ∈ ts, t.Wf) (hsolid : ∀ t ∈ ts, Solid t)
    (h : .symbol ',' ∉ ts) : ',' ∉ render lowering ts := by
  have hlower : ∀ c, lowering.lower c = ',' → c = ',' := by
    intro c hc
    by_cases hascii : c.toNat < 128
    · rw [lowering.ascii c hascii] at hc
      exact Sql.forall_ascii (P := fun c => c.toLower = ',' → c = ',') (by decide +kernel) hascii hc
    · rcases lowering.other c (not_lt.mp hascii) with h | h | h
      · rw [hc] at h
        exact absurd h (by decide)
      · rw [hc] at h
        cases h
      · rw [hc] at h
        cases h
  intro hmem
  obtain ⟨t, ht, hc⟩ := List.mem_flatMap.mp hmem
  cases t with
  | space => simp [renderToken] at hc
  | word w =>
    obtain ⟨c, hcw, hcomma⟩ := List.mem_map.mp hc
    have hword := ((hwf _ ht).2 c hcw).1
    rw [hlower c hcomma] at hword
    cases hword
  | symbol c =>
    obtain rfl := hlower c (List.mem_singleton.mp hc).symm
    exact h ht
  | quoted c => exact (hsolid _ ht).elim

theorem blank_not_mem_word (h : Solid (.word w)) : ' ' ∉ w.map lowering.lower := by
  intro hmem
  have hmem' : ' ' ∈ renderToken lowering (.word w) := hmem
  have hspace := isSpace_of_mem_renderToken h (by simp) hmem'
  cases hspace

end

/-! ## Dropped columns -/

/-- A word without a blank begins no occurrence. -/
theorem afterFirst_word (hw : ' ' ∉ w) :
    afterFirst (' ' :: p) (w ++ r) = afterFirst (' ' :: p) r := by
  induction w with
  | nil => rfl
  | cons c w ih =>
    have hc : c ≠ ' ' := fun h => hw (h ▸ List.mem_cons_self)
    rw [List.cons_append, afterFirst, if_neg, ih fun hmem => hw (List.mem_cons_of_mem _ hmem)]
    rw [List.isPrefixOf_cons_cons, Bool.and_eq_true, beq_iff_eq]
    exact fun h => hc h.1.symm

private theorem drop_eq : " drop ".toList = ' ' :: ("drop".toList ++ [' ']) := rfl

/-- Other words are passed. -/
theorem afterFirst_pad (hblank : ∀ w ∈ ws, ' ' ∉ w) (hdrop : "drop".toList ∉ ws) (hr : EndsWord r) :
    afterFirst " drop ".toList (pad ws ++ r) = afterFirst " drop ".toList r := by
  induction ws with
  | nil => rfl
  | cons w ws ih =>
    obtain ⟨hw, hblank⟩ := List.forall_mem_cons.mp hblank
    have hne : w ≠ "drop".toList := fun h => hdrop (h ▸ List.mem_cons_self)
    have hpad : pad (w :: ws) ++ r = ' ' :: (w ++ (pad ws ++ r)) := by simp [pad]
    rw [drop_eq] at ih ⊢
    rw [hpad, afterFirst, if_neg, afterFirst_word hw,
      ih hblank fun h => hdrop (List.mem_cons_of_mem _ h)]
    rw [List.isPrefixOf_cons_cons, Bool.and_eq_true]
    exact fun h => hne (eq_of_isPrefixOf_blank (by decide) hw h.2 (endsWord_pad ws hr))

theorem afterFirst_drop (w : List Char) (ws : List (List Char)) (r : List Char) :
    afterFirst " drop ".toList (pad ("drop".toList :: w :: ws) ++ r) =
      some (w ++ (pad ws ++ r)) := by
  have hpad : pad ("drop".toList :: w :: ws) ++ r = " drop ".toList ++ (w ++ (pad ws ++ r)) := by
    simp [pad]
  rw [hpad]
  generalize w ++ (pad ws ++ r) = rest
  rfl

/-- The words after `drop` in an action that drops a column. -/
def dropWords (keyword ifExists : Bool) (column : List Char) (behaviour : List (List Char)) :
    List (List Char) :=
  (if keyword then ["column".toList] else []) ++
    (if ifExists then ["if".toList, "exists".toList] else []) ++ column :: behaviour

theorem dropWords_ne_nil (keyword ifExists : Bool) (column : List Char)
    (behaviour : List (List Char)) : dropWords keyword ifExists column behaviour ≠ [] :=
  List.append_ne_nil_of_right_ne_nil _ (List.cons_ne_nil column behaviour)

/-- A column name that is not the beginning of a relaxation. -/
structure Droppable (name : List Char) : Prop where
  blank : ' ' ∉ name
  column : name ≠ "column".toList
  constraint : name ≠ "constraint".toList
  not : name ≠ "not".toList
  default : "default".toList.isPrefixOf name = false
  identity : "identity".toList.isPrefixOf name = false
  expression : "expression".toList.isPrefixOf name = false

theorem isRelaxation_column (h : Droppable column) (hr : EndsWord r) :
    isRelaxation (column ++ r) = false := by
  have hconstraint : "constraint ".toList.isPrefixOf (column ++ r) = false := by
    rw [← Bool.not_eq_true]
    exact fun hp => h.constraint (eq_of_isPrefixOf_blank (k := "constraint".toList) (p := [])
      (by decide) h.blank hp hr)
  have hnot : "not null".toList.isPrefixOf (column ++ r) = false := by
    rw [← Bool.not_eq_true]
    exact fun hp => h.not (eq_of_isPrefixOf_blank (k := "not".toList) (p := "null".toList)
      (by decide) h.blank hp hr)
  have hword : ∀ p : List Char, ' ' ∉ p → p.isPrefixOf column = false →
      p.isPrefixOf (column ++ r) = false := by
    intro p hp hfalse
    rw [← Bool.not_eq_true] at hfalse ⊢
    exact fun h => hfalse (isPrefixOf_word hp hr h)
  rw [isRelaxation, hconstraint, hnot, hword _ (by decide) h.default,
    hword _ (by decide) h.identity, hword _ (by decide) h.expression]
  rfl

/-- What follows ` drop ` in an action that drops a column is no relaxation. -/
theorem isRelaxation_dropWords {keyword : Bool} {behaviour : List (List Char)}
    (hdroppable : ifExists = false → Droppable column) (hr : EndsWord r)
    (hwords : dropWords keyword ifExists column behaviour = w :: ws) :
    isRelaxation (trimPrefix "column ".toList (w ++ (pad ws ++ r))) = false := by
  have htrim : ∀ rest, trimPrefix "column ".toList ("column".toList ++ (' ' :: rest)) = rest :=
    fun _ => rfl
  have hif : ∀ rest, isRelaxation ("if".toList ++ rest) = false := fun _ => rfl
  have hifTrim : ∀ rest, trimPrefix "column ".toList ("if".toList ++ rest) = "if".toList ++ rest :=
    fun _ => rfl
  cases keyword <;> cases ifExists <;> obtain ⟨rfl, rfl⟩ := List.cons.inj hwords
  · have hends : EndsWord (pad behaviour ++ r) := endsWord_pad behaviour hr
    have hne : ¬ ("column ".toList.isPrefixOf (column ++ (pad behaviour ++ r)) = true) :=
      fun h => (hdroppable rfl).column (eq_of_isPrefixOf_blank (k := "column".toList) (p := [])
        (by decide) (hdroppable rfl).blank h hends)
    rw [trimPrefix, if_neg hne]
    exact isRelaxation_column (hdroppable rfl) hends
  · rw [hifTrim]
    exact hif _
  · have hpad : pad (column :: behaviour) ++ r = ' ' :: (column ++ (pad behaviour ++ r)) := by
      simp [pad]
    change isRelaxation (trimPrefix _ (_ ++ (pad (column :: behaviour) ++ r))) = false
    rw [hpad, htrim]
    exact isRelaxation_column (hdroppable rfl) (endsWord_pad behaviour hr)
  · have hpad : pad ("if".toList :: "exists".toList :: column :: behaviour) ++ r =
        ' ' :: ("if".toList ++ (pad ("exists".toList :: column :: behaviour) ++ r)) := by
      simp [pad]
    change isRelaxation (trimPrefix _ (_ ++ (pad ("if".toList :: "exists".toList :: column ::
      behaviour) ++ r))) = false
    rw [hpad, htrim]
    exact hif _

theorem dropsInPart_eq {first : List Char} {names : List (List Char)} (hfirst : ' ' ∉ first)
    (hnames : ∀ w ∈ names, ' ' ∉ w) (hdrop : "drop".toList ∉ names) :
    dropsInPart (first ++ (pad (names ++ "drop".toList :: w :: ws) ++ r)) =
      !isRelaxation (trimPrefix "column ".toList (w ++ (pad ws ++ r))) := by
  have hpad : pad (names ++ "drop".toList :: w :: ws) ++ r =
      pad names ++ (pad ("drop".toList :: w :: ws) ++ r) := by
    rw [pad, List.flatMap_append, List.append_assoc]
    rfl
  have hends : EndsWord (pad ("drop".toList :: w :: ws) ++ r) := rfl
  have hafter : afterFirst " drop ".toList
      (first ++ (pad names ++ (pad ("drop".toList :: w :: ws) ++ r))) =
      some (w ++ (pad ws ++ r)) := by
    rw [← afterFirst_drop, ← afterFirst_pad hnames hdrop hends]
    exact afterFirst_word hfirst
  rw [dropsInPart, hpad, hafter]

theorem pad_append_drop (ws vs : List (List Char)) (r : List Char) :
    pad (ws ++ "drop".toList :: vs) ++ r =
      pad ws ++ ([' '] ++ ("drop".toList ++ (pad vs ++ r))) := by
  simp [pad]

/-- The rule applies to a part that ends with an action that drops a column, also on a table called
`drop`. -/
theorem dropsInPart_of_words (first : List Char) (names : List (List Char))
    (table : Option (List Char)) (keyword : Bool) (behaviour : List (List Char))
    (hfirst : ' ' ∉ first) (hnames : ∀ w ∈ names, ' ' ∉ w) (htable : ∀ w ∈ table, ' ' ∉ w)
    (hdrop : "drop".toList ∉ names) (hdroppable : ifExists = false → Droppable column)
    (hr : EndsWord r) :
    dropsInPart (first ++ (pad (names ++ table.toList ++ "drop".toList ::
      dropWords keyword ifExists column behaviour) ++ r)) = true := by
  obtain ⟨w, ws, hwords⟩ : ∃ w ws, dropWords keyword ifExists column behaviour = w :: ws :=
    List.exists_cons_of_ne_nil (dropWords_ne_nil keyword ifExists column behaviour)
  rw [hwords]
  by_cases hname : "drop".toList ∈ table.toList
  · obtain rfl : table = some "drop".toList := Option.mem_toList.mp hname
    rw [Option.toList_some, List.append_assoc, List.singleton_append,
      dropsInPart_eq hfirst hnames hdrop]
    rfl
  · have hall : ∀ w ∈ names ++ table.toList, ' ' ∉ w := fun w hw => (List.mem_append.mp hw).elim
      (hnames w) fun hw => htable w (Option.mem_toList.mp hw)
    have hnot : "drop".toList ∉ names ++ table.toList := fun h =>
      (List.mem_append.mp h).elim hdrop hname
    rw [dropsInPart_eq hfirst hall hnot, isRelaxation_dropWords hdroppable hr hwords]
    rfl

/-! ## Statements that drop a column -/

theorem mem_spaced (h : t ∈ spaced ws) : t = .space ∨ ∃ w ∈ ws, t = .word w := by
  induction ws with
  | nil => cases h
  | cons w ws ih =>
    cases ws with
    | nil => exact .inr ⟨w, List.mem_cons_self, List.mem_singleton.mp h⟩
    | cons w' ws =>
      rcases List.mem_cons.mp h with rfl | h
      · exact .inr ⟨w, List.mem_cons_self, rfl⟩
      rcases List.mem_cons.mp h with rfl | h
      · exact .inl rfl
      exact (ih h).imp id fun ⟨v, hv, heq⟩ => ⟨v, List.mem_cons_of_mem _ hv, heq⟩

section

variable {lowering : Lowering}

theorem endsWord_render (h : words ts = []) (hr : EndsWord r) :
    EndsWord (render lowering ts ++ r) := by
  cases ts with
  | nil => exact hr
  | cons t ts =>
    rw [words_eq_nil h t List.mem_cons_self]
    rfl

theorem map_lower_headerWords (ifExists only : Bool) :
    (headerWords ifExists only).map (fun w => w.map lowering.lower) =
      headerWords ifExists only := by
  refine (List.map_congr_left fun w hw => ?_).trans (List.map_id _)
  have hall : ∀ w ∈ headerWords ifExists only,
      (w.all fun c => c.toNat < 128 && c.toLower == c) = true := by
    cases ifExists <;> cases only <;> decide
  exact map_lower_of_lower (hall w hw)

theorem map_lower_dropWords (keyword ifExists : Bool) (column : List Char)
    (behaviour : List (List Char)) :
    (dropWords keyword ifExists column behaviour).map (fun w => w.map lowering.lower) =
      dropWords keyword ifExists (column.map lowering.lower)
        (behaviour.map fun w => w.map lowering.lower) := by
  have hlower : ∀ s : String, (s.toList.all fun c => c.toNat < 128 && c.toLower == c) = true →
      s.toList.map lowering.lower = s.toList := fun s => map_lower_of_lower
  cases keyword <;> cases ifExists <;>
    simp only [dropWords, List.map_append, List.map_cons, if_true, if_false, List.map_nil,
      Bool.false_eq_true, hlower "column" (by decide), hlower "if" (by decide),
      hlower "exists" (by decide)]

theorem render_header (ifExists only : Bool) (table : List Char) :
    render lowering
        (spaced ("alter".toList :: (headerWords ifExists only ++ [table])) ++ [.space]) =
      "alter".toList ++ (pad (headerWords ifExists only ++
        (some (table.map lowering.lower)).toList) ++ [' ']) := by
  have halter : "alter".toList.map lowering.lower = "alter".toList :=
    map_lower_of_lower (by decide)
  rw [render_append, render_spaced, List.map_append, map_lower_headerWords, halter,
    List.append_assoc]
  rfl

theorem Lead.front_eq (h : Lead front between) : front = [] ∨ ∃ f, front = f ++ [.symbol ','] := by
  cases h with
  | header ifExists only htable => exact .inl rfl
  | comma front hbetween => exact .inr ⟨front, rfl⟩

theorem Lead.mem (h : Lead front between) (ht : t ∈ between) : t = .space ∨ ∃ w, t = .word w ∧
      (w = "alter".toList ∨ (∃ ifExists only, w ∈ headerWords ifExists only) ∨
        Sql.IsIdentifier w) := by
  cases h with
  | header ifExists only htable =>
    rcases List.mem_append.mp ht with ht | ht
    · refine (mem_spaced ht).imp id fun ⟨w, hw, heq⟩ => ⟨w, heq, ?_⟩
      rcases List.mem_cons.mp hw with rfl | hw
      · exact .inl rfl
      rcases List.mem_append.mp hw with hw | hw
      · exact .inr (.inl ⟨ifExists, only, hw⟩)
      · obtain rfl := List.mem_singleton.mp hw
        exact .inr (.inr htable)
    · exact .inl (List.mem_singleton.mp ht)
  | comma front hbetween =>
    rcases hbetween with rfl | rfl
    · cases ht
    · exact .inl (List.mem_singleton.mp ht)

variable {statement : List Token} (hlexed : Lexed statement) (hsolid : ∀ t ∈ statement, Solid t)

include hlexed hsolid

/-- The tokens between two commas are a part of the text. -/
theorem render_mem_splitOn {part : List Token} (hstatement : statement = front ++ (part ++ rest))
    (hfront : front = [] ∨ ∃ f, front = f ++ [.symbol ','])
    (hrest : rest = [] ∨ ∃ r, rest = .symbol ',' :: r) (hcomma : .symbol ',' ∉ part) :
    render lowering part ∈ (render lowering statement).splitOn ',' := by
  have hmem : ∀ t ∈ part, t ∈ statement := by
    intro t ht
    rw [hstatement]
    exact List.mem_append_right _ (List.mem_append_left _ ht)
  have hnot : ',' ∉ render lowering part := comma_not_mem_render
    (fun t ht => hlexed.wf t (hmem t ht)) (fun t ht => hsolid t (hmem t ht)) hcomma
  rw [hstatement, render_append, render_append]
  refine mem_splitOn hnot ?_ ?_
  · rcases hfront with rfl | ⟨f, rfl⟩
    · exact .inl rfl
    · refine .inr ⟨render lowering f, ?_⟩
      rw [render_append]
      simp [render, renderToken, lower_comma]
  · rcases hrest with rfl | ⟨more, rfl⟩
    · exact .inl rfl
    · refine .inr ⟨render lowering more, ?_⟩
      rw [render_cons, renderToken, lower_comma]
      rfl

variable (hfirst : statement.head? ≠ some .space) {a : Alteration} (ha : a.In statement)

include hfirst ha

/-- The rule for dropped columns applies to a statement that drops one. -/
theorem dropsColumn_render (hdrops : Sql.DropsColumn a.action ifExists column)
    (hspace : a.before.getLast? = some .space)
    (hname : ifExists = false → Droppable (column.map lowering.lower)) :
    dropsColumn (render lowering statement) = true := by
  obtain ⟨-, keyword, behaviour, -, hwords⟩ := hdrops
  have hactionLexed : Lexed a.action := hlexed.of_part ⟨a.before, a.after, by rw [ha.eq]; simp⟩
  have hwords' : words a.action = ("drop".toList ::
      dropWords keyword ifExists column (behaviour.map String.toList)).map .word ++ [] := by
    rw [hwords, List.append_nil]
    cases keyword <;> cases ifExists <;> simp [dropWords, Sql.optional, key, Function.comp_def]
  obtain ⟨tail, haction, htail⟩ := exists_spaced hactionLexed ha.first hwords'
  obtain ⟨spaces, rest, hafter, hspaces, hrest⟩ := exists_closing ha.closing
  obtain ⟨front, between, hbefore, hlead⟩ := exists_lead hlexed hfirst ha
    (dropWords_ne_nil keyword ifExists column (behaviour.map String.toList)) haction
  -- the part with the action
  have hstatement : statement = front ++ ((between ++ (a.action ++ spaces)) ++ rest) := by
    rw [ha.eq, hbefore, hafter]
    simp only [List.append_assoc]
  have hcomma : .symbol ',' ∉ between ++ (a.action ++ spaces) := by
    intro ht
    rw [haction, List.mem_append, List.mem_append, List.mem_append] at ht
    rcases ht with ht | (ht | ht) | ht
    · rcases hlead.mem ht with h | ⟨w, h, -⟩ <;> cases h
    · rcases mem_spaced ht with h | ⟨w, -, h⟩ <;> cases h
    · cases words_eq_nil htail _ ht
    · cases words_eq_nil hspaces _ ht
  rw [dropsColumn, isPrefixOf_render hlexed hfirst ha, Bool.true_and, List.any_eq_true]
  refine ⟨_, render_mem_splitOn hlexed hsolid hstatement hlead.front_eq hrest hcomma, ?_⟩
  have hr : EndsWord (render lowering tail ++ render lowering spaces) := by
    refine endsWord_render htail ?_
    rw [← List.append_nil (render lowering spaces)]
    exact endsWord_render hspaces rfl
  have hdrop : "drop".toList.map lowering.lower = "drop".toList := map_lower_of_lower (by decide)
  have htext : render lowering (a.action ++ spaces) = "drop".toList ++ (pad (dropWords keyword
      ifExists (column.map lowering.lower) ((behaviour.map String.toList).map fun w =>
        w.map lowering.lower)) ++ (render lowering tail ++ render lowering spaces)) := by
    rw [haction, render_append, render_append, render_spaced, map_lower_dropWords, hdrop]
    simp only [List.append_assoc]
  rw [render_append, htext]
  cases hlead with
  | @header ifExists' only table htable =>
    have htable : Solid (.word table) := by
      obtain ⟨f, hf⟩ := exists_spaced_concat ("alter".toList :: headerWords ifExists' only) table
      rw [List.cons_append] at hf
      refine hsolid _ ?_
      rw [hstatement, hf]
      simp
    have hgoal := dropsInPart_of_words "alter".toList (headerWords ifExists' only)
      (some (table.map lowering.lower)) keyword
      ((behaviour.map String.toList).map fun w => w.map lowering.lower) (by decide)
      (by cases ifExists' <;> cases only <;> decide)
      (by rintro w ⟨⟩; exact blank_not_mem_word htable)
      (by cases ifExists' <;> cases only <;> decide) hname hr
    rw [pad_append_drop] at hgoal
    rw [render_header]
    simpa only [List.append_assoc] using hgoal
  | comma front hbetween =>
    rcases hbetween with rfl | rfl
    · rw [hbefore, List.append_nil, List.getLast?_concat] at hspace
      cases hspace
    · exact dropsInPart_of_words [] [] none keyword _ (by simp) (by simp) (by simp) (by simp)
        hname hr

end

/-! ## Added columns -/

/-- The words between `add` and the name of the column. -/
def addWords (keyword ifNotExists : Bool) : List (List Char) :=
  (if keyword then ["column".toList] else []) ++
    (if ifNotExists then ["if".toList, "not".toList, "exists".toList] else [])

/-- The expression matches the beginning of an action that adds a column. -/
theorem consumes_addsColumn (keyword ifNotExists : Bool) (hne : column ≠ [])
    (hblank : ∀ c ∈ column, isBlank c = false) :
    ∃ r, addsColumn = .seq .boundary r ∧ r.Consumes ("add".toList ++
      (pad (addWords keyword ifNotExists ++ [column]) ++ [' '])) := by
  refine ⟨_, rfl, ?_⟩
  have hcolumn : nonBlanks.Consumes column := .plus hne fun c hc => by rw [hblank c hc]; rfl
  have hopt : ∀ (present : Bool) (s : String),
      (Regexp.opt (text s)).Consumes (if present then s.toList else []) := by
    intro present s
    cases present
    · exact .opt_nil _
    · exact .opt (.text _)
  have hall := Regexp.Consumes.seq (.text "add ".toList) (.seq (hopt keyword "column ")
    (.seq (hopt ifNotExists "if not exists ") (.seq hcolumn (.text " ".toList))))
  have htext : "add".toList ++ (pad (addWords keyword ifNotExists ++ [column]) ++ [' ']) =
      "add ".toList ++ ((if keyword then "column ".toList else []) ++
        ((if ifNotExists then "if not exists ".toList else []) ++ (column ++ " ".toList))) := by
    cases keyword <;> cases ifNotExists <;> simp [pad, addWords]
  rw [htext]
  exact hall

section

variable {lowering : Lowering}

/-- A blank of the text is white space between tokens. -/
theorem exists_space_of_render (hsolid : ∀ t ∈ ts, Solid t) {q : List Char}
    (h : render lowering ts = p ++ ' ' :: q) :
    ∃ ts₁ ts₂, ts = ts₁ ++ .space :: ts₂ ∧ render lowering ts₁ = p ∧ render lowering ts₂ = q := by
  induction ts generalizing p with
  | nil => simp [render] at h
  | cons t ts ih =>
    obtain ⟨ht, hrestSolid⟩ := List.forall_mem_cons.mp hsolid
    rw [render_cons] at h
    by_cases hspace : t = .space
    · subst hspace
      cases p with
      | nil => exact ⟨[], ts, rfl, rfl, (List.cons.inj h).2⟩
      | cons c p =>
        obtain ⟨hc, hrest⟩ := List.cons.inj h
        obtain ⟨ts₁, ts₂, rfl, h₁, h₂⟩ := ih hrestSolid hrest
        refine ⟨.space :: ts₁, ts₂, rfl, ?_, h₂⟩
        rw [render_cons, h₁, ← hc]
        rfl
    · have hnot : ' ' ∉ renderToken lowering t := fun hmem => by
        cases isSpace_of_mem_renderToken ht hspace hmem
      obtain ⟨p', rfl, hrest⟩ : ∃ p', p = renderToken lowering t ++ p' ∧
          render lowering ts = p' ++ ' ' :: q := by
        rcases List.append_eq_append_iff.mp h with ⟨p', hp, hrest⟩ | ⟨c, hc, hrest⟩
        · exact ⟨p', hp, hrest⟩
        · cases c with
          | nil => exact ⟨[], by rw [hc]; simp, hrest.symm⟩
          | cons d c =>
            obtain ⟨rfl, -⟩ := List.cons.inj hrest
            exact absurd (by rw [hc]; simp) hnot
      obtain ⟨ts₁, ts₂, rfl, h₁, h₂⟩ := ih hrestSolid hrest
      exact ⟨t :: ts₁, ts₂, rfl, by rw [render_cons, h₁], h₂⟩

/-- Tokens whose text is a key word are that word. -/
theorem exists_word_of_render (hlexed : Lexed ts) (hsolid : ∀ t ∈ ts, Solid t) (hne : k ≠ [])
    (hk : ∀ c ∈ k, Sql.isWordChar c = true) (h : render lowering ts = k) :
    ∃ w, ts = [.word w] ∧ w.map lowering.lower = k := by
  have hword : ∀ t ∈ ts, ∃ w, t = .word w := by
    intro t ht
    have hchars : ∀ c ∈ renderToken lowering t, Sql.isWordChar c = true := fun c hc =>
      hk c (h ▸ List.mem_flatMap.mpr ⟨t, ht, hc⟩)
    cases t with
    | word w => exact ⟨w, rfl⟩
    | space => cases hchars ' ' List.mem_cons_self
    | symbol c =>
      have hc := hchars (lowering.lower c) List.mem_cons_self
      have hsymbol : Sql.isWordChar c = false := (hlexed.wf _ ht).1
      by_cases hascii : c.toNat < 128
      · rw [lowering.ascii c hascii] at hc
        have hnot : Sql.isWordChar c.toLower = false := Sql.forall_ascii
          (P := fun c => Sql.isWordChar c = false → Sql.isWordChar c.toLower = false)
          (by decide +kernel) hascii hsymbol
        rw [hnot] at hc
        cases hc
      · rw [Sql.isWordChar, decide_eq_true (not_lt.mp hascii), Bool.or_true] at hsymbol
        cases hsymbol
    | quoted c => exact (hsolid _ ht).elim
  match ts, hlexed, hword, h with
  | [], _, _, h => exact absurd h.symm hne
  | [t], _, hword, h =>
    obtain ⟨w, rfl⟩ := hword t List.mem_cons_self
    refine ⟨w, rfl, ?_⟩
    rw [← h]
    simp [render, renderToken]
  | t :: t' :: ts, hlexed, hword, _ =>
    obtain ⟨w, rfl⟩ := hword t List.mem_cons_self
    obtain ⟨w', rfl⟩ := hword t' (by simp)
    exact (List.isChain_cons_cons.mp hlexed.separate).1.elim

/-- Without the word `default` its text is not there. -/
theorem default_not_infix (hlexed : Lexed ts) (hsolid : ∀ t ∈ ts, Solid t)
    (h : ∀ w, .word w ∈ ts → w ≠ "default".toList) :
    ¬ " default ".toList <:+: render lowering ts := by
  rintro ⟨p, q, heq⟩
  have htext : render lowering ts = p ++ ' ' :: ("default".toList ++ ' ' :: q) := by
    rw [← heq]
    simp
  obtain ⟨ts₁, ts₂, rfl, -, h₂⟩ := exists_space_of_render hsolid htext
  have hsolid₂ : ∀ t ∈ ts₂, Solid t := fun t ht => hsolid t (by simp [ht])
  obtain ⟨ts₃, ts₄, rfl, h₃, -⟩ := exists_space_of_render hsolid₂ h₂
  have hlexed₃ : Lexed ts₃ := hlexed.of_part ⟨ts₁ ++ [.space], .space :: ts₄, by simp⟩
  have hsolid₃ : ∀ t ∈ ts₃, Solid t := fun t ht => hsolid t (by simp [ht])
  have hletters : ∀ c ∈ "default".toList, Sql.isWordChar c = true :=
    List.all_eq_true.mp (by decide +kernel)
  obtain ⟨w, rfl, hw⟩ := exists_word_of_render hlexed₃ hsolid₃ (by decide) hletters h₃
  have hfold : ∀ c ∈ w, c.toLower = c := fun c hc =>
    ((hlexed₃.wf _ (List.mem_singleton_self _)).2 c hc).2
  exact h w (by simp) (eq_of_map_lower_eq hfold (by decide) hw)

/-- The tokens of an action up to its first comma. -/
theorem exists_until_comma {spaces : List Token} (hspaces : words spaces = [])
    (hrest : rest = [] ∨ ∃ more, rest = .symbol ',' :: more) :
    ∃ kept dropped, ts ++ (spaces ++ rest) = kept ++ dropped ∧
      (∀ t ∈ kept, t ∈ ts ∨ t = .space) ∧ .symbol ',' ∉ kept ∧
      (dropped = [] ∨ ∃ more, dropped = .symbol ',' :: more) := by
  by_cases hcomma : .symbol ',' ∈ ts
  · obtain ⟨kept, more, rfl, hkept⟩ := List.eq_append_cons_of_mem hcomma
    exact ⟨kept, .symbol ',' :: more ++ (spaces ++ rest), by simp, fun t ht => .inl (by simp [ht]),
      hkept, .inr ⟨_, rfl⟩⟩
  · refine ⟨ts ++ spaces, rest, by simp, fun t ht => ?_, fun hmem => ?_, hrest⟩
    · exact (List.mem_append.mp ht).imp id (words_eq_nil hspaces t)
    · rcases List.mem_append.mp hmem with hmem | hmem
      · exact hcomma hmem
      · cases words_eq_nil hspaces _ hmem

theorem map_lower_addWords (keyword ifNotExists : Bool) :
    (addWords keyword ifNotExists).map (fun w => w.map lowering.lower) =
      addWords keyword ifNotExists := by
  refine (List.map_congr_left fun w hw => ?_).trans (List.map_id _)
  have hall : ∀ w ∈ addWords keyword ifNotExists,
      (w.all fun c => c.toNat < 128 && c.toLower == c) = true := by
    cases keyword <;> cases ifNotExists <;> decide
  exact map_lower_of_lower (hall w hw)

/-- The text before an action does not end in a word. -/
theorem Lead.getLast? (h : Lead front between) :
    (render lowering between).getLast?.any Regexp.isWord = false := by
  cases h with
  | header ifExists only htable =>
    rw [render_append]
    change (_ ++ [' ']).getLast?.any _ = false
    rw [List.getLast?_concat]
    rfl
  | comma front hbetween => rcases hbetween with rfl | rfl <;> rfl

/-- The tokens of a part with an action that adds a column. -/
def addTokens (between : List Token) (keyword ifNotExists : Bool) (column name : List Char)
    (middle kept : List Token) : List Token :=
  between ++ (spaced ("add".toList :: (addWords keyword ifNotExists ++ [column, name])) ++
    (middle ++ [key "not", .space, key "null"] ++ kept))

theorem isSpace_of_isBlank {c : Char} (h : Sql.isBlank c = true) : Strings.isSpace c = true := by
  have hmem : c ∈ [' ', '\t', '\n', '\r', '\x0c'] := of_decide_eq_true h
  simp only [List.mem_cons, List.not_mem_nil, or_false] at hmem
  rcases hmem with rfl | rfl | rfl | rfl | rfl <;> rfl

section

variable {front between middle kept : List Token} {keyword ifNotExists : Bool}
  {column name : List Char}
  (hlexed : Lexed (addTokens between keyword ifNotExists column name middle kept))
  (hsolid : ∀ t ∈ addTokens between keyword ifNotExists column name middle kept, Solid t)

include hlexed hsolid

theorem matchString_addTokens (hlead : Lead front between) :
    addsColumn.matchString
      (render lowering (addTokens between keyword ifNotExists column name middle kept)) = true := by
  have hcolumn : .word column ∈ addTokens between keyword ifNotExists column name middle kept := by
    refine List.mem_append_right _ (List.mem_append_left _ ?_)
    cases keyword <;> cases ifNotExists <;> simp [addWords, spaced]
  have hne : column.map lowering.lower ≠ [] := fun h =>
    (hlexed.wf _ hcolumn).1 (List.map_eq_nil_iff.mp h)
  have hblank : ∀ c ∈ column.map lowering.lower, isBlank c = false := by
    intro c hc
    obtain ⟨d, hd, rfl⟩ := List.mem_map.mp hc
    have hspace : Strings.isSpace d = false := hsolid _ hcolumn d hd
    rw [isBlank_lower, ← Bool.not_eq_true]
    intro hblank
    rw [isSpace_of_isBlank hblank] at hspace
    cases hspace
  obtain ⟨r, hr, hconsumes⟩ := consumes_addsColumn keyword ifNotExists hne hblank
  have hadd : "add".toList.map lowering.lower = "add".toList := map_lower_of_lower (by decide)
  have hwords : render lowering (spaced ("add".toList :: (addWords keyword ifNotExists ++
      [column, name]))) = ("add".toList ++ (pad (addWords keyword ifNotExists ++
        [column.map lowering.lower]) ++ [' '])) ++ name.map lowering.lower := by
    rw [render_spaced, hadd, List.map_append, map_lower_addWords]
    simp [pad]
  rw [addTokens, render_append, render_append, hwords, hr, List.append_assoc _ (name.map _)]
  refine Regexp.matchString_boundary hconsumes ?_
  rw [hlead.getLast?]
  simp [Regexp.isWord]

/-- The rule applies to a part with an action that adds a column. -/
theorem addsInPart_addTokens (hlead : Lead front between)
    (hdefault : ∀ w, .word w ∈ addTokens between keyword ifNotExists column name middle kept →
      w ≠ "default".toList) :
    addsInPart
      (render lowering (addTokens between keyword ifNotExists column name middle kept)) = true := by
  have hlower : ∀ s : String, (s.toList.all fun c => c.toNat < 128 && c.toLower == c) = true →
      s.toList.map lowering.lower = s.toList := fun s => map_lower_of_lower
  have hnotNull : render lowering [key "not", .space, key "null"] = "not null".toList := by
    simp only [render, List.flatMap_cons, List.flatMap_nil, key, renderToken,
      hlower "not" (by decide), hlower "null" (by decide)]
    rfl
  have hpart : "not null".toList <:+:
      render lowering (addTokens between keyword ifNotExists column name middle kept) := by
    refine ⟨render lowering (between ++ (spaced ("add".toList :: (addWords keyword ifNotExists ++
      [column, name])) ++ middle)), render lowering kept, ?_⟩
    rw [← hnotNull, ← render_append, ← render_append, addTokens]
    simp only [List.append_assoc]
  have hnot : ¬ " default ".toList <:+:
      render lowering (addTokens between keyword ifNotExists column name middle kept) :=
    default_not_infix hlexed hsolid hdefault
  rw [← occursIn_iff, Bool.not_eq_true] at hnot
  rw [addsInPart, matchString_addTokens hlexed hsolid hlead, occursIn_iff.mpr hpart, hnot]
  rfl

end

variable {statement : List Token} (hlexed : Lexed statement) (hsolid : ∀ t ∈ statement, Solid t)
  (hfirst : statement.head? ≠ some .space) {a : Alteration} (ha : a.In statement)

include hlexed hsolid hfirst ha

/-- The rule for added columns applies to a statement that adds one. -/
theorem addsNotNull_render {type : List Token} (hadds : Sql.AddsRequired a.action column type)
    (htype : .symbol ',' ∉ type) (hdefault : key "default" ∉ a.action) :
    addsNotNull (render lowering statement) = true := by
  obtain ⟨-, ⟨name, type', rfl⟩, keyword, ifNotExists, more, hwords, -⟩ := hadds
  have hactionLexed : Lexed a.action := hlexed.of_part ⟨a.before, a.after, by rw [ha.eq]; simp⟩
  have hwords' : words a.action = ("add".toList ::
      (addWords keyword ifNotExists ++ [column, name])).map .word ++
        (type' ++ key "not" :: key "null" :: more) := by
    rw [hwords]
    cases keyword <;> cases ifNotExists <;> simp [addWords, Sql.optional, key]
  obtain ⟨tail, haction, htail⟩ := exists_spaced hactionLexed ha.first hwords'
  -- the rest of the type, `NOT NULL`, and what follows
  obtain ⟨typeTokens, tail₁, rfl, htypeWords, htail₁⟩ := words_append_eq htail
  obtain ⟨spaces₁, tail₂, rfl, hspaces₁, htail₂⟩ := words_cons_eq htail₁
  obtain ⟨spaces₂, moreTokens, rfl, hspaces₂, -⟩ := words_cons_eq htail₂
  obtain rfl : spaces₂ = [.space] := by
    have hlexed₂ : Lexed (key "not" :: (spaces₂ ++ [key "null"])) := hactionLexed.of_part
      ⟨spaced ("add".toList :: (addWords keyword ifNotExists ++ [column, name])) ++
        (typeTokens ++ spaces₁), moreTokens, by rw [haction]; simp⟩
    rcases Lexed.eq_nil_or_space (hlexed₂.of_part ⟨[key "not"], [key "null"], rfl⟩) hspaces₂ with
      rfl | rfl
    · exact (List.isChain_cons_cons.mp hlexed₂.separate).1.elim
    · rfl
  obtain ⟨front, between, hbefore, hlead⟩ := exists_lead hlexed hfirst ha (by simp) haction
  obtain ⟨spaces, rest, hafter, hspaces, hrest⟩ := exists_closing ha.closing
  obtain ⟨kept, dropped, hkeep, hkept, hkeptComma, hdropped⟩ : ∃ kept dropped,
      moreTokens ++ (spaces ++ rest) = kept ++ dropped ∧
      (∀ t ∈ kept, t ∈ moreTokens ∨ t = .space) ∧ .symbol ',' ∉ kept ∧
      (dropped = [] ∨ ∃ more, dropped = .symbol ',' :: more) := exists_until_comma hspaces hrest
  -- the part with the action, up to its first comma
  have hstatement : statement = front ++ (addTokens between keyword ifNotExists column name
      (typeTokens ++ spaces₁) kept ++ dropped) := by
    rw [ha.eq, hbefore, haction, hafter, addTokens]
    simp only [List.append_assoc, List.cons_append, List.nil_append, hkeep]
  have hcomma : .symbol ',' ∉ addTokens between keyword ifNotExists column name
      (typeTokens ++ spaces₁) kept := by
    intro ht
    simp only [addTokens, List.mem_append] at ht
    rcases ht with ht | ht | ((ht | ht) | ht) | ht
    · rcases hlead.mem ht with h | ⟨w, h, -⟩ <;> cases h
    · rcases mem_spaced ht with h | ⟨w, -, h⟩ <;> cases h
    · have hmem : .symbol ',' ∈ words typeTokens := List.mem_filter.mpr ⟨ht, by simp⟩
      rw [htypeWords] at hmem
      exact htype (List.mem_cons_of_mem _ hmem)
    · cases words_eq_nil hspaces₁ _ ht
    · simp [key] at ht
    · exact hkeptComma ht
  have hnoDefault : ∀ w, .word w ∈ addTokens between keyword ifNotExists column name
      (typeTokens ++ spaces₁) kept → w ≠ "default".toList := by
    rintro w hw rfl
    rcases List.mem_append.mp hw with hw | hw
    · rcases hlead.mem hw with h | ⟨w, h, hw⟩
      · cases h
      · cases h
        rcases hw with hw | ⟨ifExists, only, hw⟩ | hw
        · exact absurd hw (by decide)
        · revert hw
          cases ifExists <;> cases only <;> decide
        · exact hw.2 (by simp [Sql.reserved])
    · refine hdefault ?_
      rw [haction]
      change Token.word "default".toList ∈ _
      simp only [List.mem_append, List.mem_cons] at hw ⊢
      rcases hw with hw | ((hw | hw) | hw) | hw
      · exact .inl hw
      · exact .inr (.inl hw)
      · exact .inr (.inr (.inl hw))
      · simp [key] at hw
      · rcases hkept _ hw with hw | hw
        · exact .inr (.inr (.inr (.inr (.inr (.inr hw)))))
        · cases hw
  rw [addsNotNull, List.any_eq_true]
  refine ⟨_, render_mem_splitOn hlexed hsolid hstatement hlead.front_eq hdropped hcomma, ?_⟩
  have hpart : addTokens between keyword ifNotExists column name (typeTokens ++ spaces₁) kept <:+:
      statement := ⟨front, dropped, by rw [hstatement, List.append_assoc]⟩
  exact addsInPart_addTokens (hlexed.of_part hpart) (fun t ht => hsolid t (hpart.subset ht))
    hlead hnoDefault

end

end Argus.Migrations

import Mathlib.Data.List.Chain
import Mathlib.Data.List.DropRight

/-!
# SQL text

The lexical structure of PostgreSQL, as far as it decides where a statement ends and which words it
is made of: comments, strings, quoted identifiers, dollar-quoted texts, words and symbols. Over it,
what an `ALTER TABLE` statement with an action is.
-/

namespace Argus.Sql

/-! ## Where a character stands -/

inductive Kind where
  | code
  /-- of a comment from `--` to the end of the line -/
  | comment
  /-- of a comment between `/*` and `*/` -/
  | block
  /-- of a string or a quoted identifier -/
  | quoted
  /-- of the `$tag$` around a dollar-quoted text -/
  | delimiter
  /-- of a dollar-quoted text -/
  | body
  deriving DecidableEq, Repr

structure Mark where
  kind : Kind
  char : Char
  deriving DecidableEq, Repr

def isBlank (c : Char) : Bool := c ∈ [' ', '\t', '\n', '\r', '\x0c']

/-- A character of an identifier, a keyword or a number. -/
def isWordChar (c : Char) : Bool := c.isAlphanum || c == '_' || c == '$' || 128 ≤ c.toNat

/-- What the text before a character leaves open. -/
inductive Mode where
  /-- nothing; the word that ends here, backwards -/
  | code (word : List Char)
  | line
  | block (depth : ℕ)
  | string (escapes : Bool)
  | identifier
  | dollar (tag : List Char)
  /-- so many characters after the next one are of one kind -/
  | skip (kind : Kind) (more : ℕ) (next : Mode)

/-- The tag of a dollar-quoted text, after its first `$`. -/
def dollarTag (cs : List Char) : Option (List Char) :=
  let tag := cs.takeWhile fun c => isWordChar c && c != '$'
  if (cs.drop tag.length).head? = some '$' && !tag.head?.any Char.isDigit then some tag else none

def stepCode (word : List Char) (c : Char) (cs : List Char) : Kind × Mode :=
  if c = '-' ∧ cs.head? = some '-' then (.comment, .line)
  else if c = '/' ∧ cs.head? = some '*' then (.block, .skip .block 0 (.block 0))
  else if c = '\'' then (.quoted, .string (word = ['e'] || word = ['E']))
  else if c = '"' then (.quoted, .identifier)
  else if c = '$' ∧ word = [] then
    match dollarTag cs with
    | some tag => (.delimiter, .skip .delimiter tag.length (.dollar tag))
    | none => (.code, .code ['$'])
  else (.code, .code (if isWordChar c then c :: word else []))

/-- The kind of a character that other text follows, and what it leaves open. -/
def step : Mode → Char → List Char → Kind × Mode
  | .code word, c, cs => stepCode word c cs
  | .line, c, _ => if c = '\n' then (.code, .code []) else (.comment, .line)
  | .block depth, c, cs =>
    if c = '*' ∧ cs.head? = some '/' then
      (.block, .skip .block 0 (if depth = 0 then .code [] else .block (depth - 1)))
    else if c = '/' ∧ cs.head? = some '*' then (.block, .skip .block 0 (.block (depth + 1)))
    else (.block, .block depth)
  | .string escapes, c, cs =>
    if c = '\'' ∧ cs.head? ≠ some '\'' then (.quoted, .code [])
    else if c = '\'' ∨ (escapes ∧ c = '\\') then (.quoted, .skip .quoted 0 (.string escapes))
    else (.quoted, .string escapes)
  | .identifier, c, cs =>
    if c = '"' ∧ cs.head? ≠ some '"' then (.quoted, .code [])
    else if c = '"' then (.quoted, .skip .quoted 0 .identifier)
    else (.quoted, .identifier)
  | .dollar tag, c, cs =>
    if c = '$' ∧ (tag ++ ['$']).isPrefixOf cs then
      (.delimiter, .skip .delimiter tag.length (.code []))
    else (.body, .dollar tag)
  | .skip kind more next, _, _ =>
    (kind, if more = 0 then next else .skip kind (more - 1) next)

def marks : Mode → List Char → List Mark
  | _, [] => []
  | mode, c :: cs => ⟨(step mode c cs).1, c⟩ :: marks (step mode c cs).2 cs

/-- The texts between semicolons, after one that has begun. -/
def splitAt (piece : List Mark) : List Mark → List (List Mark)
  | [] => [piece]
  | m :: ms =>
    if m = ⟨.code, ';'⟩ then piece :: splitAt [] ms else splitAt (piece ++ [m]) ms

/-- The statements of a text. -/
def statements (text : List Char) : List (List Mark) := splitAt [] (marks (.code []) text)

/-! ## Tokens -/

inductive Token where
  | space
  /-- a word, folded to lower case -/
  | word (text : List Char)
  | symbol (c : Char)
  | quoted (c : Char)
  deriving DecidableEq, Repr

/-- White space before tokens. -/
def consSpace : List Token → List Token
  | .space :: ts => .space :: ts
  | ts => .space :: ts

/-- A letter of a word before tokens. -/
def consWord (c : Char) : List Token → List Token
  | .word w :: ts => .word (c :: w) :: ts
  | ts => .word [c] :: ts

/-- The tokens of a text, with the white space between them. A `--` comment is followed by the end
of its line, or it is the last text. -/
def lex : List Mark → List Token
  | [] => []
  | m :: ms =>
    match m.kind with
    | .comment => lex ms
    | .block => consSpace (lex ms)
    | .code =>
      if isBlank m.char then consSpace (lex ms)
      else if isWordChar m.char then consWord m.char.toLower (lex ms)
      else .symbol m.char :: lex ms
    | _ => .quoted m.char :: lex ms

theorem lex_code (c : Char) (ms : List Mark) :
    lex (⟨.code, c⟩ :: ms) =
      if isBlank c then consSpace (lex ms)
      else if isWordChar c then consWord c.toLower (lex ms)
      else .symbol c :: lex ms := rfl

/-- Tokens without white space around them. -/
def trim (ts : List Token) : List Token :=
  (ts.dropWhile (· = .space)).rdropWhile (· = .space)

def tokens (statement : List Mark) : List Token := trim (lex statement)

def words (ts : List Token) : List Token := ts.filter (· ≠ .space)

@[simp] theorem words_append (ts ts' : List Token) : words (ts ++ ts') = words ts ++ words ts' :=
  List.filter_append _ _

/-- What every token of a text satisfies. -/
def Token.Wf : Token → Prop
  | .space => True
  | .word w => w ≠ [] ∧ ∀ c ∈ w, isWordChar c = true ∧ c.toLower = c
  | .symbol c => isWordChar c = false ∧ isBlank c = false
  | .quoted _ => True

/-- White space is one token, and two words have white space between them. -/
def Separate : Token → Token → Prop
  | .space, .space => False
  | .word _, .word _ => False
  | _, _ => True

/-- Tokens as a text has them. -/
structure Lexed (ts : List Token) : Prop where
  wf : ∀ t ∈ ts, t.Wf
  separate : ts.IsChain Separate

variable {c : Char} {ts : List Token}

theorem Lexed.of_part {ts' : List Token} (h : Lexed ts) (hpart : ts' <:+: ts) : Lexed ts' :=
  ⟨fun t ht => h.wf t (hpart.subset ht), h.separate.infix hpart⟩

variable {t : Token}

private theorem isChain_cons (h : ts.IsChain Separate) (hhead : ∀ t' ∈ ts.head?, Separate t t') :
    (t :: ts).IsChain Separate := by
  cases ts with
  | nil => exact List.isChain_singleton t
  | cons t' ts => exact List.isChain_cons_cons.mpr ⟨hhead t' rfl, h⟩

theorem Lexed.cons (h : Lexed ts) (ht : t.Wf) (hhead : ∀ t' ∈ ts.head?, Separate t t') :
    Lexed (t :: ts) :=
  ⟨List.forall_mem_cons.mpr ⟨ht, h.wf⟩, isChain_cons h.separate hhead⟩

theorem Lexed.consSpace (h : Lexed ts) : Lexed (consSpace ts) := by
  unfold Sql.consSpace
  split
  · exact h
  · rename_i hne
    refine h.cons trivial fun t' ht' => ?_
    cases t' with
    | space =>
      obtain ⟨rest, rfl⟩ := List.head?_eq_some_iff.mp ht'
      exact absurd rfl (hne rest)
    | word w | symbol c | quoted c => trivial

theorem Lexed.consWord (h : Lexed ts) (hc : isWordChar c = true) (hlower : c.toLower = c) :
    Lexed (consWord c ts) := by
  unfold Sql.consWord
  split
  · rename_i w rest
    obtain ⟨hw, hrest⟩ := List.forall_mem_cons.mp h.wf
    have hwf : ∀ d ∈ c :: w, isWordChar d = true ∧ d.toLower = d :=
      List.forall_mem_cons.mpr ⟨⟨hc, hlower⟩, hw.2⟩
    have hlexed : Lexed rest := h.of_part (List.suffix_cons _ rest).isInfix
    refine hlexed.cons ⟨List.cons_ne_nil _ _, hwf⟩ fun t' ht' => ?_
    obtain ⟨rest', rfl⟩ := List.head?_eq_some_iff.mp ht'
    have hseparate := (List.isChain_cons_cons.mp h.separate).1
    cases t' with
    | word w' => exact hseparate
    | space | symbol c | quoted c => trivial
  · rename_i hne
    have hwf : ∀ d ∈ [c], isWordChar d = true ∧ d.toLower = d := by simp [hc, hlower]
    refine h.cons ⟨List.cons_ne_nil _ _, hwf⟩ fun t' ht' => ?_
    cases t' with
    | word w =>
      obtain ⟨rest, rfl⟩ := List.head?_eq_some_iff.mp ht'
      exact absurd rfl (hne w rest)
    | space | symbol c | quoted c => trivial

/-! ## Letters -/

theorem forall_ascii {P : Char → Prop} (h : ∀ n : Fin 128, P (Char.ofNat n)) (hc : c.toNat < 128) :
    P c := by
  have hn := h ⟨c.toNat, hc⟩
  rwa [Char.ofNat_toNat] at hn

theorem toLower_of_not_ascii (h : 128 ≤ c.toNat) : c.toLower = c := by
  unfold Char.toLower
  split
  · rename_i hupper
    have hle : c.val.toNat ≤ 90 := hupper.2
    have hval : c.toNat = c.val.toNat := rfl
    omega
  · rfl

theorem toLower_toLower (c : Char) : c.toLower.toLower = c.toLower := by
  by_cases h : c.toNat < 128
  · exact forall_ascii (P := fun c => c.toLower.toLower = c.toLower) (by decide +kernel) h
  · rw [toLower_of_not_ascii (not_lt.mp h), toLower_of_not_ascii (not_lt.mp h)]

theorem isWordChar_toLower (h : isWordChar c = true) : isWordChar c.toLower = true := by
  by_cases hc : c.toNat < 128
  · exact forall_ascii (P := fun c => isWordChar c = true → isWordChar c.toLower = true)
      (by decide +kernel) hc h
  · rwa [toLower_of_not_ascii (not_lt.mp hc)]

theorem lexed_lex (ms : List Mark) : Lexed (lex ms) := by
  induction ms with
  | nil => exact ⟨by simp [lex], List.IsChain.nil⟩
  | cons m ms ih =>
    have hquoted : ∀ c, Lexed (.quoted c :: lex ms) := fun c =>
      ih.cons trivial fun t' _ => by cases t' <;> trivial
    unfold lex
    split
    · exact ih
    · exact ih.consSpace
    · split_ifs with hblank hword
      · exact ih.consSpace
      · exact ih.consWord (isWordChar_toLower hword) (toLower_toLower _)
      · exact ih.cons ⟨by simpa using hword, by simpa using hblank⟩ fun t' _ => by
          cases t' <;> trivial
    · exact hquoted _

theorem lexed_tokens (ms : List Mark) : Lexed (tokens ms) :=
  (lexed_lex ms).of_part
    ((List.rdropWhile_prefix _ _).isInfix.trans (List.dropWhile_suffix _).isInfix)

/-! ## Statements that alter a table -/

/-- The reserved key words. None of them is an identifier unless it is quoted. -/
def reserved : List String :=
  ["all", "analyse", "analyze", "and", "any", "array", "as", "asc", "asymmetric", "both", "case",
    "cast", "check", "collate", "column", "constraint", "create", "current_catalog",
    "current_date", "current_role", "current_time", "current_timestamp", "current_user",
    "default", "deferrable", "desc", "distinct", "do", "else", "end", "except", "false", "fetch",
    "for", "foreign", "from", "grant", "group", "having", "in", "initially", "intersect", "into",
    "lateral", "leading", "limit", "localtime", "localtimestamp", "not", "null", "offset", "on",
    "only", "or", "order", "placing", "primary", "references", "returning", "select",
    "session_user", "some", "symmetric", "system_user", "table", "then", "to", "trailing", "true",
    "union", "unique", "user", "using", "variadic", "when", "where", "window", "with"]

/-- A word that names a table or a column. -/
def IsIdentifier (w : List Char) : Prop :=
  w.head?.any (fun c => !c.isDigit && c != '$') = true ∧ String.ofList w ∉ reserved

/-- A key word. -/
def key (s : String) : Token := .word s.toList

/-- Key words that may be left out. -/
def optional (present : Bool) (ks : List String) : List Token :=
  if present then ks.map key else []

/-- How the parentheses of tokens balance. -/
def depth (ts : List Token) : ℤ := ts.count (.symbol '(') - ts.count (.symbol ')')

/-- An action of an `ALTER TABLE` statement: the tokens before it, its own and those after it. -/
structure Alteration where
  before : List Token
  action : List Token
  after : List Token

/-- `ALTER TABLE [IF EXISTS] [ONLY] table`. -/
def header (ifExists only : Bool) (table : List Char) : List Token :=
  [key "alter", key "table"] ++ optional ifExists ["if", "exists"] ++ optional only ["only"] ++
    [.word table]

/-- The statement has the action: the first one after the name of the table, or one after a comma
between actions. -/
structure Alteration.In (a : Alteration) (statement : List Token) : Prop where
  eq : statement = a.before ++ (a.action ++ a.after)
  first : a.action.head? ≠ some .space
  opening : ∃ ifExists only table, IsIdentifier table ∧
    (words a.before = header ifExists only table ∨
      ∃ earlier, words a.before = header ifExists only table ++ earlier ++ [.symbol ','] ∧
        depth earlier = 0)
  closing : words a.after = [] ∨ (words a.after).head? = some (.symbol ',')

/-- `DROP [COLUMN] [IF EXISTS] column [RESTRICT | CASCADE]`. -/
def DropsColumn (action : List Token) (ifExists : Bool) (column : List Char) : Prop :=
  IsIdentifier column ∧ ∃ keyword behaviour,
    behaviour ∈ [[], ["restrict"], ["cascade"]] ∧
    words action = key "drop" :: optional keyword ["column"] ++
      optional ifExists ["if", "exists"] ++ .word column :: behaviour.map key

/-- Whether the definition of a column has a `DEFAULT` clause, after a token. The word is also part
of `GENERATED BY DEFAULT` and of `SET DEFAULT`. -/
def hasDefault : Option Token → List Token → Bool
  | _, [] => false
  | previous, t :: ts =>
    (t = key "default" && previous ≠ some (key "by") && previous ≠ some (key "set")) ||
      hasDefault (some t) ts

/-- `ADD [COLUMN] [IF NOT EXISTS] column type NOT NULL`, without a `DEFAULT` clause. -/
def AddsRequired (action : List Token) (column : List Char) (type : List Token) : Prop :=
  IsIdentifier column ∧ (∃ name rest, type = .word name :: rest) ∧
    ∃ keyword ifNotExists more,
      words action = key "add" :: optional keyword ["column"] ++
        optional ifNotExists ["if", "not", "exists"] ++ .word column :: type ++
        [key "not", key "null"] ++ more ∧
      hasDefault none (type ++ [key "not", key "null"] ++ more) = false

end Argus.Sql

import Argus.Base.Regexp
import Argus.Migrations.Load

/-!
# The migration lint

`Lint` reports the statements of a migration that an older build may not survive. It removes
comments, splits the file at semicolons, normalizes case and white space, and looks for the text of
each rule in the statements that this gives.
-/

namespace Argus.Migrations

/-- `unicode.ToLower`. Besides the capital letters of ASCII, only U+0130 and U+212A have a lower
case in ASCII. -/
structure Lowering where
  lower : Char → Char
  ascii : ∀ c, c.toNat < 128 → lower c = c.toLower
  other : ∀ c, 128 ≤ c.toNat → 128 ≤ (lower c).toNat ∨ lower c = 'i' ∨ lower c = 'k'
  space : ∀ c, 128 ≤ c.toNat → Strings.isSpace (lower c) = Strings.isSpace c

/-! ## Statements -/

/-- `--[^\n]*` replaced by nothing; whether a comment has begun. -/
def stripComments : Bool → List Char → List Char
  | true, '\n' :: cs => '\n' :: stripComments false cs
  | true, _ :: cs => stripComments true cs
  | false, '-' :: '-' :: cs => stripComments true cs
  | false, c :: cs => c :: stripComments false cs
  | _, [] => []

/-- The loop of `statements`: the text since the last statement, and whether it is in a
dollar-quoted body. -/
def pieces (inDollar : Bool) (b : List Char) : List Char → List (List Char)
  | '$' :: '$' :: cs => pieces (!inDollar) (b ++ ['$', '$']) cs
  | ';' :: cs => if inDollar then pieces inDollar (b ++ [';']) cs else b :: pieces inDollar [] cs
  | c :: cs => pieces inDollar (b ++ [c]) cs
  | [] => [b]

/-- `\s`. -/
def isBlank (c : Char) : Bool := c ∈ ['\t', '\n', '\x0c', '\r', ' ']

/-- `\s+` replaced by one blank. -/
def collapse : List Char → List Char
  | [] => []
  | c :: cs =>
    if isBlank c then if cs.head?.any isBlank then collapse cs else ' ' :: collapse cs
    else c :: collapse cs

/-- `strings.TrimSpace`. -/
def trimSpace (cs : List Char) : List Char :=
  (cs.dropWhile Strings.isSpace).rdropWhile Strings.isSpace

/-- The text that `appendStatement` appends, unless it is empty. -/
def normalize (lowering : Lowering) (stmt : List Char) : List Char :=
  trimSpace (collapse (stmt.map lowering.lower))

def appendStatement (lowering : Lowering) (out : List (List Char)) (stmt : List Char) :
    List (List Char) :=
  let stmt := normalize lowering stmt
  if stmt = [] then out else out ++ [stmt]

def statements (lowering : Lowering) (sql : List Char) : List (List Char) :=
  (pieces false [] (stripComments false sql)).foldl (appendStatement lowering) []

/-! ## Rules -/

/-- The text after the first occurrence of a part. -/
def afterFirst (part : List Char) : List Char → Option (List Char)
  | [] => if part.isEmpty then some [] else none
  | c :: cs =>
    if part.isPrefixOf (c :: cs) then some ((c :: cs).drop part.length) else afterFirst part cs

/-- `strings.Contains`. -/
def occursIn (part : List Char) : List Char → Bool
  | [] => part.isEmpty
  | c :: cs => part.isPrefixOf (c :: cs) || occursIn part cs

theorem occursIn_iff {part s : List Char} : occursIn part s = true ↔ part <:+: s := by
  induction s with
  | nil => rw [occursIn, List.isEmpty_iff, List.infix_nil]
  | cons c cs ih =>
    rw [occursIn, Bool.or_eq_true, ih, List.isPrefixOf_iff_prefix, List.infix_cons_iff]

def trimPrefix (p s : List Char) : List Char := if p.isPrefixOf s then s.drop p.length else s

def text (s : String) : Regexp := .text s.toList

/-- `(a|b|...)`. -/
def oneOf : String → List String → Regexp
  | s, [] => text s
  | s, t :: ts => .alt (text s) (oneOf t ts)

/-- One expression after the other. -/
def inOrder : Regexp → List Regexp → Regexp
  | r, [] => r
  | r, s :: rs => .seq r (inOrder s rs)

/-- `\S+`. -/
def nonBlanks : Regexp := .plus fun c => !isBlank c

structure LintRule where
  why : String
  applies : List Char → Bool

/-- `^drop (table|view|materialized view|schema|type|sequence|function)\b`. -/
def dropsObject : Regexp :=
  inOrder .start [text "drop ", oneOf "table" ["view", "materialized view", "schema", "type",
    "sequence", "function"], .boundary]

/-- What a statement may drop without an effect on older builds. -/
def isRelaxation (rest : List Char) : Bool :=
  "constraint ".toList.isPrefixOf rest || "default".toList.isPrefixOf rest ||
    "not null".toList.isPrefixOf rest || "identity".toList.isPrefixOf rest ||
    "expression".toList.isPrefixOf rest

/-- A part that drops something other than a relaxation. -/
def dropsInPart (part : List Char) : Bool :=
  match afterFirst " drop ".toList part with
  | none => false
  | some rest => !isRelaxation (trimPrefix "column ".toList rest)

def dropsColumn (s : List Char) : Bool :=
  "alter table ".toList.isPrefixOf s && (s.splitOn ',').any dropsInPart

/-- `\brename\b`. -/
def renames : Regexp := inOrder .boundary [text "rename", .boundary]

/-- `\balter column \S+ (set data )?type\b`. -/
def changesType : Regexp :=
  inOrder .boundary [text "alter column ", nonBlanks, text " ", .opt (text "set data "),
    text "type", .boundary]

/-- `\bset not null\b`. -/
def setsNotNull : Regexp := inOrder .boundary [text "set not null", .boundary]

/-- `\badd (column )?(if not exists )?\S+ `. -/
def addsColumn : Regexp :=
  inOrder .boundary [text "add ", .opt (text "column "), .opt (text "if not exists "), nonBlanks,
    text " "]

def addsInPart (part : List Char) : Bool :=
  addsColumn.matchString part && occursIn "not null".toList part &&
    !occursIn " default ".toList part

def addsNotNull (s : List Char) : Bool := (s.splitOn ',').any addsInPart

/-- `\badd (constraint \S+ )?(check|unique|foreign key|primary key)\b`. -/
def addsConstraint : Regexp :=
  inOrder .boundary [text "add ", .opt (inOrder (text "constraint ") [nonBlanks, text " "]),
    oneOf "check" ["unique", "foreign key", "primary key"], .boundary]

/-- `^(truncate|delete from)\b`. -/
def deletesData : Regexp := inOrder .start [oneOf "truncate" ["delete from"], .boundary]

def lintRules : List LintRule :=
  [⟨"drops an object older builds may use", dropsObject.matchString⟩,
    ⟨"drops a column", dropsColumn⟩,
    ⟨"renames an object", renames.matchString⟩,
    ⟨"changes a column type", changesType.matchString⟩,
    ⟨"makes a column NOT NULL", setsNotNull.matchString⟩,
    ⟨"adds a NOT NULL column without a default", addsNotNull⟩,
    ⟨"adds a constraint older writers may violate", addsConstraint.matchString⟩,
    ⟨"deletes data", deletesData.matchString⟩]

/-! ## Lint -/

/-- The bytes that a problem quotes. -/
def abbreviate (s : List Char) : List ℕ :=
  let bytes := Sha256.utf8 s
  if 80 < bytes.length then bytes.take 77 ++ Sha256.utf8 "...".toList else bytes

/-- `quote` is the `%q` verb. -/
def problem (quote : List ℕ → String) (m : Migration) (rule : LintRule) (stmt : List Char) :
    String :=
  m.label ++ ": " ++ rule.why ++ " in " ++ quote (abbreviate stmt) ++
    "; make it compatible, or mark the file -- argus:breaking (or -- argus:compatible <reason> " ++
    "after review)"

def lint (quote : List ℕ → String) (lowering : Lowering) (m : Migration) : List String :=
  if m.version = 1 || m.breaking || declares m.sql "argus:compatible" then []
  else (statements lowering m.sql.toList).flatMap fun stmt =>
    (lintRules.filter (·.applies stmt)).map fun rule => problem quote m rule stmt

theorem lint_ne_nil {quote : List ℕ → String} {lowering : Lowering} {m : Migration}
    (hversion : m.version ≠ 1) (hbreaking : m.breaking = false)
    (hcompatible : declares m.sql "argus:compatible" = false) {stmt : List Char}
    (hstmt : stmt ∈ statements lowering m.sql.toList) (rule : LintRule) (hrule : rule ∈ lintRules)
    (happlies : rule.applies stmt = true) : lint quote lowering m ≠ [] := by
  unfold lint
  rw [if_neg (by simp [hversion, hbreaking, hcompatible])]
  have hmem : problem quote m rule stmt ∈
      (lintRules.filter (·.applies stmt)).map fun rule => problem quote m rule stmt :=
    List.mem_map_of_mem (List.mem_filter.mpr ⟨hrule, happlies⟩)
  exact List.ne_nil_of_mem (List.mem_flatMap.mpr ⟨stmt, hstmt, hmem⟩)

end Argus.Migrations

import Argus.Migrations.LintSound

/-!
# The column rules of the lint

A migration that drops a column, or adds one that is required and has no default, breaks older
builds. The lint reports it when its statement is written plainly. Three ways to write one go
unseen: a type with a comma, a column named like a relaxation, and a comma right before `DROP`.
-/

namespace Argus.Migrations

open Sql (Alteration Mark Token key words)

/-- Some statement of the text has an action that drops a column, or adds a required one without a
default. -/
def BreaksColumns (sql : List Char) : Prop :=
  ∃ ms ∈ Sql.statements sql, ∃ a : Alteration, a.In (Sql.tokens ms) ∧
    ((∃ ifExists column, Sql.DropsColumn a.action ifExists column) ∨
      ∃ column type, Sql.AddsRequired a.action column type)

/-- A lower-case column name that does not read like a constraint, a default, an identity or an
expression. -/
def unmistakable (name : List Char) : Bool :=
  name ≠ "constraint".toList && !"default".toList.isPrefixOf name &&
    !"identity".toList.isPrefixOf name && !"expression".toList.isPrefixOf name

/-- An action that is written so that the lint can see it. -/
def PlainlyBreaks (lowering : Lowering) (a : Alteration) : Prop :=
  (∃ ifExists column, Sql.DropsColumn a.action ifExists column ∧
    a.before.getLast? = some .space ∧
    (ifExists = false → unmistakable (column.map lowering.lower) = true)) ∨
  ∃ column type, Sql.AddsRequired a.action column type ∧ .symbol ',' ∉ type ∧
    key "default" ∉ a.action

theorem droppable_of_unmistakable {lowering : Lowering} {column : List Char}
    (hidentifier : Sql.IsIdentifier column) (hwf : (Token.word column).Wf)
    (hsolid : Solid (.word column)) (h : unmistakable (column.map lowering.lower) = true) :
    Droppable (column.map lowering.lower) := by
  have hreserved : ∀ s ∈ Sql.reserved,
      (s.toList.all fun c => c.toNat < 128 && c != 'i' && c != 'k') = true →
      column.map lowering.lower ≠ s.toList := by
    intro s hs hletters heq
    have hcolumn := eq_of_map_lower_eq (fun c hc => (hwf.2 c hc).2) hletters heq
    refine hidentifier.2 ?_
    rw [hcolumn, String.ofList_toList]
    exact hs
  simp only [unmistakable, Bool.and_eq_true, decide_eq_true_eq, Bool.not_eq_true'] at h
  obtain ⟨⟨⟨hconstraint, hdefault⟩, hidentity⟩, hexpression⟩ := h
  exact ⟨blank_not_mem_word hsolid, hreserved "column" (by decide) (by decide), hconstraint,
    hreserved "not" (by decide) (by decide), hdefault, hidentity, hexpression⟩

/-- Lower case of ASCII letters only. -/
def asciiLowering : Lowering where
  lower := Char.toLower
  ascii _ _ := rfl
  other _ h := .inl (by rwa [Sql.toLower_of_not_ascii h])
  space c _ := isSpace_toLower c

/-- The second migration, with a text. -/
def secondMigration (sql : String) : Migration :=
  ⟨2, "columns", sql, checksum sql, declaresBreaking sql⟩

/-- `ALTER TABLE t`, with white space after it. -/
def alterTable : List Token := [key "alter", .space, key "table", .space, .word ['t'], .space]

private theorem breaksColumns_of_first {sql : List Char} {a : Alteration}
    (hfirst : (Sql.statements sql).head?.map Sql.tokens = some (a.before ++ (a.action ++ a.after)))
    (hspace : a.action.head? ≠ some .space)
    (hopening : words a.before = Sql.header false false ['t'] ∨
      ∃ earlier, words a.before = Sql.header false false ['t'] ++ earlier ++ [.symbol ','] ∧
        Sql.depth earlier = 0)
    (hclosing : a.after = [])
    (hbreaks : (∃ ifExists column, Sql.DropsColumn a.action ifExists column) ∨
      ∃ column type, Sql.AddsRequired a.action column type) : BreaksColumns sql := by
  obtain ⟨ms, hms, heq⟩ := Option.map_eq_some_iff.mp hfirst
  refine ⟨ms, List.mem_of_mem_head? hms, a, ⟨heq, hspace, ?_, ?_⟩, hbreaks⟩
  · exact ⟨false, false, ['t'], ⟨by decide, by decide⟩, hopening⟩
  · rw [hclosing]
    exact .inl rfl

/-- A migration without directives that the lint should report and does not. -/
def Unseen (sql : String) : Prop :=
  BreaksColumns sql.toList ∧ declares sql "argus:breaking" = false ∧
    declares sql "argus:compatible" = false ∧
    lint (fun _ => "") asciiLowering (secondMigration sql) = []

end Argus.Migrations

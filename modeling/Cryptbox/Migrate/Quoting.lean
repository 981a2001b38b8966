import Cryptbox.Migrate.Statements

/-!
# Quoting is not escaped from

An identifier of a sweep table stands in its statements between double quotes, with its own
doubled. Whatever it holds, it is read back as it is, and what follows it is read as before: the
tokens of each statement are those of its skeleton, and its placeholders outside identifiers are
the ones that `Params::next` issued.

* `SweepTable.issues_selectFirst` and the like: the placeholders of the statements.
* `quoting`: identifiers, tokens and placeholders.
-/

namespace Cryptbox

open Base.Sql

theorem placeholderTexts_doubled (identifier rest : List Char) :
    placeholderTexts true (doubled identifier ++ doubleQuote :: rest) =
      placeholderTexts false rest := by
  induction identifier with
  | nil => rfl
  | cons c identifier ih =>
    rw [doubled_cons, List.append_assoc]
    by_cases hc : c = doubleQuote
    · subst hc
      exact ih
    · have hOther : c ≠ '\x22' := hc
      rw [if_neg hc, List.singleton_append, placeholderTexts, if_neg hOther, if_pos rfl, ih]

/-- No placeholder stands in an identifier. -/
theorem issues_quoteIdentifier (identifier : String) : Issues (quoteIdentifier identifier) [] where
  noDigit := by
    rw [← List.append_nil (quoteIdentifier identifier).toList, toList_quoteIdentifier]
    exact noDigit_cons rfl _
  texts_append := by
    intro rest _
    rw [toList_quoteIdentifier]
    exact placeholderTexts_doubled identifier.toList rest

/-! ## Placeholders -/

theorem issues_param (style : ParamStyle) (count : Nat) :
    Issues (style.param count) [style.param count] := by
  cases style with
  | question => exact issues_question
  | dollar => exact issues_dollar count

/-- The placeholders that `count` calls of `Params::next` issue. -/
def issued (style : ParamStyle) (count : Nat) : List String :=
  (((List.range count).mapM fun _ => Params.next).run style.params).1

theorem issued_eq (style : ParamStyle) (count : Nat) :
    issued style count = (List.range' 1 count).map style.param := by
  have hRun {α : Type} (calls : List α) (first : Nat) :
      (calls.mapM fun _ => Params.next).run ⟨style, first⟩ =
        ((List.range' (first + 1) calls.length).map style.param,
          ⟨style, first + calls.length⟩) := by
    induction calls generalizing first with
    | nil => rfl
    | cons call calls ih =>
      rw [List.mapM_cons]
      show (style.param (first + 1)
          :: ((calls.mapM fun _ => Params.next).run ⟨style, first + 1⟩).1,
        ((calls.mapM fun _ => Params.next).run ⟨style, first + 1⟩).2) = _
      have hCount : first + 1 + calls.length = first + (calls.length + 1) := by omega
      rw [ih, List.length_cons, List.range'_succ, List.map_cons, hCount]
  have := congrArg Prod.fst (hRun (List.range count) 0)
  rwa [List.length_range] at this

/-- Columns with one placeholder each. -/
theorem issues_columns {style : ParamStyle} {text : String × Nat → String}
    (hText : ∀ column, Issues (text column) [style.param column.2]) (columns : List String)
    (first : Nat) :
    List.Forall₂ Issues ((columns.zipIdx first).map text)
      (((List.range' first columns.length).map style.param).map fun param => [param]) := by
  induction columns generalizing first with
  | nil => exact .nil
  | cons column columns ih =>
    rw [List.zipIdx_cons, List.length_cons, List.range'_succ, List.map_cons, List.map_cons,
      List.map_cons]
    exact .cons (hText (column, first)) (ih (first + 1))

theorem issues_assignment (style : ParamStyle) (column : String × Nat) :
    Issues (quoteIdentifier column.1 ++ " = " ++ style.param column.2) [style.param column.2] := by
  have hEquals : Issues " = " [] := .plain rfl
  exact ((issues_quoteIdentifier column.1).append hEquals).append (issues_param style column.2)

theorem issues_guard (style : ParamStyle) (column : String × Nat) :
    Issues (style.guard (quoteIdentifier column.1) (style.param column.2))
      [style.param column.2] := by
  cases style with
  | dollar => exact issues_assignment .dollar column
  | question =>
    have hCast : Issues "CAST(" [] := .plain rfl
    have hBlob : Issues " AS BLOB) = " [] := .plain rfl
    exact ((hCast.append (issues_quoteIdentifier column.1)).append hBlob).append issues_question

/-! ## Statements -/

namespace SweepTable

variable (t : SweepTable) (style : ParamStyle)

/-- The part of a `SELECT` up to the table has no placeholder. -/
theorem issues_selectFrom : Issues ("SELECT " ++ (quoteIdentifier t.cursorColumn ++ ", "
    ++ ", ".intercalate (t.columns.map quoteIdentifier)) ++ " FROM " ++ quoteIdentifier t.table)
    [] := by
  have hSelect : Issues "SELECT " [] := .plain rfl
  have hComma : Issues ", " [] := .plain rfl
  have hFrom : Issues " FROM " [] := .plain rfl
  have hNames (names : List String) : Issues (", ".intercalate (names.map quoteIdentifier)) [] := by
    have hItems : List.Forall₂ Issues (names.map quoteIdentifier) (names.map fun _ => []) := by
      induction names with
      | nil => exact .nil
      | cons name names ih => exact .cons (issues_quoteIdentifier name) ih
    have hFlatten : (names.map fun _ => ([] : List String)).flatten = [] := by simp
    exact hFlatten ▸ hComma.intercalate hItems
  have hList := ((issues_quoteIdentifier t.cursorColumn).append hComma).append (hNames t.columns)
  exact ((hSelect.append hList).append hFrom).append (issues_quoteIdentifier t.table)

theorem issues_selectFirst : Issues (t.sql style).selectFirst [style.param 1] := by
  have hOrder : Issues " ORDER BY " [] := .plain rfl
  have hLimit : Issues " LIMIT " [] := .plain rfl
  have hCursor := (t.issues_selectFrom.append hOrder).append (issues_quoteIdentifier t.cursorColumn)
  exact (hCursor.append hLimit).append (issues_param style 1)

theorem issues_selectAfter :
    Issues (t.sql style).selectAfter [style.param 1, style.param 2] := by
  have hWhere : Issues " WHERE " [] := .plain rfl
  have hGreater : Issues " > " [] := .plain rfl
  have hSpace : Issues " " [] := .plain rfl
  have hOrder : Issues "ORDER BY " [] := .plain rfl
  have hLimit : Issues " LIMIT " [] := .plain rfl
  have hCursor := (t.issues_selectFrom.append hWhere).append (issues_quoteIdentifier t.cursorColumn)
  have hAfter := ((hCursor.append hGreater).append (issues_param style 1)).append hSpace
  have hEnd := (hOrder.append (issues_quoteIdentifier t.cursorColumn)).append hLimit
  exact hAfter.append (hEnd.append (issues_param style 2))

/-- The assignments, the cursor and the guards have the placeholders in this order. -/
theorem issues_update : Issues (t.sql style).update
    ((List.range' 1 (2 * t.indexColumns.length + 3)).map style.param) := by
  have hUpdate : Issues "UPDATE " [] := .plain rfl
  have hSet : Issues " SET " [] := .plain rfl
  have hWhere : Issues " WHERE " [] := .plain rfl
  have hComma : Issues ", " [] := .plain rfl
  have hAnd : Issues " AND " [] := .plain rfl
  have hSingles (params : List String) : (params.map fun param => [param]).flatten = params := by
    rw [← List.flatMap_def]
    exact List.flatMap_singleton' params
  have hAssigned := hComma.intercalate (issues_columns (issues_assignment style) t.columns 1)
  have hGuards := hAnd.intercalate (.cons
    (issues_assignment style (t.cursorColumn, t.columns.length + 1))
    (issues_columns (issues_guard style) t.columns (t.columns.length + 2)))
  rw [hSingles] at hAssigned
  rw [List.flatten_cons, hSingles] at hGuards
  have hTable := (hUpdate.append (issues_quoteIdentifier t.table)).append hSet
  have hText := ((hTable.append hAssigned).append hWhere).append hGuards
  have hCount : 2 * t.indexColumns.length + 3 = t.columns.length + (t.columns.length + 1) := by
    rw [columns, List.length_cons]
    omega
  have hParams : (List.range' 1 (2 * t.indexColumns.length + 3)).map style.param
      = (List.range' 1 t.columns.length).map style.param
        ++ ([style.param (t.columns.length + 1)]
          ++ (List.range' (t.columns.length + 2) t.columns.length).map style.param) := by
    rw [hCount, ← List.range'_append_1, List.map_append, List.range'_succ, List.map_cons,
      Nat.add_comm 1 t.columns.length]
    rfl
  simp only [List.nil_append, List.append_nil] at hText
  rw [update_eq, hParams]
  exact hText

theorem issues_loadCheckpoint : Issues (t.sql style).loadCheckpoint [style.param 1] := by
  have hSelect : Issues "SELECT last_id FROM " [] := .plain rfl
  have hWhere : Issues " WHERE name = " [] := .plain rfl
  have hTable := (hSelect.append (issues_quoteIdentifier t.progressTable)).append hWhere
  rw [loadCheckpoint_eq, ← String.append_assoc]
  exact hTable.append (issues_param style 1)

theorem issues_saveCheckpoint :
    Issues (t.sql style).saveCheckpoint [style.param 1, style.param 2] := by
  have hInsert : Issues "INSERT INTO " [] := .plain rfl
  have hValues : Issues " (name, last_id) VALUES (" [] := .plain rfl
  have hComma : Issues ", " [] := .plain rfl
  have hConflict : Issues ") ON CONFLICT (name) DO UPDATE SET last_id = EXCLUDED.last_id" [] :=
    .plain rfl
  have hTable := (hInsert.append (issues_quoteIdentifier t.progressTable)).append hValues
  have hName := (hTable.append (issues_param style 1)).append hComma
  have hSql : (t.sql style).saveCheckpoint = "INSERT INTO " ++ quoteIdentifier t.progressTable
      ++ " (name, last_id) VALUES (" ++ style.param 1 ++ ", " ++ style.param 2
      ++ ") ON CONFLICT (name) DO UPDATE SET last_id = EXCLUDED.last_id" := by
    rw [saveCheckpoint_eq]
    simp only [String.append_assoc]
    rfl
  rw [hSql]
  exact (hName.append (issues_param style 2)).append hConflict

theorem issues_createProgress : Issues (t.sql style).createProgress [] := by
  have hCreate : Issues "CREATE TABLE IF NOT EXISTS " [] := .plain rfl
  have hSpace : Issues " " [] := .plain rfl
  have hColumns : Issues "(name TEXT PRIMARY KEY, last_id BIGINT NOT NULL)" [] :=
    .plain rfl
  exact ((hCreate.append (issues_quoteIdentifier t.progressTable)).append hSpace).append hColumns

end SweepTable

/-- The tokens of a text, and the calls of `Params::next` that issued its placeholders outside
identifiers. -/
structure StatementText (style : ParamStyle) (text : String) (tokens : List Token) (count : Nat) :
    Prop where
  lex_text : lex text = some tokens
  placeholders : placeholderTexts false text.toList = issued style count

theorem statementText_of_issues {style : ParamStyle} {text : String} {tokens : List Token}
    {count : Nat} (h : Issues text ((List.range' 1 count).map style.param))
    (hLex : lex text = some tokens) : StatementText style text tokens count :=
  ⟨hLex, h.placeholderTexts_eq.trans (issued_eq style count).symm⟩

/-- The statements of a sweep table, with its identifiers in their places. -/
structure SweepTable.SqlTexts (t : SweepTable) (style : ParamStyle) : Prop where
  selectFirst : StatementText style (t.sql style).selectFirst
    (Statement.select (t.cursorColumn :: t.columns) t.table none t.cursorColumn 1).tokens 1
  selectAfter : StatementText style (t.sql style).selectAfter
    (Statement.select (t.cursorColumn :: t.columns) t.table (some (t.cursorColumn, 1))
      t.cursorColumn 2).tokens 2
  update : StatementText style (t.sql style).update
    (Statement.update t.table t.assignments (t.condition style)).tokens
    (2 * t.indexColumns.length + 3)
  loadCheckpoint : StatementText style (t.sql style).loadCheckpoint [.word "SELECT",
    .word "last_id", .word "FROM", .identifier t.progressTable, .word "WHERE", .word "name",
    .symbol '=', .param 1] 1
  saveCheckpoint : StatementText style (t.sql style).saveCheckpoint [.word "INSERT",
    .word "INTO", .identifier t.progressTable, .symbol '(', .word "name", .symbol ',',
    .word "last_id", .symbol ')', .word "VALUES", .symbol '(', .param 1, .symbol ',', .param 2,
    .symbol ')', .word "ON", .word "CONFLICT", .symbol '(', .word "name", .symbol ')', .word "DO",
    .word "UPDATE", .word "SET", .word "last_id", .symbol '=', .word "EXCLUDED", .symbol '.',
    .word "last_id"] 2
  createProgress : StatementText style (t.sql style).createProgress [.word "CREATE",
    .word "TABLE", .word "IF", .word "NOT", .word "EXISTS", .identifier t.progressTable,
    .symbol '(', .word "name", .word "TEXT", .word "PRIMARY", .word "KEY", .symbol ',',
    .word "last_id", .word "BIGINT", .word "NOT", .word "NULL", .symbol ')'] 0

theorem SweepTable.sqlTexts (t : SweepTable) (style : ParamStyle) : t.SqlTexts style where
  selectFirst := statementText_of_issues (t.issues_selectFirst style) (t.lex_selectFirst style)
  selectAfter := statementText_of_issues (t.issues_selectAfter style) (t.lex_selectAfter style)
  update := statementText_of_issues (t.issues_update style) (t.lex_update style)
  loadCheckpoint :=
    statementText_of_issues (t.issues_loadCheckpoint style) (t.lex_loadCheckpoint style)
  saveCheckpoint :=
    statementText_of_issues (t.issues_saveCheckpoint style) (t.lex_saveCheckpoint style)
  createProgress :=
    statementText_of_issues (t.issues_createProgress style) (t.lex_createProgress style)

/-- **Quoting** is not escaped from, in any identifier of any table. -/
theorem quoting :
    (∀ (identifier : String) (rest : List Char), rest.head? ≠ some doubleQuote →
      lexIdentifier ((quoteIdentifier identifier).toList ++ rest) = some (identifier, rest)) ∧
    Function.Injective quoteIdentifier ∧
    ∀ (t : SweepTable) (style : ParamStyle), t.SqlTexts style := by
  refine ⟨?_, quoteIdentifier_injective, SweepTable.sqlTexts⟩
  intro identifier rest hRest
  exact lexIdentifier_quoteIdentifier identifier hRest

end Cryptbox

import Cryptbox.Base.Sql.Client
import Cryptbox.Base.Sql.Quoting
import Cryptbox.Migrate.Table

/-!
# The statements of a sweep table

The texts of `SweepTable::sql` (`migrate/table.rs`), token by token. A quoted identifier is read
as the identifier whatever characters it holds, so the columns of a statement are those of the
table, and its placeholders are numbered from one in the order of the text in both styles.

* `lexIdentifier_quoteIdentifier`: an identifier is read back, up to its closing quote.
* `SweepTable.lex_selectFirst`, `SweepTable.lex_selectAfter`, `SweepTable.lex_update`: the
  statements over the table.
* `SweepTable.lex_loadCheckpoint`, `SweepTable.lex_saveCheckpoint`,
  `SweepTable.lex_createProgress`: those over the progress table.
-/

namespace Cryptbox

open Base.Sql

/-! ## Identifiers and placeholders -/

/-- The doubled quotes are read as one, up to the first that is not doubled. -/
theorem lexQuoted_doubled (identifier : List Char) {rest : List Char}
    (hRest : rest.head? ≠ some doubleQuote) :
    lexQuoted (doubled identifier ++ doubleQuote :: rest) = some (identifier, rest) := by
  induction identifier with
  | nil => exact lexQuoted_close hRest
  | cons c identifier ih =>
    rw [doubled_cons, List.append_assoc]
    by_cases hc : c = doubleQuote
    · subst hc
      show lexQuoted (doubleQuote :: doubleQuote :: (doubled identifier ++ doubleQuote :: rest)) = _
      exact (lexQuoted_double _).trans (by rw [ih]; rfl)
    · rw [if_neg hc, List.singleton_append, lexQuoted_other hc, ih]
      rfl

theorem toList_quoteIdentifier (identifier : String) (rest : List Char) :
    (quoteIdentifier identifier).toList ++ rest =
      doubleQuote :: (doubled identifier.toList ++ doubleQuote :: rest) := by
  have hInner : (String.ofList (doubled identifier.toList)).toList = doubled identifier.toList :=
    String.toList_ofList
  rw [quoteIdentifier, String.toList_append, String.toList_append, hInner, List.append_assoc,
    List.append_assoc]
  rfl

/-- **An identifier is read back**, up to its closing quote, whatever it holds. -/
theorem lexIdentifier_quoteIdentifier (identifier : String) {rest : List Char}
    (hRest : rest.head? ≠ some doubleQuote) :
    lexIdentifier ((quoteIdentifier identifier).toList ++ rest) = some (identifier, rest) := by
  have hQuoted := congrArg (Option.map fun p : List Char × List Char => (String.ofList p.1, p.2))
    (lexQuoted_doubled identifier.toList hRest)
  rw [toList_quoteIdentifier]
  exact hQuoted.trans (by rw [Option.map_some, String.ofList_toList])

/-- A quoted identifier is read as the identifier. -/
theorem ends_quoteIdentifier (count : Nat) (name : String) :
    Ends count (quoteIdentifier name) [.identifier name] count := by
  have hRead : lexIdentifier ((quoteIdentifier name).toList ++ []) = some (name, []) :=
    lexIdentifier_quoteIdentifier name (by simp)
  obtain ⟨quoted, hText, hEnds⟩ := lexIdentifier_reads hRead
  have hQuoted : String.ofList quoted = quoteIdentifier name := by
    rw [← List.append_cancel_right hText, String.ofList_toList]
  exact hQuoted ▸ hEnds count

theorem ends_param (style : ParamStyle) (count : Nat) :
    Ends count (style.param (count + 1)) [.param (count + 1)] (count + 1) := by
  cases style with
  | question => exact ends_question count
  | dollar => exact ends_dollar (Nat.le_succ count)

/-- SQLite's guard casts the column. -/
def ParamStyle.casts : ParamStyle → Bool
  | .question => true
  | .dollar => false

/-! ## Pieces -/

theorem ends_assignment (style : ParamStyle) (count : Nat) (column : String) :
    Ends count (quoteIdentifier column ++ " = " ++ style.param (count + 1))
      (assignmentTokens (column, count + 1)) (count + 1) := by
  have hEquals : Reads count " = " [.symbol '='] count := fun before => rfl
  have hColumn := (ends_quoteIdentifier count column).append (.space rfl) hEquals
  exact hColumn.append (ends_param style count)

theorem ends_guard (style : ParamStyle) (count : Nat) (column : String) :
    Ends count (style.guard (quoteIdentifier column) (style.param (count + 1)))
      (Comparison.tokens ⟨column, style.casts, count + 1⟩) (count + 1) := by
  cases style with
  | dollar => exact ends_assignment .dollar count column
  | question =>
    have hCast : Reads count "CAST(" [.word "CAST", .symbol '('] count := fun before => rfl
    have hBlob : Reads count " AS BLOB) = "
        [.word "AS", .word "BLOB", .symbol ')', .symbol '='] count := fun before => rfl
    have hColumn := (hCast.append (ends_quoteIdentifier count column)).append
      (.space rfl) hBlob
    exact hColumn.append (ends_param .question count)

/-- Writes a text for each column, with the next placeholder. -/
def withParams (f : String → String → String) (columns : List String) :
    StateM Params (List String) :=
  columns.mapM fun column => do
    let param ← Params.next
    return f column param

/-- The placeholders that a loop over columns issues are numbered in their order. -/
theorem withParams_eq (style : ParamStyle) (f : String → String → String)
    (columns : List String) (count : Nat) :
    (withParams f columns).run ⟨style, count⟩
      = ((columns.zipIdx (count + 1)).map fun c => f c.1 (style.param c.2),
        ⟨style, count + columns.length⟩) := by
  induction columns generalizing count with
  | nil => rfl
  | cons column columns ih =>
    have hFirst : (withParams f (column :: columns)).run ⟨style, count⟩
        = (f column (style.param (count + 1)) :: ((withParams f columns).run ⟨style, count + 1⟩).1,
          ((withParams f columns).run ⟨style, count + 1⟩).2) := by
      unfold withParams
      rw [List.mapM_cons]
      rfl
    have hCount : count + 1 + columns.length = count + (column :: columns).length := by
      rw [List.length_cons]
      omega
    rw [hFirst, ih (count + 1), hCount]
    rfl

/-- Items with one placeholder each. -/
theorem items_columns (text : String × Nat → String) (tokens : String × Nat → List Token)
    (hItem : ∀ count column, Ends count (text (column, count + 1)) (tokens (column, count + 1))
      (count + 1)) (columns : List String) (count : Nat) :
    Items count ((columns.zipIdx (count + 1)).map text) ((columns.zipIdx (count + 1)).map tokens)
      (count + columns.length) := by
  induction columns generalizing count with
  | nil => exact .nil count
  | cons column columns ih =>
    have hRest := ih (count + 1)
    have hCount : count + 1 + columns.length = count + (column :: columns).length := by
      rw [List.length_cons]
      omega
    rw [hCount] at hRest
    rw [List.zipIdx_cons, List.map_cons, List.map_cons]
    exact .cons (hItem count column) hRest

/-! ## The statements over the table -/

namespace SweepTable

variable (t : SweepTable) (style : ParamStyle)

/-- The encrypted columns, in the order in which a store reads and binds them. -/
def columns : List String := t.ciphertextColumn :: t.indexColumns

theorem ends_columns (columns : List String) (column : String) (count : Nat) :
    Ends count (", ".intercalate ((column :: columns).map quoteIdentifier))
      (List.intercalate [.symbol ','] ((column :: columns).map columnTokens)) count := by
  have hItems (names : List String) :
      Items count (names.map quoteIdentifier) (names.map columnTokens) count := by
    induction names with
    | nil => exact .nil count
    | cons name names ih => exact .cons (ends_quoteIdentifier count name) ih
  exact (hItems (column :: columns)).intercalate ⟨',', _, rfl, rfl, by decide⟩
    fun _ _ => rfl

/-- The select list is the cursor and the encrypted columns. -/
theorem ends_selectList (count : Nat) :
    Ends count (quoteIdentifier t.cursorColumn ++ ", "
        ++ ", ".intercalate (t.columns.map quoteIdentifier))
      (List.intercalate [.symbol ','] ((t.cursorColumn :: t.columns).map columnTokens)) count := by
  have hAll := ends_columns t.columns t.cursorColumn count
  rwa [columns, List.map_cons, List.map_cons, String.intercalate_cons_cons, ← List.map_cons]
    at hAll

/-- The part of a `SELECT` up to the table. -/
theorem ends_selectFrom :
    Ends 0 ("SELECT " ++ (quoteIdentifier t.cursorColumn ++ ", "
        ++ ", ".intercalate (t.columns.map quoteIdentifier)) ++ " FROM "
        ++ quoteIdentifier t.table)
      (.word "SELECT" :: (List.intercalate [.symbol ',']
        ((t.cursorColumn :: t.columns).map columnTokens)
        ++ [.word "FROM", .identifier t.table])) 0 := by
  have hSelect : Reads 0 "SELECT " [.word "SELECT"] 0 := fun _ => rfl
  have hFrom : Reads 0 " FROM " [.word "FROM"] 0 := fun _ => rfl
  have hList := (hSelect.append (t.ends_selectList 0)).append (.space rfl) hFrom
  have hTable := hList.append (ends_quoteIdentifier 0 t.table)
  rwa [List.append_assoc, List.append_assoc] at hTable

theorem lex_selectFirst : lex (t.sql style).selectFirst
    = some (Statement.select (t.cursorColumn :: t.columns) t.table none
      t.cursorColumn 1).tokens := by
  have hOrder : Reads 0 " ORDER BY " [.word "ORDER", .word "BY"] 0 := fun _ => rfl
  have hLimit : Reads 0 " LIMIT " [.word "LIMIT"] 0 := fun _ => rfl
  have hText := (t.ends_selectFrom.append (.space rfl) hOrder).append
    (ends_quoteIdentifier 0 t.cursorColumn)
  have hText := (hText.append (.space rfl) hLimit).append (ends_param style 0)
  have hSql : (t.sql style).selectFirst = "SELECT " ++ (quoteIdentifier t.cursorColumn ++ ", "
      ++ ", ".intercalate (t.columns.map quoteIdentifier)) ++ " FROM " ++ quoteIdentifier t.table
      ++ " ORDER BY " ++ quoteIdentifier t.cursorColumn ++ " LIMIT " ++ style.param 1 := rfl
  rw [hSql, hText.lex]
  simp [Statement.tokens, afterTokens]

theorem lex_selectAfter : lex (t.sql style).selectAfter
    = some (Statement.select (t.cursorColumn :: t.columns) t.table (some (t.cursorColumn, 1))
      t.cursorColumn 2).tokens := by
  have hWhere : Reads 0 " WHERE " [.word "WHERE"] 0 := fun _ => rfl
  have hGreater : Reads 0 " > " [.symbol '>'] 0 := fun _ => rfl
  have hSpace : Reads 1 " " [] 1 := fun _ => rfl
  have hOrder : Reads 1 "ORDER BY " [.word "ORDER", .word "BY"] 1 := fun _ => rfl
  have hLimit : Reads 1 " LIMIT " [.word "LIMIT"] 1 := fun _ => rfl
  have hCursor := (t.ends_selectFrom.append (.space rfl) hWhere).append
    (ends_quoteIdentifier 0 t.cursorColumn)
  have hAfter := (hCursor.append (.space rfl) hGreater).append (ends_param style 0)
  have hEnd := (hOrder.append (ends_quoteIdentifier 1 t.cursorColumn)).append (.space rfl) hLimit
  have hText := (hAfter.append (.space rfl) hSpace).append (hEnd.append (ends_param style 1))
  have hSql : (t.sql style).selectAfter = "SELECT " ++ (quoteIdentifier t.cursorColumn ++ ", "
      ++ ", ".intercalate (t.columns.map quoteIdentifier)) ++ " FROM " ++ quoteIdentifier t.table
      ++ " WHERE " ++ quoteIdentifier t.cursorColumn ++ " > " ++ style.param 1 ++ " "
      ++ ("ORDER BY " ++ quoteIdentifier t.cursorColumn ++ " LIMIT " ++ style.param 2) := rfl
  rw [hSql, hText.lex]
  simp [Statement.tokens, afterTokens]

/-- The text of the `UPDATE`: assignments, the cursor and the guards have the placeholders in
this order. -/
theorem update_eq : (t.sql style).update = "UPDATE " ++ quoteIdentifier t.table ++ " SET "
    ++ ", ".intercalate ((t.columns.zipIdx 1).map fun c =>
      quoteIdentifier c.1 ++ " = " ++ style.param c.2) ++ " WHERE "
    ++ " AND ".intercalate
      ((quoteIdentifier t.cursorColumn ++ " = " ++ style.param (t.columns.length + 1))
      :: (t.columns.zipIdx (t.columns.length + 2)).map fun c =>
        style.guard (quoteIdentifier c.1) (style.param c.2)) := by
  let quoted := t.columns.map quoteIdentifier
  let assigned := (withParams (fun column param => column ++ " = " ++ param) quoted).run ⟨style, 0⟩
  have hSql : (t.sql style).update = "UPDATE " ++ quoteIdentifier t.table ++ " SET "
      ++ ", ".intercalate assigned.1 ++ " WHERE " ++ " AND ".intercalate
        ((quoteIdentifier t.cursorColumn ++ " = "
            ++ assigned.2.style.param (assigned.2.count + 1))
        :: ((withParams style.guard quoted).run
          ⟨assigned.2.style, assigned.2.count + 1⟩).1) := rfl
  have hLength : quoted.length = t.columns.length := List.length_map ..
  rw [hSql]
  simp only [assigned, withParams_eq, hLength, Nat.zero_add]
  simp only [quoted, List.zipIdx_map, List.map_map]
  rfl

/-- What the `UPDATE` assigns, with the numbers of the placeholders. -/
def assignments : List (String × Nat) := t.columns.zipIdx 1

/-- What the `UPDATE` compares. -/
def condition : List Comparison :=
  ⟨t.cursorColumn, false, t.columns.length + 1⟩
    :: (t.columns.zipIdx (t.columns.length + 2)).map fun c => ⟨c.1, style.casts, c.2⟩

theorem lex_update : lex (t.sql style).update
    = some (Statement.update t.table t.assignments (t.condition style)).tokens := by
  have hUpdate : Reads 0 "UPDATE " [.word "UPDATE"] 0 := fun _ => rfl
  have hSet : Reads 0 " SET " [.word "SET"] 0 := fun _ => rfl
  have hWhere (count : Nat) : Reads count " WHERE " [.word "WHERE"] count := fun _ => rfl
  have hComma (count : Nat) : Reads count ", " [.symbol ','] count := fun _ => rfl
  have hAnd (count : Nat) : Reads count " AND " [.word "AND"] count := fun _ => rfl
  have hAssigned := items_columns
    (fun c => quoteIdentifier c.1 ++ " = " ++ style.param c.2) assignmentTokens
    (ends_assignment style) t.columns 0
  have hGuards := items_columns
    (fun c => style.guard (quoteIdentifier c.1) (style.param c.2))
    (fun c => Comparison.tokens ⟨c.1, style.casts, c.2⟩) (ends_guard style) t.columns
    (t.columns.length + 1)
  simp only [Nat.zero_add] at hAssigned
  have hCursor := ends_assignment style t.columns.length t.cursorColumn
  have hTable := (hUpdate.append (ends_quoteIdentifier 0 t.table)).append (.space rfl) hSet
  have hSets := hTable.append (hAssigned.intercalate ⟨',', _, rfl, rfl, by decide⟩ hComma)
  have hText := (hSets.append (.space rfl) (hWhere t.columns.length)).append
    ((Items.cons hCursor hGuards).intercalate (.space rfl) hAnd)
  have hCondition : assignmentTokens (t.cursorColumn, t.columns.length + 1)
      :: (t.columns.zipIdx (t.columns.length + 1 + 1)).map
        (fun c => Comparison.tokens ⟨c.1, style.casts, c.2⟩)
      = (t.condition style).map Comparison.tokens := by
    rw [condition, List.map_cons, List.map_map]
    rfl
  rw [update_eq]
  refine hText.lex.trans ?_
  rw [hCondition]
  simp [Statement.tokens, assignments]

theorem params_update : (Statement.update t.table t.assignments (t.condition style)).params
    = List.range' 1 (2 * t.indexColumns.length + 3) := by
  have hAssigned : t.assignments.map Prod.snd = List.range' 1 t.columns.length :=
    List.zipIdx_map_snd ..
  have hCompared : (t.condition style).map Comparison.param
      = List.range' (t.columns.length + 1) (t.columns.length + 1) := by
    rw [condition, List.map_cons, List.map_map, List.range'_succ]
    exact congrArg (_ :: ·) (List.zipIdx_map_snd ..)
  have hCount : 2 * t.indexColumns.length + 3 = t.columns.length + (t.columns.length + 1) := by
    rw [columns, List.length_cons]
    omega
  rw [Statement.params, hAssigned, hCompared, hCount, Nat.add_comm t.columns.length 1,
    List.range'_append_1]

/-! ## The other statements -/

theorem lex_loadCheckpoint : lex (t.sql style).loadCheckpoint = some [.word "SELECT",
    .word "last_id", .word "FROM", .identifier t.progressTable, .word "WHERE", .word "name",
    .symbol '=', .param 1] := by
  have hSelect : Reads 0 "SELECT last_id FROM "
      [.word "SELECT", .word "last_id", .word "FROM"] 0 := .literal (by decide +kernel)
  have hWhere : Reads 0 " WHERE name = " [.word "WHERE", .word "name", .symbol '='] 0 :=
    .literal (by decide +kernel)
  have hName := (hSelect.append (ends_quoteIdentifier 0 t.progressTable)).append (.space rfl) hWhere
  have hText := hName.append (ends_param style 0)
  rw [loadCheckpoint_eq, ← String.append_assoc]
  exact hText.lex

theorem lex_saveCheckpoint : lex (t.sql style).saveCheckpoint = some ([.word "INSERT",
    .word "INTO", .identifier t.progressTable, .symbol '(', .word "name", .symbol ',',
    .word "last_id", .symbol ')', .word "VALUES", .symbol '(', .param 1, .symbol ',', .param 2,
    .symbol ')', .word "ON", .word "CONFLICT", .symbol '(', .word "name", .symbol ')', .word "DO",
    .word "UPDATE", .word "SET", .word "last_id", .symbol '=', .word "EXCLUDED", .symbol '.',
    .word "last_id"]) := by
  have hInsert : Reads 0 "INSERT INTO " [.word "INSERT", .word "INTO"] 0 := fun _ => rfl
  have hValues : Reads 0 " (name, last_id) VALUES (" [.symbol '(', .word "name", .symbol ',',
      .word "last_id", .symbol ')', .word "VALUES", .symbol '('] 0 := .literal (by decide +kernel)
  have hComma : Reads 1 ", " [.symbol ','] 1 := fun _ => rfl
  have hConflict : Ends 2 ") ON CONFLICT (name) DO UPDATE SET last_id = EXCLUDED.last_id"
      [.symbol ')', .word "ON", .word "CONFLICT", .symbol '(', .word "name", .symbol ')',
        .word "DO", .word "UPDATE", .word "SET", .word "last_id", .symbol '=', .word "EXCLUDED",
        .symbol '.', .word "last_id"] 2 := by
    apply Ends.literal
    · decide +kernel
    · decide +kernel
  have hTable := (hInsert.append (ends_quoteIdentifier 0 t.progressTable)).append (.space rfl)
    hValues
  have hName := (hTable.append (ends_param style 0)).append ⟨',', _, rfl, rfl, by decide⟩ hComma
  have hText := (hName.append (ends_param style 1)).append_ends ⟨')', _, rfl, rfl, by decide⟩
    hConflict
  have hSql : (t.sql style).saveCheckpoint = "INSERT INTO " ++ quoteIdentifier t.progressTable
      ++ " (name, last_id) VALUES (" ++ style.param 1 ++ ", " ++ style.param 2
      ++ ") ON CONFLICT (name) DO UPDATE SET last_id = EXCLUDED.last_id" := by
    rw [saveCheckpoint_eq]
    simp only [String.append_assoc]
    rfl
  rw [hSql, hText.lex]
  simp

theorem lex_createProgress : lex (t.sql style).createProgress = some [.word "CREATE",
    .word "TABLE", .word "IF", .word "NOT", .word "EXISTS", .identifier t.progressTable,
    .symbol '(', .word "name", .word "TEXT", .word "PRIMARY", .word "KEY", .symbol ',',
    .word "last_id", .word "BIGINT", .word "NOT", .word "NULL", .symbol ')'] := by
  have hCreate : Reads 0 "CREATE TABLE IF NOT EXISTS "
      [.word "CREATE", .word "TABLE", .word "IF", .word "NOT", .word "EXISTS"] 0 :=
    .literal (by decide +kernel)
  have hColumns : Reads 0 " (name TEXT PRIMARY KEY, last_id BIGINT NOT NULL)"
      [.symbol '(', .word "name", .word "TEXT", .word "PRIMARY", .word "KEY", .symbol ',',
        .word "last_id", .word "BIGINT", .word "NOT", .word "NULL", .symbol ')'] 0 :=
    .literal (by decide +kernel)
  have hText := (hCreate.append (ends_quoteIdentifier 0 t.progressTable)).append (.space rfl)
    hColumns
  have hSql : (t.sql style).createProgress = "CREATE TABLE IF NOT EXISTS "
      ++ quoteIdentifier t.progressTable
      ++ " (name TEXT PRIMARY KEY, last_id BIGINT NOT NULL)" := by
    show "CREATE TABLE IF NOT EXISTS " ++ quoteIdentifier t.progressTable ++ " "
      ++ "(name TEXT PRIMARY KEY, last_id BIGINT NOT NULL)" = _
    rw [String.append_assoc]
    rfl
  rw [hSql, hText.ends.lex]
  simp

end SweepTable

end Cryptbox

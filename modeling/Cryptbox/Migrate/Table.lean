import Mathlib.Logic.Function.Basic

/-!
# Sweep tables

`migrate/table.rs`: the tables, columns and checkpoint names a packaged store works on, and the
SQL it sends. Identifiers are written into the statements between double quotes; values go
through placeholders.

* `quoteIdentifier_injective`: different identifiers are written differently.
* `SweepTable.migrationName_new`: when two columns share the default name of a checkpoint.
-/

namespace Cryptbox

/-! ## Identifiers -/

def doubleQuote : Char := '\x22'

/-- Every double quote is written twice. -/
def doubled (identifier : List Char) : List Char :=
  identifier.flatMap fun c => if c = doubleQuote then [doubleQuote, doubleQuote] else [c]

def quoteIdentifier (identifier : String) : String :=
  "\"" ++ String.ofList (doubled identifier.toList) ++ "\""

theorem doubled_cons (c : Char) (cs : List Char) :
    doubled (c :: cs)
      = (if c = doubleQuote then [doubleQuote, doubleQuote] else [c]) ++ doubled cs :=
  List.flatMap_cons

theorem doubled_ne_nil {c : Char} {cs : List Char} : doubled (c :: cs) ≠ [] := by
  rw [doubled_cons]
  split
  · exact List.cons_ne_nil _ _
  · exact List.cons_ne_nil _ _

/-- The first character is that of the identifier, and so is the rest. -/
theorem doubled_injective : Function.Injective doubled := by
  intro a
  induction a with
  | nil =>
    intro b h
    cases b with
    | nil => rfl
    | cons d ds => exact absurd h.symm doubled_ne_nil
  | cons c cs ih =>
    intro b h
    cases b with
    | nil => exact absurd h doubled_ne_nil
    | cons d ds =>
      have hHead : c = d ∧ doubled cs = doubled ds := by
        rw [doubled_cons, doubled_cons] at h
        split at h
        · next hc =>
          split at h
          · next hd => exact ⟨hc.trans hd.symm, List.append_cancel_left h⟩
          · next hd => exact absurd (List.cons.inj h).1.symm hd
        · next hc =>
          split at h
          · next hd => exact absurd (List.cons.inj h).1 hc
          · exact List.cons.inj h
      obtain ⟨rfl, hRest⟩ := hHead
      rw [ih hRest]

theorem quoteIdentifier_injective : Function.Injective quoteIdentifier := by
  intro a b h
  have hInner := (String.append_right_inj _).mp ((String.append_left_inj _).mp h)
  exact String.toList_inj.mp (doubled_injective (String.ofList_injective hInner))

/-! ## Placeholders -/

inductive ParamStyle where
  /-- SQLite's `?`. -/
  | question
  /-- PostgreSQL's `$n`. -/
  | dollar
  deriving DecidableEq

structure Params where
  style : ParamStyle
  count : Nat

def ParamStyle.params (style : ParamStyle) : Params := ⟨style, 0⟩

/-- The placeholder with number `count`. -/
def ParamStyle.param (style : ParamStyle) (count : Nat) : String :=
  match style with
  | .question => "?"
  | .dollar => s!"${count}"

/-- Issues the next placeholder. -/
def Params.next : StateM Params String := fun params =>
  (params.style.param (params.count + 1), { params with count := params.count + 1 })

/-- Compares a stored column with the bytes that were loaded from it. SQLite loads a TEXT value
as its bytes, but the value equals no BLOB unless it is cast. -/
def ParamStyle.guard (style : ParamStyle) (column param : String) : String :=
  match style with
  | .question => s!"CAST({column} AS BLOB) = {param}"
  | .dollar => s!"{column} = {param}"

/-! ## Tables -/

structure SweepTable where
  table : String
  cursorColumn : String
  ciphertextColumn : String
  indexColumns : List String
  progressTable : String
  migrationName : String
  deriving DecidableEq

structure SweepSql where
  selectFirst : String
  selectAfter : String
  update : String
  loadCheckpoint : String
  saveCheckpoint : String
  createProgress : String
  migrationName : String
  indexCount : Nat

namespace SweepTable

/-- A table with the default progress table and the default name of its checkpoint. -/
def new (table cursorColumn ciphertextColumn : String) : SweepTable where
  table := table
  cursorColumn := cursorColumn
  ciphertextColumn := ciphertextColumn
  indexColumns := []
  progressTable := "cryptbox_migration_progress"
  migrationName := s!"{table}.{ciphertextColumn}"

def withIndexColumn (t : SweepTable) (column : String) : SweepTable :=
  { t with indexColumns := t.indexColumns ++ [column] }

def withProgress (t : SweepTable) (table migrationName : String) : SweepTable :=
  { t with progressTable := table, migrationName := migrationName }

def sql (t : SweepTable) (style : ParamStyle) : SweepSql :=
  let table := quoteIdentifier t.table
  let cursor := quoteIdentifier t.cursorColumn
  let progress := quoteIdentifier t.progressTable
  let columns := quoteIdentifier t.ciphertextColumn :: t.indexColumns.map quoteIdentifier
  let columnList := ", ".intercalate columns
  let selectList := s!"{cursor}, {columnList}"
  let build (statement : StateM Params String) : String := (statement.run style.params).1
  { selectFirst := build do
      let limit ← Params.next
      return s!"SELECT {selectList} FROM {table} ORDER BY {cursor} LIMIT {limit}"
    selectAfter := build do
      let after ← Params.next
      let limit ← Params.next
      return s!"SELECT {selectList} FROM {table} WHERE {cursor} > {after} " ++
        s!"ORDER BY {cursor} LIMIT {limit}"
    update := build do
      let assignments ← columns.mapM fun column => do
        let param ← Params.next
        return s!"{column} = {param}"
      let param ← Params.next
      let guards ← columns.mapM fun column => do
        let param ← Params.next
        return style.guard column param
      let predicates := s!"{cursor} = {param}" :: guards
      let assignmentList := ", ".intercalate assignments
      let condition := " AND ".intercalate predicates
      return s!"UPDATE {table} SET {assignmentList} WHERE {condition}"
    loadCheckpoint := build do
      let name ← Params.next
      return s!"SELECT last_id FROM {progress} WHERE name = {name}"
    saveCheckpoint := build do
      let name ← Params.next
      let cursor ← Params.next
      return s!"INSERT INTO {progress} (name, last_id) VALUES ({name}, {cursor}) " ++
        "ON CONFLICT (name) DO UPDATE SET last_id = EXCLUDED.last_id"
    createProgress := s!"CREATE TABLE IF NOT EXISTS {progress} " ++
      "(name TEXT PRIMARY KEY, last_id BIGINT NOT NULL)"
    migrationName := t.migrationName
    indexCount := t.indexColumns.length }

/-- The ciphertext and every index column are written and compared. -/
example : (((new "users" "id" "email_ciphertext").withIndexColumn "email_bidx").sql .dollar).update
    = "UPDATE \"users\" SET \"email_ciphertext\" = $1, \"email_bidx\" = $2 " ++
      "WHERE \"id\" = $3 AND \"email_ciphertext\" = $4 AND \"email_bidx\" = $5" := by
  decide +kernel

/-- Registering index columns changes nothing else. -/
theorem foldl_withIndexColumn (t : SweepTable) (columns : List String) :
    columns.foldl withIndexColumn t = { t with indexColumns := t.indexColumns ++ columns } := by
  induction columns generalizing t with
  | nil =>
    rw [List.foldl_nil, List.append_nil]
  | cons column columns ih =>
    rw [List.foldl_cons, ih, withIndexColumn, List.append_assoc]
    rfl

/-! ## The statements over a progress table -/

theorem loadCheckpoint_eq (t : SweepTable) (style : ParamStyle) :
    (t.sql style).loadCheckpoint = "SELECT last_id FROM " ++ quoteIdentifier t.progressTable
      ++ (" WHERE name = " ++ style.param 1) :=
  String.append_assoc ..

theorem saveCheckpoint_eq (t : SweepTable) (style : ParamStyle) :
    (t.sql style).saveCheckpoint = "INSERT INTO " ++ quoteIdentifier t.progressTable
      ++ (" (name, last_id) VALUES (" ++ style.param 1 ++ ", " ++ style.param 2
      ++ ") " ++ "ON CONFLICT (name) DO UPDATE SET last_id = EXCLUDED.last_id") := by
  have hText : (t.sql style).saveCheckpoint = "INSERT INTO " ++ quoteIdentifier t.progressTable
      ++ " (name, last_id) VALUES (" ++ style.param 1 ++ ", " ++ style.param 2
      ++ ") " ++ "ON CONFLICT (name) DO UPDATE SET last_id = EXCLUDED.last_id" := rfl
  rw [hText]
  simp only [String.append_assoc]

/-! ## Default names -/

/-- Two strings with a separator between them, and another such pair with the same text: the
separators are the same one, or one of the pairs splits the text at a later separator. -/
theorem append_cons_eq_append_cons {α : Type} {x : α} {a b c d : List α} :
    a ++ x :: b = c ++ x :: d ↔
      (a = c ∧ b = d) ∨ (∃ middle, c = a ++ x :: middle ∧ b = middle ++ x :: d) ∨
        ∃ middle, a = c ++ x :: middle ∧ d = middle ++ x :: b := by
  rw [List.append_eq_append_iff]
  constructor
  · rintro (⟨gap, hc, hb⟩ | ⟨gap, ha, hd⟩)
    · cases gap with
      | nil => exact Or.inl ⟨hc.trans (List.append_nil a) |>.symm, (List.cons.inj hb).2⟩
      | cons y middle =>
        obtain ⟨rfl, hRest⟩ := List.cons.inj hb
        exact Or.inr (Or.inl ⟨middle, hc, hRest⟩)
    · cases gap with
      | nil => exact Or.inl ⟨ha.trans (List.append_nil c), (List.cons.inj hd).2.symm⟩
      | cons y middle =>
        obtain ⟨rfl, hRest⟩ := List.cons.inj hd
        exact Or.inr (Or.inr ⟨middle, ha, hRest⟩)
  · rintro (⟨rfl, rfl⟩ | ⟨middle, rfl, rfl⟩ | ⟨middle, rfl, rfl⟩)
    · exact Or.inl ⟨[], (List.append_nil a).symm, rfl⟩
    · exact Or.inl ⟨x :: middle, rfl, rfl⟩
    · exact Or.inr ⟨x :: middle, rfl, rfl⟩

/-- The dotted text of `p` has a second dot, at which `q` splits it. -/
def Splits (p q : String × String) : Prop :=
  ∃ middle, q.1 = p.1 ++ "." ++ middle ∧ p.2 = middle ++ "." ++ q.2

theorem toList_dotted (a b : String) : (a ++ "." ++ b).toList = a.toList ++ '.' :: b.toList := by
  rw [String.toList_append, String.toList_append, List.append_assoc]
  rfl

theorem splits_iff {p q : String × String} : Splits p q ↔
    ∃ middle, q.1.toList = p.1.toList ++ '.' :: middle ∧
      p.2.toList = middle ++ '.' :: q.2.toList := by
  constructor
  · rintro ⟨middle, hTable, hColumn⟩
    refine ⟨middle.toList, ?_, ?_⟩
    · rw [hTable, toList_dotted]
    · rw [hColumn, toList_dotted]
  · rintro ⟨middle, hTable, hColumn⟩
    have hMiddle : (String.ofList middle).toList = middle := String.toList_ofList
    refine ⟨String.ofList middle, String.toList_inj.mp ?_, String.toList_inj.mp ?_⟩
    · rw [hTable, toList_dotted, hMiddle]
    · rw [hColumn, toList_dotted, hMiddle]

/-- Columns of one table never do. -/
theorem not_splits_of_table {p q : String × String} (hTable : p.1 = q.1) : ¬ Splits p q := by
  intro h
  obtain ⟨middle, hDotted, -⟩ := splits_iff.mp h
  rw [hTable] at hDotted
  cases List.self_eq_append_right.mp hDotted

/-- **When two columns share the default name of a checkpoint**: they are the same, or their
names split one dotted text at two of its dots. -/
theorem migrationName_new (p q : String × String) (cursor cursor' : String) :
    (new p.1 cursor p.2).migrationName = (new q.1 cursor' q.2).migrationName ↔
      p = q ∨ Splits p q ∨ Splits q p := by
  have hName (r : String × String) (cursor : String) :
      (new r.1 cursor r.2).migrationName.toList = r.1.toList ++ '.' :: r.2.toList :=
    toList_dotted r.1 r.2
  rw [← String.toList_inj, hName, hName, append_cons_eq_append_cons, ← splits_iff, ← splits_iff,
    String.toList_inj, String.toList_inj, Prod.ext_iff]

end SweepTable

end Cryptbox

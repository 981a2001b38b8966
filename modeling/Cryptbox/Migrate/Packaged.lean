import Cryptbox.Base.Sql.Memory
import Cryptbox.Migrate.Progress
import Cryptbox.Migrate.Statements

/-!
# The packaged stores

`migrate/sqlx_sqlite.rs` and `migrate/sqlx_postgres.rs`: the calls of `SweepStore` over a sweep
table, with the arguments they bind and the columns they read. The two stores differ in the style
of their placeholders and in how they read bytes. The database and its driver are parameters
(`Base.Sql.Client`) that behave as documented.

* `SweepTable.loadBatch_eq_ok`: a batch is read from the first rows after the cursor.
* `SweepTable.update_swaps`: the `UPDATE` is a compare-and-swap of all the encrypted columns.
* `SweepTable.implements`: the packaged stores implement the contract of `SweepStore`.
-/

namespace Cryptbox

open Base Base.Sql

variable {D V : Type}

/-! ## The calls -/

def i64Max : Nat := 2 ^ 63 - 1

section

variable (client : Client D)

/-- The bytes in a column. SQLite decodes NULL as empty bytes, which the update could never
match, so that it is rejected here. -/
def ParamStyle.bytes (style : ParamStyle) (row : client.Row) (index : Nat) :
    Except client.Error Bytes :=
  match style with
  | .question => do
    match ← client.tryGetOptionalBytes row index with
    | some bytes => .ok bytes
    | none => .error (client.unexpectedNull index)
  | .dollar => client.tryGetBytes row index

namespace SweepTable

/-- `i64::try_from(limit).unwrap_or(i64::MAX)` -/
def toLimit (limit : Nat) : Nat := if limit ≤ i64Max then limit else i64Max

def loadBatchBinds (after : Option Int) (limit : Nat) : List Argument :=
  match after with
  | some after => [.integer after, .integer (toLimit limit)]
  | none => [.integer (toLimit limit)]

def updateBinds (row : SweepRow Int Unit) (replacement : RowWrite) : List Argument :=
  .blob replacement.ciphertext :: replacement.indexes.map .blob
    ++ .integer row.cursor :: .blob row.ciphertext :: row.indexes.map .blob

variable (t : SweepTable) (style : ParamStyle)

/-- The text of `load_batch`. -/
def loadBatchSql (after : Option Int) : String :=
  if after.isSome then (t.sql style).selectAfter else (t.sql style).selectFirst

/-- The body of the loop of `load_batch`. -/
def readRow (row : client.Row) : Except client.Error (SweepRow Int Unit) := do
  let cursor ← client.tryGetInteger row 0
  let ciphertext ← style.bytes client row 1
  let indexes ← (List.range (t.sql style).indexCount).mapM fun position =>
    style.bytes client row (2 + position)
  return ⟨cursor, (), ciphertext, indexes⟩

def loadBatch (after : Option Int) (limit : Nat) (db : D) :
    Except client.Error (List (SweepRow Int Unit)) := do
  let rows ← client.fetchAll (t.loadBatchSql style after) (loadBatchBinds after limit) db
  rows.mapM (t.readRow client style)

/-- The database after the update is answered beside its result. -/
def update (row : SweepRow Int Unit) (replacement : RowWrite) (db : D) :
    Except client.Error (Bool × D) := do
  let (affected, db) ← client.execute (t.sql style).update (updateBinds row replacement) db
  return (affected == 1, db)

end SweepTable

/-- `SqliteSweepStore`. -/
def SqliteSweepStore.loadBatch (t : SweepTable) (after : Option Int) (limit : Nat) (db : D) :
    Except client.Error (List (SweepRow Int Unit)) := t.loadBatch client .question after limit db

def SqliteSweepStore.update (t : SweepTable) (row : SweepRow Int Unit) (replacement : RowWrite)
    (db : D) : Except client.Error (Bool × D) := t.update client .question row replacement db

/-- `PostgresSweepStore`. -/
def PostgresSweepStore.loadBatch (t : SweepTable) (after : Option Int) (limit : Nat) (db : D) :
    Except client.Error (List (SweepRow Int Unit)) := t.loadBatch client .dollar after limit db

def PostgresSweepStore.update (t : SweepTable) (row : SweepRow Int Unit) (replacement : RowWrite)
    (db : D) : Except client.Error (Bool × D) := t.update client .dollar row replacement db

end

/-! ## What a table holds -/

section

variable {client : Client D} (storage : Storage client V)

/-- The bytes that the guard of the style compares. -/
def ParamStyle.held (style : ParamStyle) (value : V) : Option Bytes :=
  storage.blob (if style.casts then storage.castBlob value else value)

namespace SweepTable

variable (t : SweepTable)

/-- The names of the columns are different to the database, and so are the cursors, which are
integers. No database holds more rows than an `i64` counts. -/
structure Fits (db : D) : Prop where
  distinct : (t.cursorColumn :: t.columns).Pairwise fun a b => storage.same a b = false
  keyed : Keyed storage.integer t.cursorColumn (storage.rows db t.table)
  small : (storage.rows db t.table).length ≤ i64Max

/-- The row with the replacement in its columns. -/
structure Replaces (replacement : RowWrite) (old new : Row V) : Prop where
  written : List.Forall₂ (fun column bytes => storage.blob (new column) = some bytes) t.columns
    (replacement.ciphertext :: replacement.indexes)
  others : ∀ column, (∀ c ∈ t.columns, storage.same c column = false) → new column = old column

variable (style : ParamStyle)

/-- The encrypted columns of a row hold these bytes. -/
def Holds (ciphertext : Bytes) (indexes : List Bytes) (row : Row V) : Prop :=
  List.Forall₂ (fun column bytes => style.held storage (row column) = some bytes) t.columns
    (ciphertext :: indexes)

/-- The row of the table with the bytes of its columns, unless one holds none. -/
def storedRow (row : Row V) : Option (StoredRow Unit) := do
  let ciphertext ← style.held storage (row t.ciphertextColumn)
  let indexes ← t.indexColumns.mapM fun column => style.held storage (row column)
  return ⟨(), ciphertext, indexes⟩

/-- The row at a cursor, with all its columns. -/
def row (db : D) : Int → Option (Row V) :=
  lookup storage.integer t.cursorColumn (storage.rows db t.table)

/-- The rows of the table by their cursors. -/
def stored (db : D) (cursor : Int) : Option (StoredRow Unit) :=
  (t.row storage db cursor).bind (t.storedRow storage style)

/-- The row at the cursor holds the bytes that were loaded. -/
def Matches (loaded : SweepRow Int Unit) (row : Row V) : Prop :=
  storage.integer (row t.cursorColumn) = some loaded.cursor ∧
    t.Holds storage style loaded.ciphertext loaded.indexes row

/-- A row that matched gets the replacement, and any other stays as it is. -/
def Swapped (loaded : SweepRow Int Unit) (replacement : RowWrite) (old new : Row V) : Prop :=
  (t.Matches storage style loaded old ∧ t.Replaces storage replacement old new) ∨
    (¬ t.Matches storage style loaded old ∧ new = old)

/-- **A compare-and-swap of all the encrypted columns.** -/
structure Swaps (loaded : SweepRow Int Unit) (replacement : RowWrite) (db : D) (updated : Bool)
    (db' : D) : Prop where
  /-- It answers whether a row at the cursor holds the bytes that were loaded. -/
  updated_iff : updated = true ↔
    ∃ row ∈ storage.rows db t.table, t.Matches storage style loaded row
  rows : ∃ after, (storage.rows db' t.table).Perm after ∧
    List.Forall₂ (t.Swapped storage style loaded replacement) (storage.rows db t.table) after
  others : ∀ name, storage.same name t.table = false → storage.rows db' name = storage.rows db name

/-- The driver reads the row as `loaded`. -/
structure Loads (row : Row V) (loaded : SweepRow Int Unit) : Prop where
  cursor : storage.decodeInteger (row t.cursorColumn) = some loaded.cursor
  bytes : List.Forall₂ (fun column bytes => storage.decodeBytes (row column) = some bytes) t.columns
    (loaded.ciphertext :: loaded.indexes)

end SweepTable

end

section

variable {client : Client D} {storage : Storage client V} {style : ParamStyle}

/-! ## Values -/

section

variable {texts : Bool} (hStorage : storage.Documented texts)

include hStorage

/-- A value equals bytes in the guard when it holds them. -/
theorem ParamStyle.equals_iff (style : ParamStyle) (value : V) (bytes : Bytes) :
    storage.equals (if style.casts then storage.castBlob value else value) (.blob bytes) = true
      ↔ style.held storage value = some bytes :=
  hStorage.equals_blob _ _

theorem ParamStyle.held_blob (style : ParamStyle) {value : V} {bytes : Bytes}
    (h : storage.blob value = some bytes) : style.held storage value = some bytes := by
  cases style with
  | question => exact hStorage.castBlob value bytes (Or.inl h)
  | dollar => exact h

theorem decode_blob {value : V} {bytes : Bytes} (h : storage.blob value = some bytes) :
    storage.decodeBytes value = some bytes :=
  (hStorage.decodeBytes value bytes).mpr (Or.inl h)

theorem ParamStyle.bytes_eq_ok {row : client.Row} {index : Nat} {bytes : Bytes} :
    style.bytes client row index = .ok bytes ↔
      ∃ v, (storage.fetched row)[index]? = some v ∧ storage.decodeBytes v = some bytes := by
  cases style with
  | dollar => exact hStorage.tryGetBytes row index bytes
  | question =>
    rw [← hStorage.tryGetOptionalBytes]
    unfold ParamStyle.bytes
    rw [bind_eq_ok]
    constructor
    · rintro ⟨read, hRead, h⟩
      cases read with
      | some b => exact Except.ok.inj h ▸ hRead
      | none => cases h
    · intro hRead
      exact ⟨some bytes, hRead, rfl⟩

end

/-- What is read is what the guard compares. -/
theorem ParamStyle.held_of_decode (hStorage : storage.Documented style.casts) {value : V}
    {bytes : Bytes} (h : storage.decodeBytes value = some bytes) :
    style.held storage value = some bytes := by
  cases style with
  | question =>
    refine hStorage.castBlob value bytes ?_
    exact ((hStorage.decodeBytes value bytes).mp h).imp_right And.right
  | dollar =>
    rcases (hStorage.decodeBytes value bytes).mp h with hBlob | ⟨hTexts, -⟩
    · exact hBlob
    · cases hTexts

namespace SweepTable

variable {t : SweepTable} {row : Row V} {db db' : D}

/-! ## Loading -/

section

variable {texts : Bool} (hStorage : storage.Documented texts)

include hStorage

/-- The index columns are read from the positions after the ciphertext. -/
theorem readIndexes_eq_ok {r : client.Row}
    (hRow : storage.fetched r = (t.cursorColumn :: t.columns).map row) {indexes : List Bytes} :
    ((List.range t.indexColumns.length).mapM fun position =>
        style.bytes client r (2 + position)) = .ok indexes ↔
      List.Forall₂ (fun column bytes => storage.decodeBytes (row column) = some bytes)
        t.indexColumns indexes := by
  have hPosition (i : Nat) (hi : i < t.indexColumns.length) :
      (storage.fetched r)[2 + i]? = some (row (t.indexColumns.get ⟨i, hi⟩)) := by
    rw [hRow, Nat.add_comm]
    simp [columns, hi]
  rw [mapM_eq_ok, List.forall₂_iff_get, List.forall₂_iff_get]
  constructor
  · rintro ⟨hLength, hAll⟩
    refine ⟨by simpa using hLength, fun i hi hi' => ?_⟩
    have hRead := hAll i (by simpa using hi) hi'
    obtain ⟨value, hValue, hDecode⟩ := (ParamStyle.bytes_eq_ok hStorage).mp hRead
    rw [List.get_eq_getElem, List.getElem_range, hPosition i hi] at hValue
    exact Option.some.inj hValue ▸ hDecode
  · rintro ⟨hLength, hAll⟩
    refine ⟨by simpa using hLength, fun i hi hi' => ?_⟩
    have hi : i < t.indexColumns.length := by simpa using hi
    apply (ParamStyle.bytes_eq_ok hStorage).mpr
    rw [List.get_eq_getElem, List.getElem_range]
    exact ⟨_, hPosition i hi, hAll i hi hi'⟩

/-- **A row is read from the positions at which the columns were selected.** -/
theorem readRow_eq_ok {r : client.Row}
    (hRow : storage.fetched r = (t.cursorColumn :: t.columns).map row)
    {loaded : SweepRow Int Unit} :
    t.readRow client style r = .ok loaded ↔ t.Loads storage row loaded := by
  have hCursor (cursor : Int) : client.tryGetInteger r 0 = .ok cursor ↔
      storage.decodeInteger (row t.cursorColumn) = some cursor := by
    rw [hStorage.tryGetInteger, hRow]
    simp
  have hCiphertext (bytes : Bytes) : style.bytes client r 1 = .ok bytes ↔
      storage.decodeBytes (row t.ciphertextColumn) = some bytes := by
    rw [ParamStyle.bytes_eq_ok hStorage, hRow]
    simp [columns]
  unfold readRow
  simp only [bind_eq_ok, pure_eq_ok]
  constructor
  · rintro ⟨cursor, hC, ciphertext, hB, indexes, hI, rfl⟩
    exact ⟨(hCursor cursor).mp hC,
      .cons ((hCiphertext ciphertext).mp hB) ((readIndexes_eq_ok hStorage hRow).mp hI)⟩
  · rintro ⟨hC, hBytes⟩
    obtain ⟨hB, hI⟩ := List.forall₂_cons.mp hBytes
    exact ⟨_, (hCursor _).mpr hC, _, (hCiphertext _).mpr hB, _,
      (readIndexes_eq_ok hStorage hRow).mpr hI, rfl⟩

/-- **The rows that are fetched**: the first after the cursor, in the order of the cursors. A
limit beyond an `i64` is beyond the number of rows. -/
theorem fetchAll_rows (hFits : t.Fits storage db) {after : Option Int} {limit : Nat}
    {fetched : List client.Row} (hFetch : client.fetchAll (t.loadBatchSql style after)
      (loadBatchBinds after limit) db = .ok fetched) :
    List.Forall₂ (fun e r => storage.fetched r = (t.cursorColumn :: t.columns).map e.2)
      ((remaining (entries storage.integer t.cursorColumn (storage.rows db t.table)) after).take
        limit) fetched := by
  let found := remaining (entries storage.integer t.cursorColumn (storage.rows db t.table)) after
  have hTake : found.take (toLimit limit) = found.take limit := by
    have hFound : found.length ≤ i64Max := by
      have hLe := List.length_filter_le (fun e => decide (After after e.1))
        (entries storage.integer t.cursorColumn (storage.rows db t.table))
      rw [length_entries] at hLe
      exact hLe.trans hFits.small
    unfold toLimit
    split
    · rfl
    · next hLimit =>
      have hLimit : found.length ≤ limit := by omega
      rw [List.take_of_length_le hFound, List.take_of_length_le hLimit]
  have hColumns : t.cursorColumn :: t.columns ≠ [] := List.cons_ne_nil _ _
  have hPositive : (0 : Int) ≤ toLimit limit := Int.natCast_nonneg _
  rw [← show found.take (toLimit limit) = _ from hTake]
  cases after with
  | none =>
    have hTakes : (Statement.select (t.cursorColumn :: t.columns) t.table none t.cursorColumn
        1).Takes (loadBatchBinds none limit) := rfl
    exact hStorage.fetchAll_keyed hFits.keyed none 1
      (says_tokens (t.lex_selectFirst style) hColumns) hTakes (fun x hx => by cases hx) rfl
      hPositive hFetch
  | some cursor =>
    have hTakes : (Statement.select (t.cursorColumn :: t.columns) t.table
        (some (t.cursorColumn, 1)) t.cursorColumn 2).Takes
        (loadBatchBinds (some cursor) limit) := rfl
    have hBound : ∀ x ∈ some cursor,
        bound (loadBatchBinds (some cursor) limit) 1 = some (.integer x) :=
      fun x hx => congrArg (some ∘ Argument.integer) (Option.some.inj hx)
    exact hStorage.fetchAll_keyed hFits.keyed (some cursor) 1
      (says_tokens (t.lex_selectAfter style) hColumns) hTakes hBound rfl hPositive hFetch

/-- **A batch is read** from the rows that were fetched. -/
theorem loadBatch_eq_ok (hFits : t.Fits storage db) {after : Option Int} {limit : Nat}
    {fetched : List client.Row} (hFetch : client.fetchAll (t.loadBatchSql style after)
      (loadBatchBinds after limit) db = .ok fetched) {loaded : List (SweepRow Int Unit)} :
    t.loadBatch client style after limit db = .ok loaded ↔
      List.Forall₂ (fun e row => t.Loads storage e.2 row)
        ((remaining (entries storage.integer t.cursorColumn (storage.rows db t.table)) after).take
          limit) loaded := by
  have hRows := fetchAll_rows hStorage hFits hFetch
  have hRead : t.loadBatch client style after limit db
      = fetched.mapM (t.readRow client style) := by
    unfold loadBatch
    rw [hFetch]
    rfl
  rw [hRead, mapM_eq_ok]
  generalize (remaining _ after).take limit = found at hRows
  clear hFetch hRead
  induction hRows generalizing loaded with
  | nil => rw [List.forall₂_nil_left_iff, List.forall₂_nil_left_iff]
  | cons hRow _ ih =>
    rw [List.forall₂_cons_left_iff, List.forall₂_cons_left_iff]
    simp only [readRow_eq_ok hStorage hRow, ih]

end

/-! ## What the table holds -/

theorem storedRow_eq_some {v : StoredRow Unit} :
    t.storedRow storage style row = some v ↔
      t.Holds storage style v.ciphertext v.indexes row := by
  unfold storedRow Holds columns
  simp only [Option.bind_eq_bind, Option.bind_eq_some_iff, option_mapM_eq_some,
    List.forall₂_cons, Option.pure_def, Option.some_inj]
  constructor
  · rintro ⟨ciphertext, hCiphertext, indexes, hIndexes, rfl⟩
    exact ⟨hCiphertext, hIndexes⟩
  · rintro ⟨hCiphertext, hIndexes⟩
    exact ⟨_, hCiphertext, _, hIndexes, rfl⟩

theorem row_eq_some (hFits : t.Fits storage db) {x : Int} :
    t.row storage db x = some row ↔
      row ∈ storage.rows db t.table ∧ storage.integer (row t.cursorColumn) = some x :=
  hFits.keyed.lookup_eq_some

theorem stored_eq_some {cursor : Int} {v : StoredRow Unit} :
    t.stored storage style db cursor = some v ↔ ∃ row, t.row storage db cursor = some row ∧
      t.Holds storage style v.ciphertext v.indexes row := by
  unfold stored
  simp only [Option.bind_eq_some_iff, storedRow_eq_some]

section

variable (hStorage : storage.Documented style.casts)

include hStorage

/-- A row holds what is read from it. -/
theorem Loads.holds {loaded : SweepRow Int Unit} (h : t.Loads storage row loaded) :
    t.Holds storage style loaded.ciphertext loaded.indexes row :=
  h.bytes.imp fun _ _ => ParamStyle.held_of_decode hStorage

/-- **A batch is a page of what the table holds.** -/
theorem loadBatch_page (hFits : t.Fits storage db) {after : Option Int} {limit : Nat}
    {loaded : List (SweepRow Int Unit)}
    (h : t.loadBatch client style after limit db = .ok loaded) :
    Page (t.stored storage style db) after limit (loaded.map SweepRow.entry) := by
  obtain ⟨fetched, hFetch, -⟩ := bind_eq_ok.mp h
  have hEnumerates := hFits.keyed.enumerates
  have hLoads := (loadBatch_eq_ok hStorage hFits hFetch).mp h
  refine (hEnumerates.page_take after limit).bind ?_
  rw [List.forall₂_map_right_iff]
  refine List.forall₂_iff_get.mpr ⟨hLoads.length_eq, fun i hi hi' => ?_⟩
  have hRow := hLoads.get hi hi'
  have hMem := List.mem_of_mem_take (List.get_mem _ ⟨i, hi⟩)
  obtain ⟨-, hKey⟩ := hFits.keyed.lookup_eq_some.mp (hEnumerates.mem_remaining.mp hMem).1
  exact ⟨hStorage.decodeInteger _ _ _ hKey hRow.cursor,
    storedRow_eq_some.mpr (hRow.holds hStorage)⟩

end

/-! ## Updating -/

section

variable {loaded : SweepRow Int Unit} {replacement : RowWrite}

section

variable {texts : Bool} (hStorage : storage.Documented texts)

/-- The assignments are to the columns that the replacement is for. -/
theorem Replaces.of_assigns (hReplacement : replacement.indexes.length = t.indexColumns.length)
    {old new : Row V}
    (h : Assigns storage t.assignments (updateBinds loaded replacement) old new) :
    t.Replaces storage replacement old new := by
  have hLength : (replacement.ciphertext :: replacement.indexes).length = t.columns.length := by
    simp [columns, hReplacement]
  have hAssigns : Assigns storage (t.columns.zipIdx (([] : List Argument).length + 1))
      ([] ++ (replacement.ciphertext :: replacement.indexes).map .blob
        ++ .integer loaded.cursor :: .blob loaded.ciphertext :: loaded.indexes.map .blob)
      old new := h
  refine ⟨hAssigns.forall₂ hLength, fun column hColumn => h.others column fun a hMem => ?_⟩
  have hNames : t.assignments.map Prod.fst = t.columns := List.zipIdx_map_fst ..
  exact hColumn a.1 (hNames ▸ List.mem_map_of_mem hMem)

include hStorage

/-- The condition is on the cursor and the columns that were loaded. -/
theorem condition_holds (hLoaded : loaded.indexes.length = t.indexColumns.length)
    (hReplacement : replacement.indexes.length = t.indexColumns.length) {cursor : Int}
    (hCursor : storage.integer (row t.cursorColumn) = some cursor) :
    ((t.condition style).all fun comparison =>
        comparison.holds storage.toValues (updateBinds loaded replacement) row) = true
      ↔ t.Matches storage style loaded row := by
  let written : List Argument := .blob replacement.ciphertext :: replacement.indexes.map .blob
  let compared : List Argument := (loaded.ciphertext :: loaded.indexes).map .blob
  have hWritten : written.length = t.columns.length := by
    simp [written, columns, hReplacement]
  have hCompared : compared.length = t.columns.length := by
    simp [compared, columns, hLoaded]
  have hBinds : updateBinds loaded replacement
      = (written ++ [.integer loaded.cursor]) ++ compared ++ [] := by
    simp [updateBinds, written, compared]
  have hBound : bound (updateBinds loaded replacement) (t.columns.length + 1)
      = some (.integer loaded.cursor) := by
    rw [← hWritten]
    exact bound_append written compared _
  have hHead : (Comparison.mk t.cursorColumn false (t.columns.length + 1)).holds storage.toValues
      (updateBinds loaded replacement) row = true
        ↔ storage.integer (row t.cursorColumn) = some loaded.cursor := by
    unfold Comparison.holds
    rw [hBound, Option.any_some, hCursor, Option.some_inj]
    exact hStorage.equals_integer _ _ _ hCursor
  have hTail : ((t.columns.zipIdx (t.columns.length + 2)).map fun c =>
      (⟨c.1, style.casts, c.2⟩ : Comparison)).all (fun comparison =>
        comparison.holds storage.toValues (updateBinds loaded replacement) row) = true
        ↔ t.Holds storage style loaded.ciphertext loaded.indexes row := by
    have hBefore : t.columns.length + 2
        = (written ++ [Argument.integer loaded.cursor]).length + 1 := by
      rw [List.length_append, hWritten, List.length_singleton]
    rw [hBinds, hBefore, all_holds storage.toValues style.casts hCompared, Holds]
    simp only [compared, List.forall₂_map_right_iff, ParamStyle.equals_iff hStorage]
  rw [condition, List.all_cons, Bool.and_eq_true, hHead, hTail, Matches]

/-- **The `UPDATE` is a compare-and-swap of all the encrypted columns.** -/
theorem update_swaps (hFits : t.Fits storage db)
    (hLoaded : loaded.indexes.length = t.indexColumns.length)
    (hReplacement : replacement.indexes.length = t.indexColumns.length) {affected : Nat}
    (hExecute : client.execute (t.sql style).update (updateBinds loaded replacement) db
      = .ok (affected, db')) :
    t.update client style loaded replacement db = .ok (affected == 1, db') ∧
      t.Swaps storage style loaded replacement db (affected == 1) db' := by
  let binds := updateBinds loaded replacement
  let found (row : Row V) : Bool :=
    (t.condition style).all fun comparison => comparison.holds storage.toValues binds row
  have hFound {row : Row V} (hRow : row ∈ storage.rows db t.table) :
      found row = true ↔ t.Matches storage style loaded row :=
    condition_holds hStorage hLoaded hReplacement (hFits.keyed.keyOf_spec hRow)
  have hTakes : (Statement.update t.table t.assignments (t.condition style)).Takes binds := by
    have hCount : binds.length = 2 * t.indexColumns.length + 3 := by
      simp only [binds, updateBinds, List.length_append, List.length_cons, List.length_map]
      omega
    rw [Statement.Takes, hCount]
    exact t.params_update style
  have hSays : Says (t.sql style).update
      (.update t.table t.assignments (t.condition style)) :=
    says_tokens (t.lex_update style) ⟨List.cons_ne_nil _ _, List.cons_ne_nil _ _⟩
  have hNames : t.assignments.map Prod.fst = t.columns := List.zipIdx_map_fst ..
  have hDistinct : (t.assignments.map Prod.fst).Pairwise fun a b => storage.same a b = false :=
    hNames ▸ (List.pairwise_cons.mp hFits.distinct).2
  obtain ⟨hAffected, ⟨after, hPerm, hRows⟩, hOthers⟩ :=
    hStorage.update _ _ _ _ _ _ _ _ hSays hTakes hDistinct hExecute
  refine ⟨?_, ?_, ⟨after, hPerm, ?_⟩, hOthers⟩
  · unfold update
    rw [hExecute]
    rfl
  · rw [beq_iff_eq, hAffected,
      hFits.keyed.countP_eq_one fun row hRow h => ((hFound hRow).mp h).1]
    constructor
    · rintro ⟨row, hLookup, hRow⟩
      obtain ⟨hMem, -⟩ := hFits.keyed.lookup_eq_some.mp hLookup
      exact ⟨row, hMem, (hFound hMem).mp hRow⟩
    · rintro ⟨row, hMem, hRow⟩
      exact ⟨row, hFits.keyed.lookup_eq_some.mpr ⟨hMem, hRow.1⟩, (hFound hMem).mpr hRow⟩
  · refine List.forall₂_iff_get.mpr ⟨hRows.length_eq, fun i hi hi' => ?_⟩
    have hRow := hRows.get hi hi'
    have hMem := List.get_mem (storage.rows db t.table) ⟨i, hi⟩
    split at hRow
    · next hMatches =>
      exact Or.inl ⟨(hFound hMem).mp hMatches, .of_assigns hReplacement hRow⟩
    · next hOther => exact Or.inr ⟨fun hMatches => hOther ((hFound hMem).mpr hMatches), hRow⟩

/-- The cursors stay, and what is at a cursor is swapped or stays. -/
theorem Swaps.found {updated : Bool} (hFits : t.Fits storage db)
    (h : t.Swaps storage style loaded replacement db updated db') :
    t.Fits storage db' ∧ ∀ x,
      Option.Rel (t.Swapped storage style loaded replacement) (t.row storage db x)
        (t.row storage db' x) := by
  obtain ⟨after, hPerm, hRows⟩ := h.rows
  have hCursor : ∀ c ∈ t.columns, storage.same c t.cursorColumn = false := fun c hMem =>
    (hStorage.same_comm c t.cursorColumn).trans ((List.pairwise_cons.mp hFits.distinct).1 c hMem)
  have hKeyed := hFits.keyed.lookup_forall₂ <| hRows.imp fun old new hRow => by
    refine ⟨?_, hRow⟩
    rcases hRow with ⟨-, hReplaces⟩ | ⟨-, rfl⟩
    · exact hReplaces.others _ hCursor
    · rfl
  have hSmall : (storage.rows db' t.table).length ≤ i64Max := by
    rw [hPerm.length_eq, ← hRows.length_eq]
    exact hFits.small
  refine ⟨⟨hFits.distinct, hKeyed.1.perm hPerm, hSmall⟩, fun x => ?_⟩
  show Option.Rel _ _ (lookup storage.integer t.cursorColumn (storage.rows db' t.table) x)
  rw [hKeyed.1.lookup_perm hPerm]
  exact hKeyed.2 x

/-- A replaced row holds the replacement. -/
theorem Replaces.holds {old new : Row V} (h : t.Replaces storage replacement old new) :
    t.Holds storage style replacement.ciphertext replacement.indexes new :=
  h.written.imp fun _ _ hBlob => style.held_blob hStorage hBlob

end

section

variable (hStorage : storage.Documented style.casts)

include hStorage

/-- What is stored at a cursor stays, unless the row there matches. -/
theorem Swaps.keeps {updated : Bool} (hFits : t.Fits storage db)
    (h : t.Swaps storage style loaded replacement db updated db') {x : Int}
    (hOther : ∀ row, t.row storage db x = some row → ¬ t.Matches storage style loaded row) :
    t.row storage db' x = t.row storage db x := by
  have hRel := (h.found hStorage hFits).2 x
  generalize t.row storage db' x = new at hRel
  cases hOld : t.row storage db x with
  | none =>
    rw [hOld] at hRel
    cases hRel
    rfl
  | some old =>
    rw [hOld] at hRel
    cases hRel with
    | some hRow =>
      rcases hRow with ⟨hMatches, -⟩ | ⟨-, rfl⟩
      · exact absurd hMatches (hOther old hOld)
      · rfl

/-- The row that matched is replaced. -/
theorem Swaps.replaces {updated : Bool} (hFits : t.Fits storage db)
    (h : t.Swaps storage style loaded replacement db updated db') {old : Row V}
    (hOld : t.row storage db loaded.cursor = some old)
    (hMatches : t.Matches storage style loaded old) :
    ∃ new, t.Replaces storage replacement old new ∧
      t.row storage db' = Function.update (t.row storage db) loaded.cursor (some new) := by
  have hRel := (h.found hStorage hFits).2 loaded.cursor
  generalize hLater : t.row storage db' loaded.cursor = later at hRel
  rw [hOld] at hRel
  cases hRel with
  | @some _ new hRow =>
    rcases hRow with ⟨-, hReplaces⟩ | ⟨hOther, -⟩
    · refine ⟨new, hReplaces, funext fun x => ?_⟩
      by_cases hx : x = loaded.cursor
      · rw [hx, Function.update_self]
        exact hLater
      · rw [Function.update_of_ne hx]
        refine h.keeps hStorage hFits fun row hRow hAt => hx ?_
        obtain ⟨-, hKey⟩ := (row_eq_some hFits).mp hRow
        exact Option.some.inj (hKey.symm.trans hAt.1)
    · exact absurd hMatches hOther

/-- **A swap is an update in the sense of the contract.** -/
theorem Swaps.exec {updated : Bool} (hFits : t.Fits storage db)
    (h : t.Swaps storage style loaded replacement db updated db') (checkpoint : Option Int) :
    Exec (.update loaded replacement) ⟨t.stored storage style db, checkpoint⟩ updated
      ⟨t.stored storage style db', checkpoint⟩ := by
  cases updated with
  | true =>
    obtain ⟨old, hMem, hMatches⟩ := h.updated_iff.mp rfl
    have hOld := (row_eq_some hFits).mpr ⟨hMem, hMatches.1⟩
    let v : StoredRow Unit := ⟨(), loaded.ciphertext, loaded.indexes⟩
    have hStored : t.stored storage style db loaded.cursor = some v :=
      stored_eq_some.mpr ⟨old, hOld, hMatches.2⟩
    obtain ⟨new, hReplaces, hRows⟩ := h.replaces hStorage hFits hOld hMatches
    have hTable : t.stored storage style db' = Function.update (t.stored storage style db)
        loaded.cursor (some (replacement.apply v)) := by
      have hNew : t.storedRow storage style new = some (replacement.apply v) :=
        storedRow_eq_some.mpr (hReplaces.holds hStorage)
      funext x
      unfold stored
      rw [hRows]
      by_cases hx : x = loaded.cursor
      · rw [hx, Function.update_self, Function.update_self]
        exact hNew
      · rw [Function.update_of_ne hx, Function.update_of_ne hx]
    rw [hTable]
    exact .updated ⟨t.stored storage style db, checkpoint⟩ loaded replacement v ⟨hStored, rfl, rfl⟩
  | false =>
    have hNone : ∀ row ∈ storage.rows db t.table, ¬ t.Matches storage style loaded row := by
      intro row hRow hMatches
      cases h.updated_iff.mpr ⟨row, hRow, hMatches⟩
    have hTable : t.stored storage style db' = t.stored storage style db := by
      funext x
      unfold stored
      rw [h.keeps hStorage hFits fun row hRow => hNone row ((row_eq_some hFits).mp hRow).1]
    rw [hTable]
    refine .lost ⟨t.stored storage style db, checkpoint⟩ loaded replacement fun v hMatches => ?_
    obtain ⟨hStored, hCiphertext, hIndexes⟩ := hMatches
    obtain ⟨row, hRow, hHolds⟩ := stored_eq_some.mp hStored
    obtain ⟨hMem, hKey⟩ := (row_eq_some hFits).mp hRow
    rw [hCiphertext, hIndexes] at hHolds
    exact hNone row hMem ⟨hKey, hHolds⟩

/-- A row that was loaded matches until one of its columns changes. -/
theorem Loads.matches (hFits : t.Fits storage db') {now : Row V} (h : t.Loads storage row loaded)
    (hNow : now ∈ storage.rows db' t.table)
    (hCursor : now t.cursorColumn = row t.cursorColumn)
    (hSame : ∀ column ∈ t.columns, now column = row column) :
    t.Matches storage style loaded now := by
  have hKey := hFits.keyed.keyOf_spec hNow
  have hRead : storage.decodeInteger (now t.cursorColumn) = some loaded.cursor :=
    hCursor ▸ h.cursor
  refine ⟨?_, ?_⟩
  · rw [hKey, hStorage.decodeInteger _ _ _ hKey hRead]
  · have hColumns : t.columns.map now = t.columns.map row := List.map_congr_left hSame
    have hHolds := h.holds hStorage
    unfold Holds at hHolds ⊢
    rw [← List.forall₂_map_left_iff
      (R := fun value bytes => style.held storage value = some bytes)] at hHolds ⊢
    rwa [hColumns]

end

end

end SweepTable

end

/-! ## The contract -/

/-- What a call of the packaged store over `t` answers and does. -/
inductive PackagedExec (client : Client D) (style : ParamStyle) (t : SweepTable) :
    (call : Call Int Unit) → SqlDatabase D → call.Answer → SqlDatabase D → Prop
  | loadCheckpoint (db : SqlDatabase D) (answer : Option Int)
      (hSql : ProgressSql style (t.sql style).loadCheckpoint
        [.text (t.sql style).migrationName] db.progress answer db.progress) :
      PackagedExec client style t .loadCheckpoint db answer db
  | saveCheckpoint (db : SqlDatabase D) (cursor : Int) (returned : Option Int)
      (progress : Progress)
      (hSql : ProgressSql style (t.sql style).saveCheckpoint
        [.text (t.sql style).migrationName, .integer cursor] db.progress returned progress) :
      PackagedExec client style t (.saveCheckpoint cursor) db () ⟨db.data, progress⟩
  | loadBatch (db : SqlDatabase D) (after : Option Int) (limit : Nat)
      (loaded : List (SweepRow Int Unit))
      (hLoad : t.loadBatch client style after limit db.data = .ok loaded) :
      PackagedExec client style t (.loadBatch after limit) db loaded db
  | update (db : SqlDatabase D) (loaded : SweepRow Int Unit) (replacement : RowWrite)
      (updated : Bool) (data : D)
      (hUpdate : t.update client style loaded replacement db.data = .ok (updated, data)) :
      PackagedExec client style t (.update loaded replacement) db updated ⟨data, db.progress⟩

/-- An update has bytes for every index column. -/
def Call.HasIndexes (count : Nat) : Call Int Unit → Prop
  | .update loaded replacement =>
    loaded.indexes.length = count ∧ replacement.indexes.length = count
  | .loadCheckpoint => True
  | .saveCheckpoint _ => True
  | .loadBatch .. => True

section

variable {client : Client D} {storage : Storage client V} {style : ParamStyle} {t : SweepTable}
  (hStorage : storage.Documented style.casts)

include hStorage

theorem SweepTable.update_eq_ok {db data : D} {loaded : SweepRow Int Unit}
    {replacement : RowWrite} {updated : Bool} (hFits : t.Fits storage db)
    (hLoaded : loaded.indexes.length = t.indexColumns.length)
    (hReplacement : replacement.indexes.length = t.indexColumns.length)
    (h : t.update client style loaded replacement db = .ok (updated, data)) :
    t.Swaps storage style loaded replacement db updated data := by
  obtain ⟨⟨affected, after⟩, hExecute, -⟩ := bind_eq_ok.mp h
  obtain ⟨hUpdate, hSwaps⟩ := update_swaps hStorage hFits hLoaded hReplacement hExecute
  cases hUpdate.symm.trans h
  exact hSwaps

/-- **A packaged store meets the contract**, and its calls keep the table as it has to be. -/
theorem PackagedExec.sqlExec {call : Call Int Unit} {answer : call.Answer}
    {db db' : SqlDatabase D} (h : PackagedExec client style t call db answer db')
    (hFits : t.Fits storage db.data) (hIndexes : call.HasIndexes t.indexColumns.length) :
    SqlExec style (fun t => t.stored storage style) t call db answer db' ∧
      t.Fits storage db'.data := by
  cases h with
  | loadCheckpoint _ answer hSql => exact ⟨.loadCheckpoint db answer hSql, hFits⟩
  | saveCheckpoint _ cursor returned progress hSql =>
    exact ⟨.saveCheckpoint db cursor returned progress hSql, hFits⟩
  | loadBatch _ after limit loaded hLoad =>
    have hPage := SweepTable.loadBatch_page hStorage hFits hLoad
    exact ⟨.loadBatch db after limit loaded (.loadBatch _ after limit loaded hPage), hFits⟩
  | update _ loaded replacement updated data hUpdate =>
    have hSwaps := SweepTable.update_eq_ok hStorage hFits hIndexes.1 hIndexes.2 hUpdate
    exact ⟨.update db loaded replacement updated data (hSwaps.exec hStorage hFits _),
      (hSwaps.found hStorage hFits).1⟩

end

/-- The placeholders of a statement are numbered from one in the order of its text, and a value
is bound to each. -/
def Numbered (text : String) (binds : Nat) : Prop := placeholders text = some (List.range' 1 binds)

namespace SweepTable

variable {client : Client D} (storage : Storage client V) (t : SweepTable) (style : ParamStyle)

/-- **What the packaged store over a table does**, with any number of index columns, where the
database answers. -/
structure Implements : Prop where
  select : ∀ after limit, Numbered (t.loadBatchSql style after) (loadBatchBinds after limit).length
  update : ∀ loaded replacement,
    (Call.update loaded replacement).HasIndexes t.indexColumns.length →
    Numbered (t.sql style).update (updateBinds loaded replacement).length
  loadCheckpoint : Numbered (t.sql style).loadCheckpoint 1
  saveCheckpoint : Numbered (t.sql style).saveCheckpoint 2
  createProgress : Numbered (t.sql style).createProgress 0
  /-- A batch is read from the first rows after the cursor. -/
  batch : ∀ db, t.Fits storage db → ∀ after limit fetched,
    client.fetchAll (t.loadBatchSql style after) (loadBatchBinds after limit) db = .ok fetched →
    ∀ loaded, t.loadBatch client style after limit db = .ok loaded ↔
      List.Forall₂ (fun e row => t.Loads storage e.2 row)
        ((remaining (entries storage.integer t.cursorColumn (storage.rows db t.table)) after).take
          limit) loaded
  swap : ∀ db, t.Fits storage db → ∀ loaded replacement,
    (Call.update loaded replacement).HasIndexes t.indexColumns.length →
    ∀ affected db', client.execute (t.sql style).update (updateBinds loaded replacement) db
      = .ok (affected, db') →
    ∃ updated, t.update client style loaded replacement db = .ok (updated, db') ∧
      t.Swaps storage style loaded replacement db updated db'
  /-- Rows and the writes planned for them have bytes for every index column. -/
  indexes : ∀ row loaded, t.Loads storage row loaded →
    loaded.indexes.length = t.indexColumns.length ∧
      ∀ (prim : Primitives) (F : Seal) (planner : RowPlanner prim F Unit) draw outcome write,
        planner.planRow loaded.columns loaded.ciphertext loaded.indexes draw = .ok outcome →
        outcome.write = some write → write.indexes.length = t.indexColumns.length
  contract : ∀ call db answer db', PackagedExec client style t call db answer db' →
    t.Fits storage db.data → call.HasIndexes t.indexColumns.length →
    Exec call (t.view (fun t => t.stored storage style) db) answer
        (t.view (fun t => t.stored storage style) db') ∧ t.Fits storage db'.data
  /-- An update succeeds as long as the columns of the row are what was loaded. -/
  unchanged : ∀ db db', t.Fits storage db' → ∀ row ∈ storage.rows db t.table,
    ∀ now ∈ storage.rows db' t.table,
    now t.cursorColumn = row t.cursorColumn → (∀ column ∈ t.columns, now column = row column) →
    ∀ loaded, t.Loads storage row loaded → ∀ replacement,
    replacement.indexes.length = t.indexColumns.length →
    ∀ affected db'', client.execute (t.sql style).update (updateBinds loaded replacement) db'
      = .ok (affected, db'') →
    t.update client style loaded replacement db' = .ok (true, db'')
  /-- SQLite loads TEXT as well as BLOBs. -/
  texts : style = .question → ∀ row cursor,
    storage.decodeInteger (row t.cursorColumn) = some cursor →
    (∀ column ∈ t.columns, ∃ bytes, storage.text (row column) = some bytes ∨
      storage.blob (row column) = some bytes) →
    ∃ loaded, loaded.cursor = cursor ∧ t.Loads storage row loaded

theorem numbered_select (after : Option Int) (limit : Nat) :
    Numbered (t.loadBatchSql style after) (loadBatchBinds after limit).length := by
  cases after with
  | none => exact placeholders_tokens (t.lex_selectFirst style)
  | some after => exact placeholders_tokens (t.lex_selectAfter style)

theorem numbered_update {loaded : SweepRow Int Unit} {replacement : RowWrite}
    (hIndexes : (Call.update loaded replacement).HasIndexes t.indexColumns.length) :
    Numbered (t.sql style).update (updateBinds loaded replacement).length := by
  obtain ⟨hLoaded, hReplacement⟩ := hIndexes
  have hCount : (updateBinds loaded replacement).length = 2 * t.indexColumns.length + 3 := by
    simp only [updateBinds, List.length_append, List.length_cons, List.length_map]
    omega
  have hText := placeholders_tokens (t.lex_update style)
  rwa [params_update, ← hCount] at hText

section

variable {storage t style}

theorem Loads.length_indexes {row : Row V} {loaded : SweepRow Int Unit}
    (h : t.Loads storage row loaded) : loaded.indexes.length = t.indexColumns.length :=
  (Nat.succ.inj h.bytes.length_eq).symm

/-- A row is loaded when each of its columns has a value that the driver reads. -/
theorem exists_loads {row : Row V} {cursor : Int}
    (hCursor : storage.decodeInteger (row t.cursorColumn) = some cursor)
    (hBytes : ∀ column ∈ t.columns, ∃ bytes, storage.decodeBytes (row column) = some bytes) :
    ∃ loaded : SweepRow Int Unit, loaded.cursor = cursor ∧ t.Loads storage row loaded := by
  obtain ⟨⟨ciphertext, hCiphertext⟩, hIndexes⟩ := List.forall_mem_cons.mp hBytes
  obtain ⟨indexes, hRest⟩ := exists_forall₂ hIndexes
  exact ⟨⟨cursor, (), ciphertext, indexes⟩, rfl, hCursor, .cons hCiphertext hRest⟩

/-- A row is replaced as long as its columns are what was loaded. -/
theorem update_unchanged (hStorage : storage.Documented style.casts) {db db' : D}
    {row now : Row V} {loaded : SweepRow Int Unit} {replacement : RowWrite}
    (hFits : t.Fits storage db) (hLoads : t.Loads storage row loaded)
    (hNow : now ∈ storage.rows db t.table) (hCursor : now t.cursorColumn = row t.cursorColumn)
    (hSame : ∀ column ∈ t.columns, now column = row column)
    (hReplacement : replacement.indexes.length = t.indexColumns.length) {affected : Nat}
    (hExecute : client.execute (t.sql style).update (updateBinds loaded replacement) db
      = .ok (affected, db')) :
    t.update client style loaded replacement db = .ok (true, db') := by
  obtain ⟨hUpdate, hSwaps⟩ :=
    update_swaps hStorage hFits hLoads.length_indexes hReplacement hExecute
  have hMatches := hLoads.matches hStorage hFits hNow hCursor hSame
  have hUpdated : (affected == 1) = true := hSwaps.updated_iff.mpr ⟨now, hNow, hMatches⟩
  exact hUpdated ▸ hUpdate

end

/-- **The packaged stores implement the contract of `SweepStore`**, over every table, in both
styles of placeholders, and over every database and driver that behave as documented. -/
theorem implements (hStorage : storage.Documented style.casts) : t.Implements storage style where
  select := t.numbered_select style
  update := fun _ _ hIndexes => t.numbered_update style hIndexes
  loadCheckpoint := by rw [Numbered, placeholders, t.lex_loadCheckpoint style]; rfl
  saveCheckpoint := by rw [Numbered, placeholders, t.lex_saveCheckpoint style]; rfl
  createProgress := by rw [Numbered, placeholders, t.lex_createProgress style]; rfl
  batch := fun _ hFits _ _ _ hFetch _ => loadBatch_eq_ok hStorage hFits hFetch
  swap := fun _ hFits _ _ hIndexes _ _ hExecute =>
    ⟨_, update_swaps hStorage hFits hIndexes.1 hIndexes.2 hExecute⟩
  indexes := fun _ _ hLoads => ⟨hLoads.length_indexes, fun _ _ _ _ _ _ hPlan hWrite =>
    (RowPlanner.planRow_length hPlan hWrite).trans hLoads.length_indexes⟩
  contract := fun _ _ _ _ h hFits hIndexes =>
    ⟨(h.sqlExec hStorage hFits hIndexes).1.exec, (h.sqlExec hStorage hFits hIndexes).2⟩
  unchanged := fun _ _ hFits _ _ _ hNow hCursor hSame _ hLoads _ hReplacement _ _ hExecute =>
    update_unchanged hStorage hFits hLoads hNow hCursor hSame hReplacement hExecute
  texts := by
    rintro rfl row cursor hCursor hTexts
    refine exists_loads hCursor fun column hColumn => ?_
    obtain ⟨bytes, hText | hBlob⟩ := hTexts column hColumn
    · exact ⟨bytes, (hStorage.decodeBytes _ _).mpr (Or.inr ⟨rfl, hText⟩)⟩
    · exact ⟨bytes, (hStorage.decodeBytes _ _).mpr (Or.inl hBlob)⟩

end SweepTable

/-! ## A table -/

namespace Vectors

def usersTable : SweepTable := (SweepTable.new "users" "id" "email").withIndexColumn "email_bidx"

/-- The plaintext of the vectors in a row of a table, as text. -/
def usersRow : Row Value := fun column =>
  if column = "id" then .integer 7 else if column = "email" then .text plaintext.val
  else if column = "email_bidx" then .blob [] else .null

def usersData : Tables := fun name => if name = "users" then [usersRow] else []

theorem usersTable_fits : usersTable.Fits (memoryStorage true) usersData where
  distinct := by decide
  keyed := by
    refine ⟨fun row hRow => ⟨7, ?_⟩, List.nodup_singleton _⟩
    rw [List.mem_singleton.mp hRow]
    rfl
  small := by decide

end Vectors

open Vectors in
/-- SQLite replaces a row that was stored as TEXT. -/
theorem SweepTable.implements_vector : ∃ tables : Tables,
    SqliteSweepStore.update (memory true) usersTable ⟨7, (), plaintext.val, [[]]⟩
      ⟨envelope, [Vectors.index]⟩ usersData = .ok (true, tables) := by
  let loaded : SweepRow Int Unit := ⟨7, (), plaintext.val, [[]]⟩
  let replacement : RowWrite := ⟨envelope, [Vectors.index]⟩
  have hImplements := usersTable.implements (memoryStorage true) .question
    (memory_documented true)
  have hLoads : usersTable.Loads (memoryStorage true) usersRow loaded :=
    ⟨rfl, .cons rfl (.cons rfl .nil)⟩
  have hRow : usersRow ∈ (memoryStorage true).rows usersData usersTable.table :=
    List.mem_singleton_self _
  have hSays : Says (usersTable.sql .question).update
      (.update usersTable.table usersTable.assignments (usersTable.condition .question)) :=
    says_tokens (usersTable.lex_update .question) ⟨List.cons_ne_nil _ _, List.cons_ne_nil _ _⟩
  obtain ⟨affected, tables, hExecute⟩ :=
    exists_execute hSays true (updateBinds loaded replacement) usersData
  exact ⟨tables, hImplements.unchanged usersData usersData usersTable_fits usersRow hRow usersRow
    hRow rfl (fun _ _ => rfl) loaded hLoads replacement rfl affected tables hExecute⟩

end Cryptbox

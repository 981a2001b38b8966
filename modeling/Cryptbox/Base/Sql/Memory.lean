import Cryptbox.Base.Sql.Client

/-!
# A database in memory

Tables are lists of rows whose values are those of SQLite, without real numbers, and names are
compared as they are written. The driver reads texts as bytes, or does not.

* `memory_documented`: it does what is documented of databases and drivers.
-/

namespace Cryptbox.Base.Sql

/-! ## Values -/

inductive Value where
  | null
  | integer (value : Int)
  | text (bytes : Bytes)
  | blob (bytes : Bytes)
  deriving DecidableEq, Repr

namespace Value

def integer? : Value → Option Int
  | .integer value => some value
  | _ => none

def text? : Value → Option Bytes
  | .text bytes => some bytes
  | _ => none

def blob? : Value → Option Bytes
  | .blob bytes => some bytes
  | _ => none

/-- `CAST(value AS BLOB)`: the bytes of a text, and the digits of an integer. -/
def castBlob : Value → Value
  | .null => .null
  | .integer value => .blob (toString value).toUTF8.data.toList
  | .text bytes => .blob bytes
  | .blob bytes => .blob bytes

/-- NULL equals nothing, and a text no BLOB. -/
def equals : Value → Argument → Bool
  | .integer a, .integer b => a == b
  | .blob a, .blob b => a == b
  | _, _ => false

def greater : Value → Argument → Bool
  | .integer a, .integer b => decide (b < a)
  | _, _ => false

def ofArgument : Argument → Value
  | .integer value => .integer value
  | .blob bytes => .blob bytes

def values : Values Value := ⟨integer?, text?, blob?, castBlob, equals, greater⟩

/-- The bytes that a driver reads. -/
def decodeBytes (texts : Bool) : Value → Option Bytes
  | .blob bytes => some bytes
  | .text bytes => if texts then some bytes else none
  | _ => none

theorem equals_blob (v : Value) (bytes : Bytes) :
    v.equals (.blob bytes) = true ↔ v.blob? = some bytes := by
  cases v <;> simp [equals, blob?]

theorem decodeBytes_eq_some {texts : Bool} {v : Value} {bytes : Bytes} :
    v.decodeBytes texts = some bytes ↔
      v.blob? = some bytes ∨ (texts = true ∧ v.text? = some bytes) := by
  cases v <;> simp [decodeBytes, blob?, text?]

end Value

/-! ## Execution -/

/-- The rows of every table. -/
abbrev Tables := String → List (Row Value)

inductive MemoryError where
  | rejected
  | columnIndexOutOfBounds (index : Nat)
  | unexpectedNull (index : Nat)
  | mismatchedTypes (index : Nat)
  deriving DecidableEq, Repr

/-- The rows that a `SELECT` finds, in order. -/
def selectRows (columns : List String) (after : Option (String × Nat)) (order : String)
    (limit : Nat) (binds : List Argument) (rows : List (Row Value)) : List (List Value) :=
  let found := rows.filter fun row => after.all fun a => (bound binds a.2).any (row a.1).greater
  let sorted := found.mergeSort fun a b =>
    decide (keyOf Value.integer? order a ≤ keyOf Value.integer? order b)
  (sorted.take limit).map fun row => columns.map row

/-- A row after the assignments of an `UPDATE`. -/
def assign (assignments : List (String × Nat)) (binds : List Argument) (row : Row Value) :
    Row Value := fun column =>
  match assignments.find? fun assignment => assignment.1 == column with
  | some assignment => ((bound binds assignment.2).map Value.ofArgument).getD .null
  | none => row column

def fetchAll (text : String) (binds : List Argument) (tables : Tables) :
    Except MemoryError (List (List Value)) :=
  match (lex text).bind parse with
  | some (.select columns table after order limit) =>
    match bound binds limit with
    | some (.integer n) => .ok (selectRows columns after order n.toNat binds (tables table))
    | _ => .error .rejected
  | _ => .error .rejected

def execute (text : String) (binds : List Argument) (tables : Tables) :
    Except MemoryError (Nat × Tables) :=
  match (lex text).bind parse with
  | some (.update table assignments condition) =>
    let holds := fun row => condition.all fun c => c.holds Value.values binds row
    .ok ((tables table).countP holds, Function.update tables table
      ((tables table).map fun row => if holds row then assign assignments binds row else row))
  | _ => .error .rejected

/-- The value in a column; NULL is none. -/
def tryGet {α : Type} (decode : Value → Option α) (row : List Value) (index : Nat) :
    Except MemoryError α :=
  match row[index]? with
  | none => .error (.columnIndexOutOfBounds index)
  | some .null => .error (.unexpectedNull index)
  | some value => (decode value).elim (.error (.mismatchedTypes index)) .ok

/-- The bytes in a column, unless it is NULL. -/
def tryGetOptional (texts : Bool) (row : List Value) (index : Nat) :
    Except MemoryError (Option Bytes) :=
  if row[index]? = some .null then .ok none
  else some <$> tryGet (Value.decodeBytes texts) row index

def memory (texts : Bool) : Client Tables where
  Error := MemoryError
  Row := List Value
  fetchAll := fetchAll
  execute := execute
  tryGetInteger := tryGet Value.integer?
  tryGetBytes := tryGet (Value.decodeBytes texts)
  tryGetOptionalBytes := tryGetOptional texts
  unexpectedNull := .unexpectedNull

instance (texts : Bool) : DecidableEq (memory texts).Error :=
  inferInstanceAs (DecidableEq MemoryError)

def memoryStorage (texts : Bool) : Storage (memory texts) Value where
  toValues := Value.values
  same := (· == ·)
  rows := id
  fetched := id
  decodeInteger := Value.integer?
  decodeBytes := Value.decodeBytes texts

/-! ## What is documented -/

theorem tryGet_eq_ok {α : Type} {decode : Value → Option α} (hNull : decode .null = none)
    {row : List Value} {index : Nat} {a : α} :
    tryGet decode row index = .ok a ↔ ∃ v, row[index]? = some v ∧ decode v = some a := by
  unfold tryGet
  split
  · next h => simp [h]
  · next h => simp [h, hNull]
  · next v _ h =>
    cases hDecode : decode v with
    | none => simp [h, hDecode]
    | some b => simp [h, hDecode]

theorem tryGetOptional_eq_ok {texts : Bool} {row : List Value} {index : Nat} {bytes : Bytes} :
    tryGetOptional texts row index = .ok (some bytes) ↔
      ∃ v, row[index]? = some v ∧ v.decodeBytes texts = some bytes := by
  unfold tryGetOptional
  split
  · next hNull => simp [hNull, Value.decodeBytes]
  · rw [map_eq_ok]
    simp only [Option.some.injEq, exists_eq_right]
    exact tryGet_eq_ok rfl

theorem assign_of_notMem {assignments : List (String × Nat)} {binds : List Argument}
    {row : Row Value} {column : String} (h : ∀ a ∈ assignments, (a.1 == column) = false) :
    assign assignments binds row column = row column := by
  have hNone : (assignments.find? fun assignment => assignment.1 == column) = none :=
    List.find?_eq_none.mpr fun a hMem => by simp [h a hMem]
  unfold assign
  rw [hNone]

theorem assign_of_mem {assignments : List (String × Nat)} {binds : List Argument}
    {row : Row Value} (hDistinct : (assignments.map Prod.fst).Pairwise fun a b => (a == b) = false)
    {a : String × Nat} (hMem : a ∈ assignments) {argument : Argument}
    (hBound : bound binds a.2 = some argument) :
    assign assignments binds row a.1 = Value.ofArgument argument := by
  have hNodup : (assignments.map Prod.fst).Nodup :=
    hDistinct.imp fun h => beq_eq_false_iff_ne.mp h
  cases hFind : assignments.find? fun assignment => assignment.1 == a.1 with
  | none => exact absurd (beq_self_eq_true a.1) (List.find?_eq_none.mp hFind a hMem)
  | some found =>
    have hFound : (found.1 == a.1) = true :=
      List.find?_some (p := fun assignment : String × Nat => assignment.1 == a.1) hFind
    have hSame : found = a :=
      List.inj_on_of_nodup_map hNodup (List.mem_of_find?_eq_some hFind) hMem (eq_of_beq hFound)
    subst hSame
    unfold assign
    rw [hFind]
    simp only [hBound]
    rfl

/-- A `SELECT` sorts the rows that it finds. -/
theorem selectRows_sorts (columns : List String) (after : Option (String × Nat)) (order : String)
    (limit : Nat) (binds : List Argument) (rows : List (Row Value)) :
    ∃ found : List (Row Value),
      found.Perm (rows.filter fun row => after.all fun a =>
        (bound binds a.2).any (row a.1).greater) ∧
      found.Pairwise
        (fun a b => keyOf Value.integer? order a ≤ keyOf Value.integer? order b) ∧
      selectRows columns after order limit binds rows
        = (found.take limit).map fun row => columns.map row :=
  ⟨_, List.mergeSort_perm _ _, pairwise_mergeSort_keyOf Value.integer? order _, rfl⟩

theorem fetchAll_eq_ok {text : String} {columns : List String} {table : String}
    {after : Option (String × Nat)} {order : String} {limit : Nat} {binds : List Argument} {n : Int}
    (hText : Says text (.select columns table after order limit))
    (hLimit : bound binds limit = some (.integer n)) (tables : Tables) :
    fetchAll text binds tables
      = .ok (selectRows columns after order n.toNat binds (tables table)) := by
  unfold Says at hText
  unfold fetchAll
  rw [hText]
  simp only [hLimit]

theorem execute_eq_ok {text : String} {table : String} {assignments : List (String × Nat)}
    {condition : List Comparison} (hText : Says text (.update table assignments condition))
    (binds : List Argument) (tables : Tables) :
    execute text binds tables = .ok ((tables table).countP
        (fun row => condition.all fun c => c.holds Value.values binds row),
      Function.update tables table ((tables table).map fun row =>
        if condition.all fun c => c.holds Value.values binds row then assign assignments binds row
        else row)) := by
  unfold Says at hText
  unfold execute
  rw [hText]

/-- An `UPDATE` is not refused. -/
theorem exists_execute {text : String} {table : String} {assignments : List (String × Nat)}
    {condition : List Comparison} (hText : Says text (.update table assignments condition))
    (texts : Bool) (binds : List Argument) (tables : Tables) :
    ∃ affected tables', (memory texts).execute text binds tables = .ok (affected, tables') :=
  ⟨_, _, execute_eq_ok hText binds tables⟩

/-- **The database in memory** does what is documented. -/
theorem memory_documented (texts : Bool) : (memoryStorage texts).Documented texts where
  same_comm a b := Bool.beq_comm
  equals_integer v x y h := by
    cases v with
    | integer z =>
      cases h
      exact beq_iff_eq
    | null => cases h
    | text b => cases h
    | blob b => cases h
  greater_integer v x y h := by
    cases v with
    | integer z =>
      cases h
      exact decide_eq_true_iff
    | null => cases h
    | text b => cases h
    | blob b => cases h
  equals_blob := Value.equals_blob
  castBlob v bytes h := by
    rcases h with h | h
    · cases v <;> first | exact h | cases h
    · cases v <;> first | exact h | cases h
  select text columns table after order limit binds db fetched n hText hTakes hOrder hLimit hn
      hFetch := by
    obtain ⟨found, hPerm, hSorted, hRows⟩ :=
      selectRows_sorts columns after order n.toNat binds (db table)
    refine ⟨found, hPerm, hSorted, ?_⟩
    have hFetched : fetched = selectRows columns after order n.toNat binds (db table) :=
      Except.ok.inj (hFetch.symm.trans (fetchAll_eq_ok hText hLimit db))
    rw [hRows] at hFetched
    have hAll : List.Forall₂ (fun (row : Row Value) r => r = columns.map row)
        (found.take n.toNat) ((found.take n.toNat).map fun row => columns.map row) := by
      rw [List.forall₂_map_right_iff, List.forall₂_same]
      exact fun _ _ => rfl
    exact hFetched ▸ hAll
  update text table assignments condition binds db affected db' hText hTakes hDistinct
      hExecute := by
    obtain ⟨rfl, rfl⟩ := Prod.mk.inj
      (Except.ok.inj (hExecute.symm.trans (execute_eq_ok hText binds db)))
    refine ⟨rfl, ⟨_, List.Perm.of_eq (Function.update_self table _ db), ?_⟩, fun name hName =>
      Function.update_of_ne (beq_eq_false_iff_ne.mp hName) _ _⟩
    refine List.forall₂_map_right_iff.mpr (List.forall₂_same.mpr fun row hRow => ?_)
    show if (condition.all fun c => c.holds Value.values binds row) = true then _ else _
    split
    · refine ⟨fun a hMem bytes hBound => ?_, fun column hColumn => assign_of_notMem hColumn⟩
      show (assign assignments binds row a.1).blob? = _
      rw [assign_of_mem hDistinct hMem hBound]
      rfl
    · rfl
  tryGetInteger _ _ _ := tryGet_eq_ok rfl
  tryGetBytes _ _ _ := tryGet_eq_ok rfl
  tryGetOptionalBytes _ _ _ := tryGetOptional_eq_ok
  decodeInteger v x y h h' := Option.some.inj (h.symm.trans h')
  decodeBytes v bytes := Value.decodeBytes_eq_some

end Cryptbox.Base.Sql

import Mathlib.Data.List.Forall2
import Cryptbox.Base.Bytes
import Cryptbox.Base.Sql.Keyed
import Cryptbox.Base.Sql.Statement

/-!
# Databases and drivers

A program has a driver execute texts, with an argument bound to each of their placeholders, and
reads values from the rows that it gets. The database and the driver are parameters (`Client`),
and so are what is stored and what its values are (`Storage`): two names may be one to a database,
and a table is any list of rows. `Storage.Documented` is what is documented of the two statements
and of the driver. It is about calls that do not fail, so that statements may be refused for
reasons of their own, and about tables without triggers.

* `Storage.Documented.fetchAll_keyed`: a `SELECT` in the order of a key fetches the next rows.
* `Assigns.forall₂`, `all_holds`: what is assigned to a list of columns, and compared with it.
-/

namespace Cryptbox.Base.Sql

/-! ## What a program calls -/

/-- What a program binds to a placeholder. -/
inductive Argument where
  | integer (value : Int)
  | blob (bytes : Bytes)
  deriving DecidableEq, Repr

/-- A driver, connected to a database whose states are `D`. -/
structure Client (D : Type) where
  Error : Type
  Row : Type
  fetchAll : String → List Argument → D → Except Error (List Row)
  /-- The number of rows that were affected, and the database after it. -/
  execute : String → List Argument → D → Except Error (Nat × D)
  tryGetInteger : Row → Nat → Except Error Int
  tryGetBytes : Row → Nat → Except Error Bytes
  tryGetOptionalBytes : Row → Nat → Except Error (Option Bytes)
  unexpectedNull : Nat → Error

/-! ## What a database stores -/

/-- What values are, and when a comparison with one is true. -/
structure Values (V : Type) where
  integer : V → Option Int
  text : V → Option Bytes
  blob : V → Option Bytes
  castBlob : V → V
  equals : V → Argument → Bool
  greater : V → Argument → Bool

structure Storage {D : Type} (client : Client D) (V : Type) extends Values V where
  /-- Two identifiers name one table, or one column of a table. -/
  same : String → String → Bool
  rows : D → String → List (Row V)
  /-- The values of a row that was fetched. -/
  fetched : client.Row → List V
  decodeInteger : V → Option Int
  decodeBytes : V → Option Bytes

/-! ## What statements do -/

/-- The argument bound to a placeholder. -/
def bound (binds : List Argument) (number : Nat) : Option Argument := binds[number - 1]?

/-- One argument is bound to each placeholder, in the order of the text. -/
def Statement.Takes (statement : Statement) (binds : List Argument) : Prop :=
  statement.params = List.range' 1 binds.length

instance (statement : Statement) (binds : List Argument) : Decidable (statement.Takes binds) :=
  inferInstanceAs (Decidable (_ = _))

/-- What a text says. -/
def Says (text : String) (statement : Statement) : Prop := (lex text).bind parse = some statement

theorem says_tokens {text : String} {statement : Statement}
    (hText : lex text = some statement.tokens) (hFormed : statement.WellFormed) :
    Says text statement := by
  unfold Says
  rw [hText, Option.bind_some, Statement.parse_tokens hFormed]

section

variable {D V : Type} {client : Client D}

def Comparison.holds (values : Values V) (comparison : Comparison) (binds : List Argument)
    (row : Row V) : Bool :=
  let stored := row comparison.column
  (bound binds comparison.param).any
    (values.equals (if comparison.castBlob then values.castBlob stored else stored))

/-- What an `UPDATE` makes of a row. -/
structure Assigns (storage : Storage client V) (assignments : List (String × Nat))
    (binds : List Argument) (old new : Row V) : Prop where
  assigned : ∀ a ∈ assignments, ∀ bytes, bound binds a.2 = some (.blob bytes) →
    storage.blob (new a.1) = some bytes
  others : ∀ column, (∀ a ∈ assignments, storage.same a.1 column = false) →
    new column = old column

/-- **What is documented** of a database and its driver, which reads texts as bytes or not. -/
structure Storage.Documented (storage : Storage client V) (texts : Bool) : Prop where
  same_comm : ∀ a b, storage.same a b = storage.same b a
  equals_integer : ∀ v x y, storage.integer v = some x →
    (storage.equals v (.integer y) = true ↔ x = y)
  greater_integer : ∀ v x y, storage.integer v = some x →
    (storage.greater v (.integer y) = true ↔ y < x)
  /-- A BLOB equals the BLOB of the same bytes, and nothing else does. -/
  equals_blob : ∀ v bytes, storage.equals v (.blob bytes) = true ↔ storage.blob v = some bytes
  castBlob : ∀ v bytes, storage.blob v = some bytes ∨ storage.text v = some bytes →
    storage.blob (storage.castBlob v) = some bytes
  /-- The rows after a value, in the order of a column of integers, up to a limit. -/
  select : ∀ text columns table after order limit binds db fetched n,
    Says text (.select columns table after order limit) →
    (Statement.select columns table after order limit).Takes binds →
    (∀ row ∈ storage.rows db table, ∃ x, storage.integer (row order) = some x) →
    bound binds limit = some (.integer n) → 0 ≤ n →
    client.fetchAll text binds db = .ok fetched →
    ∃ found : List (Row V),
      found.Perm ((storage.rows db table).filter fun row => after.all fun a =>
        (bound binds a.2).any (storage.greater (row a.1))) ∧
      found.Pairwise (fun a b => keyOf storage.integer order a ≤ keyOf storage.integer order b) ∧
      List.Forall₂ (fun row r => storage.fetched r = columns.map row) (found.take n.toNat) fetched
  /-- Rows that meet the condition get the assignments; the order of rows may change. -/
  update : ∀ text table assignments condition binds db affected db',
    Says text (.update table assignments condition) →
    (Statement.update table assignments condition).Takes binds →
    (assignments.map Prod.fst).Pairwise (fun a b => storage.same a b = false) →
    client.execute text binds db = .ok (affected, db') →
    affected = (storage.rows db table).countP
        (fun row => condition.all fun c => c.holds storage.toValues binds row) ∧
      (∃ after, (storage.rows db' table).Perm after ∧ List.Forall₂ (fun old new =>
        if condition.all fun c => c.holds storage.toValues binds old then
          Assigns storage assignments binds old new
        else new = old) (storage.rows db table) after) ∧
      ∀ name, storage.same name table = false → storage.rows db' name = storage.rows db name
  tryGetInteger : ∀ row index x, client.tryGetInteger row index = .ok x ↔
    ∃ v, (storage.fetched row)[index]? = some v ∧ storage.decodeInteger v = some x
  tryGetBytes : ∀ row index bytes, client.tryGetBytes row index = .ok bytes ↔
    ∃ v, (storage.fetched row)[index]? = some v ∧ storage.decodeBytes v = some bytes
  tryGetOptionalBytes : ∀ row index bytes, client.tryGetOptionalBytes row index = .ok (some bytes) ↔
    ∃ v, (storage.fetched row)[index]? = some v ∧ storage.decodeBytes v = some bytes
  /-- An integer is read as itself, if its type is right; nothing is said of NULL. -/
  decodeInteger : ∀ v x y, storage.integer v = some x → storage.decodeInteger v = some y → x = y
  decodeBytes : ∀ v bytes, storage.decodeBytes v = some bytes ↔
    storage.blob v = some bytes ∨ (texts = true ∧ storage.text v = some bytes)

/-- **A `SELECT` in the order of a key** fetches the next rows after a key. -/
theorem Storage.Documented.fetchAll_keyed {storage : Storage client V} {texts : Bool}
    (h : storage.Documented texts) {db : D} {table key : String}
    (hKeyed : Keyed storage.integer key (storage.rows db table)) (after : Option Int)
    (number : Nat) {columns : List String} {limit : Nat} {text : String} {binds : List Argument}
    (hText : Says text (.select columns table (after.map fun _ => (key, number)) key limit))
    (hTakes : (Statement.select columns table (after.map fun _ => (key, number)) key limit).Takes
      binds)
    (hBound : ∀ x ∈ after, bound binds number = some (.integer x)) {n : Int}
    (hLimit : bound binds limit = some (.integer n)) (hn : 0 ≤ n) {fetched : List client.Row}
    (hFetch : client.fetchAll text binds db = .ok fetched) :
    List.Forall₂ (fun e r => storage.fetched r = columns.map e.2)
      ((remaining (entries storage.integer key (storage.rows db table)) after).take n.toNat)
      fetched := by
  obtain ⟨found, hPerm, hSorted, hRows⟩ := h.select text columns table _ key limit binds db fetched
    n hText hTakes hKeyed.exists_key hLimit hn hFetch
  have hAfter : ∀ row ∈ storage.rows db table,
      ((after.map fun _ => (key, number)).all fun a =>
        (bound binds a.2).any (storage.greater (row a.1))) = true ↔
      After after (keyOf storage.integer key row) := by
    intro row hRow
    cases after with
    | none => simp
    | some x =>
      show (bound binds number).any (storage.greater (row key)) = true ↔ _
      rw [hBound x rfl, Option.any_some,
        h.greater_integer _ _ x (hKeyed.keyOf_spec hRow), after_some]
  rw [← hKeyed.selected_eq after hAfter hPerm hSorted, ← List.map_take, List.forall₂_map_left_iff]
  exact hRows

/-! ## Columns with consecutive placeholders -/

variable {storage : Storage client V} {columns : List String} {before rest : List Argument}
  {row old new : Row V}

theorem bound_append (before rest : List Argument) (argument : Argument) :
    bound (before ++ argument :: rest) (before.length + 1) = some argument := by
  simp [bound]

/-- **Columns with consecutive placeholders get the bytes bound to these**, in order. -/
theorem Assigns.forall₂ {values : List Bytes} (hLength : values.length = columns.length)
    (h : Assigns storage (columns.zipIdx (before.length + 1))
      (before ++ values.map .blob ++ rest) old new) :
    List.Forall₂ (fun column bytes => storage.blob (new column) = some bytes) columns values := by
  refine List.forall₂_iff_get.mpr ⟨hLength.symm, fun i hi hi' => ?_⟩
  refine h.assigned (columns.get ⟨i, hi⟩, before.length + 1 + i) ?_ _ ?_
  · exact List.mk_mem_zipIdx_iff_le_and_getElem?_sub.mpr ⟨Nat.le_add_right .., by simp⟩
  · show (before ++ values.map Argument.blob ++ rest)[before.length + 1 + i - 1]? = _
    have hIndex : before.length + 1 + i - 1 = before.length + i := by omega
    rw [hIndex, List.append_assoc, List.getElem?_append_right (Nat.le_add_right ..),
      Nat.add_sub_cancel_left, List.getElem?_append_left (by simpa using hi'), List.getElem?_map,
      List.getElem?_eq_getElem hi']
    rfl

/-- **Columns with consecutive placeholders are compared with the arguments bound to these.** -/
theorem all_holds (values : Values V) (castBlob : Bool) {arguments : List Argument}
    (hLength : arguments.length = columns.length) :
    (((columns.zipIdx (before.length + 1)).map fun c => (⟨c.1, castBlob, c.2⟩ : Comparison)).all
      fun comparison => comparison.holds values (before ++ arguments ++ rest) row) = true ↔
    List.Forall₂ (fun column argument => values.equals
      (if castBlob then values.castBlob (row column) else row column) argument = true)
      columns arguments := by
  induction columns generalizing arguments before with
  | nil =>
    obtain rfl := List.length_eq_zero_iff.mp hLength
    simp
  | cons column columns ih =>
    cases arguments with
    | nil => cases hLength
    | cons argument arguments =>
      have hRest := @ih (before ++ [argument]) arguments (Nat.succ.inj hLength)
      have hBinds : before ++ argument :: arguments ++ rest
          = before ++ [argument] ++ arguments ++ rest := by
        simp
      have hHead : bound (before ++ [argument] ++ arguments ++ rest) (before.length + 1)
          = some argument := by
        rw [List.append_assoc, List.append_assoc, List.singleton_append]
        exact bound_append before (arguments ++ rest) argument
      rw [List.length_append, List.length_singleton] at hRest
      rw [List.zipIdx_cons, List.map_cons, List.all_cons, Bool.and_eq_true, hBinds, hRest,
        List.forall₂_cons, Comparison.holds, hHead, Option.any_some]

end

end Cryptbox.Base.Sql

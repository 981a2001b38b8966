import Cryptbox.Base.Paging

/-!
# Tables with a key

Rows of a table in which one column holds an integer, another one in each row. What a value is,
and which values are integers, is left open.

* `Keyed.enumerates`: the rows in the order of their keys.
* `Keyed.selected_eq`: rows that a condition on the key selects, in this order, are the next rows
  after a key.
* `Keyed.lookup_forall₂`: changing rows without their keys changes what is found under a key.
-/

namespace Cryptbox.Base.Sql

/-- The values of a row, by the names of the columns. -/
abbrev Row (V : Type) := String → V

section

variable {V : Type} (integer : V → Option Int) (key : String)

/-- The column holds an integer in every row, another one in each. -/
structure Keyed (rows : List (Row V)) : Prop where
  exists_key : ∀ row ∈ rows, ∃ x, integer (row key) = some x
  unique : (rows.map fun row => integer (row key)).Nodup

/-- The integer in the column. -/
def keyOf (row : Row V) : Int := (integer (row key)).getD 0

/-- The rows in the order of their keys. -/
def entries (rows : List (Row V)) : List (Int × Row V) :=
  (rows.mergeSort fun a b => decide (keyOf integer key a ≤ keyOf integer key b)).map fun row =>
    (keyOf integer key row, row)

/-- The row with a key. -/
def lookup (rows : List (Row V)) (x : Int) : Option (Row V) :=
  rows.find? fun row => integer (row key) == some x

theorem length_entries (rows : List (Row V)) :
    (entries integer key rows).length = rows.length := by
  rw [entries, List.length_map, List.length_mergeSort]

theorem pairwise_mergeSort_keyOf (rows : List (Row V)) :
    (rows.mergeSort fun a b => decide (keyOf integer key a ≤ keyOf integer key b)).Pairwise
      fun a b => keyOf integer key a ≤ keyOf integer key b := by
  let le (a b : Row V) : Bool := decide (keyOf integer key a ≤ keyOf integer key b)
  have hTrans (a b c : Row V) (hab : le a b = true) (hbc : le b c = true) : le a c = true :=
    decide_eq_true ((of_decide_eq_true hab).trans (of_decide_eq_true hbc))
  have hTotal (a b : Row V) : (le a b || le b a) = true := by
    rw [Bool.or_eq_true, decide_eq_true_iff, decide_eq_true_iff]
    exact le_total _ _
  exact (List.pairwise_mergeSort hTrans hTotal rows).imp of_decide_eq_true

end

namespace Keyed

variable {V : Type} {integer : V → Option Int} {key : String} {rows rows' : List (Row V)}
  {row : Row V}

theorem keyOf_eq {x : Int} (h : integer (row key) = some x) : keyOf integer key row = x := by
  rw [keyOf, h, Option.getD_some]

theorem keyOf_spec (h : Keyed integer key rows) (hRow : row ∈ rows) :
    integer (row key) = some (keyOf integer key row) := by
  obtain ⟨x, hx⟩ := h.exists_key row hRow
  rw [hx, keyOf_eq hx]

theorem perm (h : Keyed integer key rows) (hPerm : rows'.Perm rows) : Keyed integer key rows' := by
  refine ⟨fun row hRow => h.exists_key row (hPerm.mem_iff.mp hRow), ?_⟩
  exact (hPerm.map _).nodup_iff.mpr h.unique

theorem filter (h : Keyed integer key rows) (p : Row V → Bool) :
    Keyed integer key (rows.filter p) :=
  ⟨fun row hRow => h.exists_key row (List.mem_of_mem_filter hRow),
    h.unique.sublist (List.filter_sublist.map _)⟩

/-- A row is found by its key. -/
theorem lookup_eq_some (h : Keyed integer key rows) {x : Int} :
    lookup integer key rows x = some row ↔ row ∈ rows ∧ integer (row key) = some x := by
  constructor
  · intro hFind
    have hKey := List.find?_some hFind
    exact ⟨List.mem_of_find?_eq_some hFind, eq_of_beq hKey⟩
  · intro hRow
    obtain ⟨hMem, hKey⟩ := hRow
    cases hFind : lookup integer key rows x with
    | none => exact absurd (beq_iff_eq.mpr hKey) (List.find?_eq_none.mp hFind row hMem)
    | some other =>
      have hFound : (integer (other key) == some x) = true :=
        List.find?_some (p := fun row : Row V => integer (row key) == some x) hFind
      have hOther : integer (other key) = some x := eq_of_beq hFound
      have hMemOther : other ∈ rows := List.mem_of_find?_eq_some hFind
      have hSame : other = row :=
        List.inj_on_of_nodup_map h.unique hMemOther hMem (hOther.trans hKey.symm)
      rw [hSame]

/-- The order of the rows does not matter. -/
theorem lookup_perm (h : Keyed integer key rows) (hPerm : rows'.Perm rows) (x : Int) :
    lookup integer key rows' x = lookup integer key rows x := by
  ext row
  rw [(h.perm hPerm).lookup_eq_some, h.lookup_eq_some, hPerm.mem_iff]

/-- Rows in the order of their keys are strictly so. -/
theorem ascending (h : Keyed integer key rows)
    (hSorted : rows.Pairwise fun a b => keyOf integer key a ≤ keyOf integer key b) :
    Ascending (rows.map fun row => (keyOf integer key row, row)) := by
  refine List.pairwise_map.mpr ?_
  have hBoth := hSorted.and (List.pairwise_map.mp h.unique)
  refine hBoth.imp_of_mem fun {a b} ha hb hab => ?_
  obtain ⟨hLe, hNe⟩ := hab
  rw [h.keyOf_spec ha, h.keyOf_spec hb] at hNe
  exact lt_of_le_of_ne hLe fun hEq => hNe (congrArg some hEq)

theorem mem_map_keyOf (h : Keyed integer key rows) {e : Int × Row V} :
    e ∈ rows.map (fun row => (keyOf integer key row, row)) ↔
      e.2 ∈ rows ∧ integer (e.2 key) = some e.1 := by
  rw [List.mem_map]
  constructor
  · rintro ⟨other, hMem, rfl⟩
    exact ⟨hMem, h.keyOf_spec hMem⟩
  · rintro ⟨hMem, hKey⟩
    exact ⟨e.2, hMem, Prod.ext (keyOf_eq hKey) rfl⟩

/-- **The rows of a table with a key**, in order. -/
theorem enumerates (h : Keyed integer key rows) :
    Enumerates (lookup integer key rows) (entries integer key rows) := by
  have hPerm := List.mergeSort_perm rows fun a b =>
    decide (keyOf integer key a ≤ keyOf integer key b)
  refine ⟨(h.perm hPerm).ascending (pairwise_mergeSort_keyOf integer key rows), fun e => ?_⟩
  rw [entries, (h.perm hPerm).mem_map_keyOf, hPerm.mem_iff, h.lookup_eq_some]

/-- **Rows that a condition on the key selects**, in order, are the next rows after a key. -/
theorem selected_eq (h : Keyed integer key rows) (after : Option Int) {p : Row V → Bool}
    (hAfter : ∀ row ∈ rows, p row = true ↔ After after (keyOf integer key row))
    {found : List (Row V)} (hFound : found.Perm (rows.filter p))
    (hSorted : found.Pairwise fun a b => keyOf integer key a ≤ keyOf integer key b) :
    found.map (fun row => (keyOf integer key row, row))
      = remaining (entries integer key rows) after := by
  have hKeyed := (h.filter p).perm hFound
  refine Ascending.ext (hKeyed.ascending hSorted) (h.enumerates.ascending.filter _) fun e => ?_
  rw [hKeyed.mem_map_keyOf, h.enumerates.mem_remaining, h.lookup_eq_some, hFound.mem_iff,
    List.mem_filter]
  constructor
  · rintro ⟨⟨hMem, hp⟩, hKey⟩
    have hLater := (hAfter e.2 hMem).mp hp
    rw [keyOf_eq hKey] at hLater
    exact ⟨⟨hMem, hKey⟩, hLater⟩
  · rintro ⟨⟨hMem, hKey⟩, hLater⟩
    rw [← keyOf_eq hKey] at hLater
    exact ⟨⟨hMem, (hAfter e.2 hMem).mpr hLater⟩, hKey⟩

/-- **A condition that fixes the key holds of one row at most.** -/
theorem countP_eq_one (h : Keyed integer key rows) {x : Int} {p : Row V → Bool}
    (hKey : ∀ row ∈ rows, p row = true → integer (row key) = some x) :
    rows.countP p = 1 ↔ ∃ row, lookup integer key rows x = some row ∧ p row = true := by
  have hOne : (rows.filter p).length ≤ 1 := by
    by_contra hMore
    obtain ⟨a, b, rest, hTwo⟩ : ∃ a b rest, rows.filter p = a :: b :: rest := by
      match hFilter : rows.filter p with
      | [] => simp [hFilter] at hMore
      | [a] => simp [hFilter] at hMore
      | a :: b :: rest => exact ⟨a, b, rest, rfl⟩
    have hUnique := (h.filter p).unique
    have hKeys (row : Row V) (hRow : row ∈ rows.filter p) : integer (row key) = some x :=
      hKey row (List.mem_of_mem_filter hRow) (List.of_mem_filter hRow)
    rw [hTwo] at hUnique hKeys
    rw [List.map_cons, List.map_cons, hKeys a List.mem_cons_self,
      hKeys b (List.mem_cons_of_mem _ List.mem_cons_self)] at hUnique
    exact (List.nodup_cons.mp hUnique).1 List.mem_cons_self
  rw [List.countP_eq_length_filter]
  constructor
  · intro hLength
    obtain ⟨row, hRow⟩ := List.length_eq_one_iff.mp hLength
    have hMem : row ∈ rows.filter p := hRow ▸ List.mem_singleton_self row
    have hHolds := List.of_mem_filter hMem
    have hStored := List.mem_of_mem_filter hMem
    exact ⟨row, h.lookup_eq_some.mpr ⟨hStored, hKey row hStored hHolds⟩, hHolds⟩
  · rintro ⟨row, hFound, hHolds⟩
    have hMem : row ∈ rows.filter p :=
      List.mem_filter.mpr ⟨(h.lookup_eq_some.mp hFound).1, hHolds⟩
    have hPos := List.length_pos_of_mem hMem
    omega

/-- Changing rows without their keys changes what is found under a key. -/
theorem lookup_forall₂ (h : Keyed integer key rows) {R : Row V → Row V → Prop}
    (hRows : List.Forall₂ (fun old new => new key = old key ∧ R old new) rows rows') :
    Keyed integer key rows' ∧
      ∀ x, Option.Rel R (lookup integer key rows x) (lookup integer key rows' x) := by
  have hKeys : (rows.map fun row => integer (row key)) = rows'.map fun row => integer (row key) := by
    rw [← List.forall₂_eq_eq_eq, List.forall₂_map_left_iff, List.forall₂_map_right_iff]
    exact hRows.imp fun _ _ hRow => congrArg integer hRow.1.symm
  refine ⟨⟨fun row hRow => ?_, hKeys ▸ h.unique⟩, fun x => ?_⟩
  · obtain ⟨old, hOld, hKey, -⟩ := forall₂_exists hRows.flip hRow
    obtain ⟨x, hx⟩ := h.exists_key old hOld
    exact ⟨x, by rw [hKey, hx]⟩
  · clear h hKeys
    unfold lookup
    induction hRows with
    | nil => exact .none
    | cons hRow hRows ih =>
      obtain ⟨hKey, hR⟩ := hRow
      rw [List.find?_cons, List.find?_cons, hKey]
      split
      · exact .some hR
      · exact ih

end Keyed

end Cryptbox.Base.Sql

import Cryptbox.Migrate.System

/-!
# Sweeps keep indexes consistent

An index column is consistent with a value when it is the index of that value under the key
it names. A rewrite decides column by column: it derives the stale ones from the plaintext
that the written ciphertext opens to, and keeps the others beside it.

* `RowPlanner.RowConsistent.write`: a rewrite of a consistent row is consistent.
* `System.index_consistency`: what a rewrite does to each column, and that consistency holds
  along every run.
-/

namespace Cryptbox

open Base

variable {prim : Primitives} {F : Seal} {R C E W : Type}

/-- The stored bytes are an index of this column, consistent with the value. -/
def IndexColumn.Consistent (column : IndexColumn prim F) (value : F.Value) (bytes : Bytes) : Prop :=
  ∃ stored, BlindIndex.fromBytes column.spec bytes = .ok stored ∧
    stored.isConsistentWith prim value column.source = .ok true

/-- The stored bytes are what the column derives for the value under its current key. -/
def IndexColumn.Derived (column : IndexColumn prim F) (value : F.Value) (bytes : Bytes) : Prop :=
  ∃ stored, BlindIndex.derive prim column.spec value column.source = .ok stored ∧
    stored.asBytes = bytes

namespace IndexColumn

variable {column : IndexColumn prim F} {value : F.Value} {bytes : Bytes}

theorem Derived.consistent (h : column.Derived value bytes) : column.Consistent value bytes := by
  obtain ⟨stored, hDerive, hBytes⟩ := h
  exact ⟨stored, BlindIndex.fromBytes_eq_ok.mpr hBytes, BlindIndex.isConsistentWith_derive hDerive⟩

/-- A consistent column that is not stale holds what its current key derives. -/
theorem Consistent.derived (h : column.Consistent value bytes)
    (hFresh : column.isStale bytes = .ok false) : column.Derived value bytes := by
  obtain ⟨stored, hParse, hConsistent⟩ := h
  obtain rfl := BlindIndex.fromBytes_eq_ok.mp hParse
  obtain ⟨-, keys, -, hKeys, -⟩ := isStale_eq_ok.mp hFresh
  have hCurrent := indexKeyId_of_fresh hKeys hFresh
  exact ⟨stored, BlindIndex.derive_of_isConsistentWith hConsistent hKeys hCurrent, rfl⟩

end IndexColumn

namespace RowPlanner

variable {planner : RowPlanner prim F R}

/-- If the row opens to a value, every index column is consistent with it. -/
def RowConsistent (planner : RowPlanner prim F R) (v : StoredRow R) : Prop :=
  ∀ plaintext value, Bound.open prim (planner.context v.columns) v.ciphertext planner.keys
      = .ok plaintext → F.codec.decode plaintext = .ok value →
    List.Forall₂ (fun column bytes => column.Consistent value bytes) planner.indexes v.indexes

/-- A kept column was consistent before, a derived one is. -/
theorem ColumnRewrite.consistent {column : IndexColumn prim F} {isLegacy : Bool}
    {plaintext old new : Bytes} {value : F.Value}
    (h : ColumnRewrite column isLegacy plaintext old new)
    (hDecode : F.codec.decode plaintext = .ok value)
    (hOld : isLegacy = false → column.Consistent value old) : column.Consistent value new := by
  cases h with
  | kept hEnvelope hFresh => exact hOld hEnvelope
  | derived hStale hDecode' hDerive =>
    cases hDecode.symm.trans hDecode'
    exact IndexColumn.Derived.consistent ⟨_, hDerive, rfl⟩

/-- **A rewrite of a consistent row is consistent.** -/
theorem RowConsistent.write (hAead : prim.DecryptsEncrypted) (hCodec : F.codec.RoundTrips)
    {v : StoredRow R} {draw : Option Nonce} {state : RowState} {write : RowWrite}
    (hPlan : planner.planRow v.columns v.ciphertext v.indexes draw = .ok ⟨state, some write⟩)
    (h : planner.RowConsistent v) : planner.RowConsistent (write.apply v) := by
  obtain ⟨plaintext, hOpen, hOld, hColumns⟩ := planRow_columns hAead hCodec hPlan rfl
  have hArity : v.indexes.length = planner.indexes.length := (planRow_cases hPlan).1
  intro plaintext' value hOpen' hDecode
  cases hOpen.symm.trans hOpen'
  have hFst : (planner.indexes.zip v.indexes).map Prod.fst = planner.indexes :=
    List.map_fst_zip (le_of_eq hArity.symm)
  have hBefore : ∀ c ∈ planner.indexes.zip v.indexes, isCiphertext v.ciphertext = true →
      c.1.Consistent value c.2 := fun c hc hMagic =>
    List.forall₂_zip (h plaintext value (hOld hMagic) hDecode) hc
  have hAfter : List.Forall₂ (fun c new => c.1.Consistent value new)
      (planner.indexes.zip v.indexes) write.indexes := by
    refine ((List.forall₂_and_left _ _).mpr ⟨hBefore, hColumns⟩).imp ?_
    rintro c new ⟨hc, hRewrite⟩
    exact hRewrite.consistent hDecode fun hEnvelope => hc (by simpa using hEnvelope)
  rw [← hFst]
  exact List.forall₂_map_left_iff.mpr hAfter

/-- The columns of a consistent row that is current are what the current keys derive. -/
theorem RowConsistent.derived {v : StoredRow R} {plaintext : Bytes} {value : F.Value}
    (h : planner.RowConsistent v)
    (hCurrent : planner.classifyRow v.columns v.ciphertext v.indexes = .ok .current)
    (hOpen : Bound.open prim (planner.context v.columns) v.ciphertext planner.keys = .ok plaintext)
    (hDecode : F.codec.decode plaintext = .ok value) :
    List.Forall₂ (fun column bytes => column.Derived value bytes) planner.indexes v.indexes := by
  obtain ⟨-, -, hFresh⟩ := classifyRow_eq_current.mp hCurrent
  have hConsistent := h plaintext value hOpen hDecode
  refine List.forall₂_iff_zip.mpr ⟨hConsistent.length_eq, fun hc => ?_⟩
  exact (List.forall₂_zip hConsistent hc).derived (hFresh _ hc)

end RowPlanner

/-! ## Runs -/

namespace System

variable [LinearOrder C] [DecidableEq W] {planner : RowPlanner prim F R}

/-- Every row of the system is consistent, wherever writers store consistent rows. -/
theorem rowConsistent_run (hAead : prim.DecryptsEncrypted) (hCodec : F.codec.RoundTrips)
    {sweeps : W → Sweep prim F R} (hPlanner : ∀ w, (sweeps w).planner = planner) {columnsOf : C → R}
    {s t : System C R E W} (hHolds : Holds sweeps (fun x r => r = columnsOf x) s)
    (h : Everywhere (fun x v => v.columns = columnsOf x ∧ planner.RowConsistent v) s.shared)
    (hRun : Run sweeps (fun x v => v.columns = columnsOf x ∧ planner.RowConsistent v) s t) :
    Everywhere (fun x v => v.columns = columnsOf x ∧ planner.RowConsistent v) t.shared := by
  have hShared := (shared_run hPlanner (fun _ _ h => h.1) hHolds hRun).2
  refine h.run (fun _ _ hv => hv) ?_ hShared
  rintro x v _ ⟨read, draw, state, write, rfl, hPlan, rfl⟩ ⟨hColumns, hConsistent⟩
  rw [← hColumns] at hPlan
  exact ⟨hColumns, hConsistent.write hAead hCodec hPlan⟩

/-- **A sweep preserves and establishes index consistency.**

1. A rewrite has one entry for each registered column, in order. The columns of a legacy row
   and the stale ones are derived from the value that the written ciphertext opens to, under
   the current index key; the others keep their bytes.
2. In a run from a store of consistent rows, beside writers that store such, every row is
   consistent at every state, and the columns of a row that is current are what the current
   keys derive. -/
theorem index_consistency (planner : RowPlanner prim F R) (hAead : prim.DecryptsEncrypted)
    (hCodec : F.codec.RoundTrips) :
    (∀ row ciphertext indexes draw outcome write,
      planner.planRow row ciphertext indexes draw = .ok outcome → outcome.write = some write →
      write.indexes.length = planner.indexes.length ∧
      ∃ plaintext, Bound.open prim (planner.context row) write.ciphertext planner.keys
          = .ok plaintext ∧
        List.Forall₂
          (fun c new => RowPlanner.ColumnRewrite c.1 (!isCiphertext ciphertext) plaintext c.2 new)
          (planner.indexes.zip indexes) write.indexes) ∧
    (∀ (batchSizes : W → Nat) (columnsOf : C → R) (table : C → Option (StoredRow R))
      (s : System C R E W),
      (∀ x v, table x = some v → v.columns = columnsOf x ∧ planner.RowConsistent v) →
      Run (fun w => (Sweep.new planner).withBatchSize (batchSizes w))
        (fun x v => v.columns = columnsOf x ∧ planner.RowConsistent v) (init table) s →
      ∀ x v, s.db.table x = some v → planner.RowConsistent v ∧
        (planner.classifyRow v.columns v.ciphertext v.indexes = .ok .current →
          ∀ plaintext value,
            Bound.open prim (planner.context v.columns) v.ciphertext planner.keys
              = .ok plaintext → F.codec.decode plaintext = .ok value →
            List.Forall₂ (fun column bytes => column.Derived value bytes) planner.indexes
              v.indexes)) := by
  refine ⟨fun row ciphertext indexes draw outcome write hPlan hWrite => ?_,
    fun batchSizes columnsOf table s hTable hRun x v hStored => ?_⟩
  · obtain ⟨plaintext, hOpen, -, hColumns⟩ := RowPlanner.planRow_columns hAead hCodec hPlan hWrite
    have hArity := (RowPlanner.planRow_cases hPlan).1
    refine ⟨?_, plaintext, hOpen, hColumns⟩
    rw [← hColumns.length_eq, List.length_zip, hArity, Nat.min_self]
  · have hHolds : Holds (fun w => (Sweep.new planner).withBatchSize (batchSizes w))
        (fun x r => r = columnsOf x) (init table : System C R E W) :=
      holds_init fun x v h => (hTable x v h).1
    have hPlanner : ∀ w, ((Sweep.new planner).withBatchSize (batchSizes w)).planner = planner :=
      fun _ => rfl
    have hRow := rowConsistent_run hAead hCodec hPlanner hHolds hTable hRun x v hStored
    exact ⟨hRow.2, fun hCurrent plaintext value hOpen hDecode =>
      hRow.2.derived hCurrent hOpen hDecode⟩

open Vectors in
/-- After the run over the vectors, the index of each row is what the current key derives. -/
theorem index_consistency_vector : swept.db.table 9 = some sealedRow ∧
    ∀ x v, swept.db.table x = some v →
      List.Forall₂ (fun column bytes => IndexColumn.Derived column plaintext bytes)
        Vectors.planner.indexes v.indexes := by
  obtain ⟨-, hRuns⟩ := index_consistency (C := Nat) (E := Empty) (W := Bool) Vectors.planner
    decryptsEncrypted roundTrips
  have hLegacy : Vectors.planner.RowConsistent legacyRow := by
    intro plaintext value hOpen _
    cases hOpen.symm.trans open_plaintext
  have hSealed : Vectors.planner.RowConsistent sealedRow := by
    have hWrite := hLegacy.write decryptsEncrypted roundTrips (planRow_plaintext [])
    exact hWrite
  have hTable : ∀ x v, twoRows legacyRow legacyRow x = some v →
      v.columns = () ∧ Vectors.planner.RowConsistent v := by
    intro x v hStored
    obtain rfl | rfl := twoRows_cases hStored
    · exact ⟨rfl, hLegacy⟩
    · exact ⟨rfl, hLegacy⟩
  have hCurrent : Vectors.planner.classifyRow () envelope [Vectors.index] = .ok .current :=
    RowPlanner.classifyRow_write (planRow_plaintext []) rfl ()
  refine ⟨rfl, fun x v hStored => ?_⟩
  have hDerived := (hRuns (fun _ => 2) (fun _ => ()) (twoRows legacyRow legacyRow) swept hTable
    (sweep_run ⟨rfl, hSealed⟩) x v hStored).2
  obtain rfl | rfl := twoRows_cases hStored
  · exact hDerived hCurrent plaintext.val plaintext open_envelope decode_plaintext
  · exact hDerived hCurrent plaintext.val plaintext open_envelope decode_plaintext

end System

end Cryptbox

import Mathlib.Data.Set.Defs
import Cryptbox.Migrate.Verify

/-!
# Retiring historical keys

After a terminal verification every envelope and every index column names a current key. An
envelope is opened by the key it names and no other, and the ID of its key is part of an
index's bytes, so nothing that is read or looked up needs a historical key any more.

* `Sweep.verify_current`: a terminal verification has seen every row, and found it current.
* `Sweep.retire_unobservable`: opening, lookup and the consistency check give the same with
  the current keys alone.
-/

namespace Cryptbox

open Base Envelope

variable {prim : Primitives} {F : Seal} {R C E S : Type}

/-! ## What names a current key needs no other -/

namespace BlindIndex

variable {spec : BlindIndexSpec F} {stored : BlindIndex spec} {keys : BlindIndexKeys}
  {keyring : BlindIndexKeyring}

/-- An index that names the current key is a probe only as the probe of that key. -/
theorem mem_probes_iff (hTotal : prim.Total) (hKeys : keys.blindIndexKeyring = .ok keyring)
    (hCurrent : stored.indexKeyId = .ok keyring.current.id) (query : spec.Query) :
    (∃ probes, BlindIndex.probes prim spec query keys = .ok probes ∧ stored ∈ probes) ↔
      ∃ normalized, spec.normalizeQuery query = .ok normalized ∧
        deriveNormalized prim spec normalized.val (indexContext prim F) keyring.current
          = .ok stored := by
  constructor
  · intro h
    obtain ⟨probes, hProbes, hMem⟩ := h
    obtain ⟨normalized, keyring', hQuery, hKeys', hProbes⟩ := probesIn_eq_ok.mp hProbes
    cases hKeys.symm.trans hKeys'
    obtain ⟨key, hKey, hDerive⟩ := forall₂_exists hProbes.flip hMem
    have hId : key.id = keyring.current.id :=
      Except.ok.inj ((deriveNormalized_bytes hDerive).2.symm.trans hCurrent)
    have hGet := Ring.mem_readable.mp hKey
    rw [hId, keyring.get_current] at hGet
    exact ⟨normalized, hQuery, Option.some.inj hGet ▸ hDerive⟩
  · intro h
    obtain ⟨normalized, hQuery, hDerive⟩ := h
    obtain ⟨probes, hProbes⟩ := exists_probesIn hTotal hQuery hKeys (indexContext prim F)
    exact ⟨probes, hProbes, mem_probesIn hProbes hQuery hKeys keyring.get_current hDerive⟩

end BlindIndex

/-! ## What a terminal verification has seen -/

namespace Sweep

variable {sweep : Sweep prim F R}

theorem verifyRow_terminal {report report' : SweepReport} {row : SweepRow C R}
    (h : sweep.verifyRow report row = .ok report') (hTerminal : report'.isTerminal = true) :
    report.isTerminal = true ∧ sweep.planner.verdict row.stored = .ok .current := by
  rcases verifyRow_eq_ok h with ⟨state, hOk, rfl⟩ | ⟨e, -, -, rfl⟩
  · cases state with
    | current => exact ⟨hTerminal, hOk⟩
    | stale => simp [SweepReport.isTerminal, SweepReport.record] at hTerminal
    | legacy => simp [SweepReport.isTerminal, SweepReport.record] at hTerminal
  · simp [SweepReport.isTerminal] at hTerminal

theorem verifyRows_terminal {report report' : SweepReport} {rows : List (SweepRow C R)}
    (h : sweep.verifyRows report rows = .ok report') (hTerminal : report'.isTerminal = true) :
    report.isTerminal = true ∧
      ∀ row ∈ rows, sweep.planner.verdict row.stored = .ok .current := by
  induction rows generalizing report with
  | nil =>
    cases h
    exact ⟨hTerminal, fun _ h => nomatch h⟩
  | cons row rows ih =>
    unfold verifyRows at h
    rw [List.foldlM_cons] at h
    obtain ⟨next, hRow, hRest⟩ := bind_eq_ok.mp h
    obtain ⟨hNext, hRows⟩ := ih hRest
    obtain ⟨hReport, hCurrent⟩ := verifyRow_terminal hRow hNext
    exact ⟨hReport, List.forall_mem_cons.mpr ⟨hCurrent, hRows⟩⟩

variable [LinearOrder C] {store : Store S C R E} {view : S → Database C R}

/-- **A terminal verification has seen every row**, and found it current. -/
theorem verify_current (hMeets : store.Meets view) {fuel : Nat} {after : Option C}
    {report report' : SweepReport} {s s' : S} {calls : List (Call C R)}
    (hVerify : sweep.verify store fuel (.loadingBatch after report) s
      = (calls, .finished (.ok report'), s')) (hTerminal : report'.isTerminal = true) :
    report.isTerminal = true ∧ ∀ x v, (view s).table x = some v → After after x →
      sweep.planner.verdict v = .ok .current := by
  induction fuel generalizing after report s calls with
  | zero => cases hVerify
  | succ fuel ih =>
    cases hLoad : (store.exec (.loadBatch after sweep.batchSize) s).1 with
    | error e =>
      unfold verify pollVerify at hVerify
      simp only [hLoad] at hVerify
      rw [verify_ready rfl] at hVerify
      cases hVerify
    | ok rows =>
      rw [verify_load fuel hLoad] at hVerify
      obtain ⟨hView, hPage⟩ := hMeets.loadBatch hLoad
      generalize store.exec (.loadBatch after sweep.batchSize) s = next at hVerify hView
      obtain ⟨-, hRest⟩ := Prod.mk.inj hVerify
      have hRest : sweep.verify store fuel (sweep.verifyBatch report rows) next.2
          = ((sweep.verify store fuel (sweep.verifyBatch report rows) next.2).1,
            .finished (.ok report'), s') := Prod.ext rfl hRest
      cases hBatch : sweep.verifyRows report rows with
      | error f =>
        rw [verifyBatch_error hBatch, verify_outcome] at hRest
        cases f <;> cases hRest
      | ok report₁ =>
        cases hLast : rows.getLast? with
        | none =>
          obtain rfl := List.getLast?_eq_none_iff.mp hLast
          rw [show sweep.verifyBatch report [] = outcome (.ok report) from rfl,
            verify_outcome] at hRest
          cases hRest
          refine ⟨hTerminal, fun x v hStored hAfter => ?_⟩
          have hMem := hPage.mem sweep.positive hStored hAfter (by intro e he; cases he)
          cases hMem
        | some last =>
          rw [verifyBatch_last hBatch hLast] at hRest
          obtain ⟨hTerminal₁, hBeyond⟩ := ih hRest
          obtain ⟨hReport, hRows⟩ := verifyRows_terminal hBatch hTerminal₁
          refine ⟨hReport, fun x v hStored hAfter => ?_⟩
          rw [hView] at hBeyond
          rcases le_or_gt x last.cursor with hReached | hx
          · have hMem := hPage.mem sweep.positive hStored hAfter fun e he => by
              rw [List.getLast?_map, hLast] at he
              cases he
              exact hReached
            obtain ⟨row, hRow, hEntry⟩ := List.mem_map.mp hMem
            cases hEntry
            exact hRows row hRow
          · exact hBeyond x v hStored (after_some.mpr hx)

end Sweep

/-! ## Retirement -/

namespace RowPlanner

variable {planner : RowPlanner prim F R} {v : StoredRow R}

/-- A current row opens, under any context, as it does under the current key alone. -/
theorem open_retired (hCurrent : planner.verdict v = .ok .current) (context : SealContext) :
    Bound.open prim context v.ciphertext planner.keys
      = Bound.open prim context v.ciphertext (.single planner.keys.current) := by
  obtain ⟨-, hReseal, -⟩ := classifyRow_eq_current.mp hCurrent
  obtain ⟨l, hFits, hBytes, -, hKeyId, -⟩ := Bound.needsReseal_eq_false.mp hReseal
  apply Bound.open_congr
  intro l' hFits' hBytes'
  obtain rfl := Layout.bytes_injective (hBytes.symm.trans hBytes')
  rw [hKeyId, Ring.get_current, Ring.get_single, if_pos rfl]

/-- The index columns of a current row name their current keys. -/
theorem indexKeyId_current (hCurrent : planner.verdict v = .ok .current) {j : Nat}
    {column : IndexColumn prim F} {keyring : BlindIndexKeyring} {bytes : Bytes}
    {stored : BlindIndex column.spec} (hColumn : planner.indexes[j]? = some column)
    (hKeys : column.source.blindIndexKeyring = .ok keyring) (hBytes : v.indexes[j]? = some bytes)
    (hParse : BlindIndex.fromBytes column.spec bytes = .ok stored) :
    stored.indexKeyId = .ok keyring.current.id := by
  obtain ⟨-, -, hFresh⟩ := classifyRow_eq_current.mp hCurrent
  obtain rfl := BlindIndex.fromBytes_eq_ok.mp hParse
  refine IndexColumn.indexKeyId_of_fresh hKeys (hFresh (column, stored.asBytes) ?_)
  refine List.mem_of_getElem? (i := j) ?_
  rw [List.getElem?_zip_eq_some]
  exact ⟨hColumn, hBytes⟩

end RowPlanner

/-- The rows whose column `j` is among the probes of a query. -/
def selected (prim : Primitives) {F : Seal} (spec : BlindIndexSpec F) (query : spec.Query)
    (keys : BlindIndexKeys) (table : C → Option (StoredRow R)) (j : Nat) : Set C :=
  { x | ∃ v bytes stored, table x = some v ∧ v.indexes[j]? = some bytes ∧
    BlindIndex.fromBytes spec bytes = .ok stored ∧
    ∃ probes, BlindIndex.probes prim spec query keys = .ok probes ∧ stored ∈ probes }

namespace Sweep

variable [LinearOrder C]

/-- **After a terminal verification, retiring the historical keys is unobservable.** With the
current keys alone every row opens as before under every context, every query selects the
same rows, and the consistency check of every index gives the same. A store has fewer than 2^64
rows, so no counter of the report wraps to zero. -/
theorem retire_unobservable (planner : RowPlanner prim F R) (hTotal : prim.Total) (batchSize : Nat)
    {store : Store S C R E} {view : S → Database C R} (hMeets : store.Meets view) {fuel : Nat}
    {s s' : S} {calls : List (Call C R)} {report : SweepReport}
    (hVerify : ((Sweep.new planner).withBatchSize batchSize).verify store fuel
      (.loadingBatch none {}) s = (calls, .finished (.ok report), s'))
    (hTerminal : report.isTerminal = true) :
    (∀ x v, (view s).table x = some v → ∀ context,
      Bound.open prim context v.ciphertext planner.keys
        = Bound.open prim context v.ciphertext (.single planner.keys.current)) ∧
    (∀ j column keyring, planner.indexes[j]? = some column →
      column.source.blindIndexKeyring = .ok keyring →
      (∀ query, selected prim column.spec query column.source (view s).table j
        = selected prim column.spec query (.keyring (.single keyring.current)) (view s).table j) ∧
      (∀ x v bytes stored, (view s).table x = some v → v.indexes[j]? = some bytes →
        BlindIndex.fromBytes column.spec bytes = .ok stored → ∀ value,
        stored.isConsistentWith prim value column.source
          = stored.isConsistentWith prim value (.keyring (.single keyring.current)))) := by
  have hCurrent : ∀ x v, (view s).table x = some v → planner.verdict v = .ok .current :=
    fun x v hStored => (verify_current hMeets hVerify hTerminal).2 x v hStored (after_none x)
  refine ⟨fun x v hStored => RowPlanner.open_retired (hCurrent x v hStored),
    fun j column keyring hColumn hKeys => ⟨fun query => ?_, ?_⟩⟩
  · ext x
    refine exists_congr fun v => exists_congr fun bytes => exists_congr fun stored =>
      and_congr_right fun hStored => and_congr_right fun hBytes => and_congr_right fun hParse => ?_
    have hId := RowPlanner.indexKeyId_current (hCurrent x v hStored) hColumn hKeys hBytes hParse
    rw [BlindIndex.mem_probes_iff hTotal hKeys hId query]
    have hSingle : (BlindIndexKeys.keyring (.single keyring.current)).blindIndexKeyring
        = .ok (.single keyring.current) := rfl
    rw [BlindIndex.mem_probes_iff hTotal hSingle hId query]
    rfl
  · intro x v bytes stored hStored hBytes hParse value
    have hId := RowPlanner.indexKeyId_current (hCurrent x v hStored) hColumn hKeys hBytes hParse
    refine BlindIndex.isConsistentWith_congr hId hKeys rfl ?_ value
    rw [Ring.get_current, Ring.get_single, if_pos rfl]

/-- The envelope of the vectors opens after a rotation as it does once the previous key is
retired. -/
theorem retire_unobservable_vector :
    Bound.open Vectors.prim (.standalone Vectors.prim Vectors.vectorSeal) Vectors.envelope
        Vectors.rotatedKeyring
      = Bound.open Vectors.prim (.standalone Vectors.prim Vectors.vectorSeal) Vectors.envelope
        (.single Vectors.rotatedKeyring.current) := by
  let planner := (RowPlanner.new Vectors.prim Vectors.vectorSeal Unit
    (.keyring Vectors.rotatedKeyring)).withIndex Vectors.vectorIndex (.keyring Vectors.indexKeyring)
  have hAscending : Ascending [(7, Vectors.sealedRow)] := List.pairwise_singleton ..
  have hMeets := Store.snapshot_meets hAscending
  obtain ⟨fuel, calls, s', hVerify, -, -⟩ := verify_pages ((Sweep.new planner).withBatchSize 0)
    hMeets (fun _ _ _ => ⟨_, rfl⟩) none {} () hAscending.enumerates
  rw [remaining_none] at hVerify
  have hRows : ((Sweep.new planner).withBatchSize 0).verifyRows {}
      ([(7, Vectors.sealedRow)].map .ofEntry) = .ok { current := 1 } := by decide +kernel
  rw [hRows] at hVerify
  obtain ⟨hOpen, -⟩ := retire_unobservable planner Vectors.total 0 hMeets hVerify rfl
  exact hOpen 7 Vectors.sealedRow rfl _

end Sweep

end Cryptbox

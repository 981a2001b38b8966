import Cryptbox.Record
import Cryptbox.Migrate.Quiet

/-!
# Planners that cannot serve a row

A planner of the wrong kind, or with an index column whose keys were never configured, is meant
to fail every row. It fails those that classification looks into far enough: bytes without the
magic are legacy whatever the planner, and a stale envelope is stale whatever its columns are.

* `RowPlanner.fails_iff`: which rows neither classify nor plan.
* `RowPlanner.wrong_kind`: a planner of the wrong kind; `wrong_kind_seals` is a row it seals.
* `RowPlanner.missing_keys`: a column without keys; `missing_keys_counts` is a row it counts.
-/

namespace Cryptbox

open Base Envelope

variable {prim : Primitives} {F : Seal} {R C E S W : Type}

namespace RowPlanner

variable {planner : RowPlanner prim F R} {row : R} {ciphertext : Bytes} {indexes : List Bytes}

/-! ## Rows that fail -/

/-- No classification and no plan of the row succeeds. -/
def Fails (planner : RowPlanner prim F R) (row : R) (ciphertext : Bytes) (indexes : List Bytes) :
    Prop :=
  (∀ state, planner.classifyRow row ciphertext indexes ≠ .ok state) ∧
    ∀ draw outcome, planner.planRow row ciphertext indexes draw ≠ .ok outcome

/-- The bytes start with the magic. They are no envelope of the planner's own kind of context,
or a current one whose first column that is not fresh cannot be examined. -/
def Refuses (planner : RowPlanner prim F R) (row : R) (ciphertext : Bytes) (indexes : List Bytes) :
    Prop :=
  isCiphertext ciphertext = true ∧ ∀ info, inspectCiphertext ciphertext = .ok info →
    info.contextFingerprint = (planner.context row).fingerprint →
      (info.keyId = planner.keys.current.id ∧ info.padded = F.padding.isPadded) ∧
        ∃ f, FirstNotFresh (planner.indexes.zip indexes) (.error f)

/-- The row is a current envelope of the planner's context, and its first column that is not
fresh parses but has no keyring. -/
def NeedsMissingKeys (planner : RowPlanner prim F R) (row : R) (ciphertext : Bytes)
    (indexes : List Bytes) : Prop :=
  ∃ info, inspectCiphertext ciphertext = .ok info ∧
    info.contextFingerprint = (planner.context row).fingerprint ∧
    (info.keyId = planner.keys.current.id ∧ info.padded = F.padding.isPadded) ∧
    FirstNotFresh (planner.indexes.zip indexes) (err .blindIndexKeysNotConfigured)

/-- Classification refuses a row. -/
theorem classifyRow_refuses (hArity : indexes.length = planner.indexes.length) :
    (∀ state, planner.classifyRow row ciphertext indexes ≠ .ok state) ↔
      planner.Refuses row ciphertext indexes := by
  rcases classifyRow_cases planner row hArity ciphertext with ⟨hMagic, hOk⟩ |
    ⟨hMagic, ⟨e, -, hInspect, hErr⟩ | ⟨info, hInspect, hInfo⟩⟩
  · rw [hOk]
    refine ⟨fun h => absurd rfl (h .legacy), fun h => ?_⟩
    cases hMagic.symm.trans h.1
  · rw [hErr]
    refine ⟨fun _ => ⟨hMagic, fun info hOk => ?_⟩, fun _ state h => ?_⟩
    · cases hInspect.symm.trans hOk
    · cases h
  · have hOnly {other : CiphertextInfo} (hOther : inspectCiphertext ciphertext = .ok other) :
        other = info := Except.ok.inj (hOther.symm.trans hInspect)
    rcases hInfo with ⟨hOther, hErr⟩ | ⟨hOwn, hStale, hOk⟩ | ⟨hOwn, hCurrent, hColumns⟩
    · rw [hErr]
      refine ⟨fun _ => ⟨hMagic, fun other hInfo hOwn => ?_⟩, fun _ state h => ?_⟩
      · exact absurd (hOnly hInfo ▸ hOwn) hOther
      · cases h
    · rw [hOk]
      exact ⟨fun h => absurd rfl (h .stale), fun h => absurd (h.2 info hInspect hOwn).1 hStale⟩
    · rw [hColumns]
      constructor
      · intro h
        refine ⟨hMagic, fun other hInfo _ => ⟨hOnly hInfo ▸ hCurrent, ?_⟩⟩
        cases hStale : anyStale (planner.indexes.zip indexes) with
        | error f => exact ⟨f, anyStale_eq_error.mp hStale⟩
        | ok stale =>
          rw [hStale] at h
          exact absurd rfl (h _)
      · intro h state hOk
        obtain ⟨-, f, hFirst⟩ := h.2 info hInspect hOwn
        rw [anyStale_eq_error.mpr hFirst] at hOk
        cases hOk

/-- **Which rows fail**: those of another number of columns, and those that are refused. A plan
never succeeds where classification does not. -/
theorem fails_iff : planner.Fails row ciphertext indexes ↔
    indexes.length ≠ planner.indexes.length ∨ planner.Refuses row ciphertext indexes := by
  have hClassify : planner.Fails row ciphertext indexes ↔
      ∀ state, planner.classifyRow row ciphertext indexes ≠ .ok state :=
    ⟨fun h => h.1, fun h => ⟨h, fun draw outcome hPlan => h _ (planRow_state hPlan)⟩⟩
  rw [hClassify]
  by_cases hArity : indexes.length = planner.indexes.length
  · rw [classifyRow_refuses hArity]
    exact ⟨Or.inr, fun h => h.resolve_left (absurd hArity)⟩
  · refine ⟨fun _ => Or.inl hArity, fun _ state hOk => ?_⟩
    obtain ⟨_, hCheck, -⟩ := bind_eq_ok.mp hOk
    exact hArity (ensure_eq_ok.mp hCheck)

theorem Fails.untouched {v : StoredRow R} (h : planner.Fails v.columns v.ciphertext v.indexes) :
    planner.Untouched v :=
  fun draw outcome hPlan => absurd hPlan (h.2 draw outcome)

/-! ## Rows that verification counts -/

/-- A missing keyring is reported for the rows that need it. -/
theorem classifyRow_missing (hArity : indexes.length = planner.indexes.length) :
    planner.classifyRow row ciphertext indexes = err .blindIndexKeysNotConfigured ↔
      planner.NeedsMissingKeys row ciphertext indexes := by
  rcases classifyRow_cases planner row hArity ciphertext with ⟨hMagic, hOk⟩ |
    ⟨-, ⟨e, hBad, hInspect, hErr⟩ | ⟨info, hInspect, hInfo⟩⟩
  · rw [hOk]
    refine ⟨nofun, fun h => ?_⟩
    obtain ⟨info, hInspect, -⟩ := h
    cases (inspectCiphertext_notCiphertext hMagic).symm.trans hInspect
  · rw [hErr]
    refine ⟨fun h => ?_, fun h => ?_⟩
    · cases h
      exact hBad.elim
    · obtain ⟨info, hOk, -⟩ := h
      cases hInspect.symm.trans hOk
  · have hOnly {other : CiphertextInfo} (hOther : inspectCiphertext ciphertext = .ok other) :
        other = info := Except.ok.inj (hOther.symm.trans hInspect)
    rcases hInfo with ⟨hOther, hErr⟩ | ⟨-, hStale, hOk⟩ | ⟨hOwn, hCurrent, hColumns⟩
    · rw [hErr]
      refine ⟨nofun, fun h => ?_⟩
      obtain ⟨other, hInfo, hOwn, -⟩ := h
      exact absurd (hOnly hInfo ▸ hOwn) hOther
    · rw [hOk]
      refine ⟨nofun, fun h => ?_⟩
      obtain ⟨other, hInfo, -, hCurrent, -⟩ := h
      exact absurd (hOnly hInfo ▸ hCurrent) hStale
    · rw [hColumns, map_eq_error, anyStale_eq_error]
      constructor
      · intro h
        exact ⟨info, hInspect, hOwn, hCurrent, h⟩
      · intro h
        obtain ⟨-, -, -, -, hFirst⟩ := h
        exact hFirst

/-- **Which rows can be counted**: those with the registered number of columns that need no
missing keys. -/
theorem countable_iff {v : StoredRow R} : planner.Countable v ↔
    v.indexes.length = planner.indexes.length ∧
      ¬ planner.NeedsMissingKeys v.columns v.ciphertext v.indexes := by
  constructor
  · intro h
    have hArity : v.indexes.length = planner.indexes.length := by
      by_contra hArity
      obtain ⟨e, hError, hData⟩ := h _ (bind_eq_error.mpr (Or.inl (ensure_eq_error.mpr
        ⟨hArity, rfl⟩)))
      cases hError
      cases hData
    refine ⟨hArity, fun hMissing => ?_⟩
    obtain ⟨e, hError, hData⟩ := h _ ((classifyRow_missing hArity).mpr hMissing)
    cases hError
    cases hData
  · intro h f hError
    obtain ⟨hArity, hPresent⟩ := h
    obtain ⟨e, rfl, hData | ⟨-, hOther⟩ | ⟨rfl, -⟩⟩ := classifyRow_eq_error hError
    · exact ⟨e, rfl, hData⟩
    · exact absurd hArity hOther
    · exact absurd ((classifyRow_missing hArity).mp hError) hPresent

end RowPlanner

/-- A census of rows that do not classify. -/
theorem Census.malformed_iff {planner : RowPlanner prim F R} {rows : List (StoredRow R)}
    {report : SweepReport} (h : Census planner rows report) :
    report = { malformed := rows.length } ↔ ∀ v ∈ rows, ∀ state, planner.verdict v ≠ .ok state := by
  constructor
  · intro hReport v hv state hOk
    have hAll : rows.countP (fun v => !(planner.verdict v).isOk) = rows.length := by
      rw [← h.malformed, hReport]
    have hNot := List.countP_eq_length.mp hAll v hv
    rw [hOk] at hNot
    cases hNot
  · intro hNever
    have hNone (state : RowState) :
        rows.countP (fun v => decide (planner.verdict v = .ok state)) = 0 :=
      List.countP_eq_zero.mpr fun v hv => by simpa using hNever v hv state
    have hAll : rows.countP (fun v => !(planner.verdict v).isOk) = rows.length := by
      refine List.countP_eq_length.mpr fun v hv => ?_
      cases hVerdict : planner.verdict v with
      | ok state => exact absurd hVerdict (hNever v hv state)
      | error f => rfl
    obtain ⟨hCurrent, hStale, hLegacy, hMalformed, hConflicts⟩ := h
    rw [hNone] at hCurrent hStale hLegacy
    rw [hAll] at hMalformed
    cases report
    simp_all

namespace Sweep

variable [LinearOrder C] {store : Store S C R E} {view : S → Database C R}
  {entries : List (C × StoredRow R)} {s : S}

/-- **Verification counts every row as malformed** exactly when every row is refused, has the
registered number of columns and needs no missing keys. -/
theorem verify_malformed (planner : RowPlanner prim F R) (batchSize : Nat)
    (hMeets : store.Meets view)
    (hLoads : ∀ after limit s, ∃ rows, (store.exec (.loadBatch after limit) s).1 = .ok rows)
    (hEntries : Enumerates (view s).table entries) :
    ∃ fuel calls s' result, ((Sweep.new planner).withBatchSize batchSize).verify store fuel
        (.loadingBatch none {}) s = (calls, .finished result, s') ∧ view s' = view s ∧
      (result = .ok { malformed := entries.length } ↔ ∀ e ∈ entries,
        e.2.indexes.length = planner.indexes.length ∧
        planner.Refuses e.2.columns e.2.ciphertext e.2.indexes ∧
        ¬ planner.NeedsMissingKeys e.2.columns e.2.ciphertext e.2.indexes) := by
  obtain ⟨fuel, calls, s', hVerify, hView, -⟩ := verify_entries planner batchSize hMeets hLoads
    hEntries
  by_cases hAll : ∀ e ∈ entries, planner.Countable e.2
  · obtain ⟨report, hOk, hCensus⟩ := verifyRows_census planner hAll
    rw [hOk] at hVerify
    refine ⟨fuel, calls, s', .ok report, hVerify, hView, ?_⟩
    have hLength : (entries.map Prod.snd).length = entries.length := List.length_map ..
    rw [Except.ok.injEq, ← hLength, hCensus.malformed_iff, List.forall_mem_map]
    refine forall₂_congr fun e he => ?_
    obtain ⟨hArity, hPresent⟩ := RowPlanner.countable_iff.mp (hAll e he)
    rw [and_iff_right hArity, and_iff_left hPresent]
    exact RowPlanner.classifyRow_refuses hArity
  · obtain ⟨before, e, after, error, hSplit, hBefore, hError, hData⟩ := exists_offending hAll
    rw [verifyRows_first hSplit hBefore hError hData] at hVerify
    refine ⟨fuel, calls, s', _, hVerify, hView, nofun, fun h => absurd ?_ hAll⟩
    intro e he
    exact RowPlanner.countable_iff.mpr ⟨(h e he).1, (h e he).2.2⟩

end Sweep

/-! ## A planner of the wrong kind -/

namespace RowPlanner

/-- The row has another number of columns than the planner, or the planner refuses it. -/
def RefusesRow (planner : RowPlanner prim F R) (v : StoredRow R) : Prop :=
  v.indexes.length ≠ planner.indexes.length ∨
    planner.Refuses v.columns v.ciphertext v.indexes

variable [LinearOrder C] [DecidableEq W]

/-- **When a planner of the wrong kind rewrites nothing**, for a column whose contexts are of
kind `kind`:

1. a row fails, with a `ContextMismatch` for the column's envelopes, exactly when it has another
   number of columns or the planner refuses it;
2. while every row is such a row, no worker in a sweep makes an update, in any run;
3. verification counts every row as malformed exactly when every row is refused, has the right
   number of columns and needs no missing index keys. -/
theorem wrong_kind (hKinds : Function.Injective (fingerprint prim)) (planner : RowPlanner prim F R)
    {kind : Option RecordKind}
    (hKind : ∀ row, (planner.recordId row).map RecordValue.kind ≠ kind) :
    (∀ row ciphertext indexes,
      (planner.Fails row ciphertext indexes ∧
        ∀ info, inspectCiphertext ciphertext = .ok info →
          info.contextFingerprint = fingerprint prim kind →
          indexes.length = planner.indexes.length →
          planner.classifyRow row ciphertext indexes = err .contextMismatch ∧
          ∀ draw, planner.planRow row ciphertext indexes draw = err .contextMismatch) ↔
      indexes.length ≠ planner.indexes.length ∨ planner.Refuses row ciphertext indexes) ∧
    (∀ (batchSizes : W → Nat) (Allowed : C → StoredRow R → Prop) (table : C → Option (StoredRow R))
      (s : System C R E W),
      (∀ x v, table x = some v → planner.RefusesRow v) →
      (∀ x v, Allowed x v → planner.RefusesRow v) →
      System.Run (fun w => (Sweep.new planner).withBatchSize (batchSizes w)) Allowed (.init table)
        s →
      s.db.table = s.origin ∧ ∀ w rows row replacement state todo report,
        s.workers w ≠ some (.updating rows row replacement state todo report)) ∧
    ∀ (batchSize : Nat) (S : Type) (store : Store S C R E) (view : S → Database C R)
      (entries : List (C × StoredRow R)) (s : S), store.Meets view →
      (∀ after limit s, ∃ rows, (store.exec (.loadBatch after limit) s).1 = .ok rows) →
      Enumerates (view s).table entries →
      ∃ fuel calls s' result, ((Sweep.new planner).withBatchSize batchSize).verify store fuel
          (.loadingBatch none {}) s = (calls, .finished result, s') ∧ view s' = view s ∧
        (result = .ok { malformed := entries.length } ↔ ∀ e ∈ entries,
          e.2.indexes.length = planner.indexes.length ∧
          planner.Refuses e.2.columns e.2.ciphertext e.2.indexes ∧
          ¬ planner.NeedsMissingKeys e.2.columns e.2.ciphertext e.2.indexes) := by
  refine ⟨fun row ciphertext indexes => ?_, fun batchSizes Allowed table s hTable hAllowed hRun => ?_,
    fun batchSize S store view entries s hMeets hLoads hEntries =>
      Sweep.verify_malformed planner batchSize hMeets hLoads hEntries⟩
  · refine ⟨fun h => fails_iff.mp h.1, fun h => ⟨fails_iff.mpr h, ?_⟩⟩
    intro info hInspect hColumn hArity
    have hOther : info.contextFingerprint ≠ (planner.context row).fingerprint := by
      intro hOwn
      exact hKind row (hKinds (hOwn.symm.trans hColumn))
    exact ⟨(planRow_mismatch planner row hArity hInspect hOther none).1,
      fun draw => (planRow_mismatch planner row hArity hInspect hOther draw).2⟩
  · have hUntouched : ∀ v, planner.RefusesRow v → planner.Untouched v :=
      fun v hv => (fails_iff.mpr hv).untouched
    have hPlanner (w : W) : ((Sweep.new planner).withBatchSize (batchSizes w)).planner = planner :=
      rfl
    have hQuiet := System.quiet_run hPlanner (fun x v hv => hUntouched v (hAllowed x v hv))
      (fun x v hv => hUntouched v (hTable x v hv)) hRun
    exact ⟨hQuiet.origin, fun w rows row replacement state todo report hWorker =>
      hQuiet.workers w _ hWorker⟩

end RowPlanner

namespace Vectors

/-- The fingerprints of all three kinds of context, with the answers of the record vector. -/
def knownKinds : KnownAnswers :=
  { knownRecord with hashes := (fingerprintLabel ++ [0, 1, 1],
      beBlock 32 0xf130f332c1aa00ecf9802ff37f6979474afc0973be5c59db24a298b196fabf77) ::
    knownRecord.hashes }

def kindsPrim : Primitives := .answering knownKinds

theorem fingerprint_injective : Function.Injective (fingerprint kindsPrim) := by
  rintro (_ | _ | _) (_ | _ | _) h <;> first | rfl | exact absurd h (by decide +kernel)

/-- A standalone planner, for the column of a record's field. -/
def misfit : RowPlanner kindsPrim vectorSeal Unit :=
  .new kindsPrim vectorSeal Unit (.keyring encryptionKeyring)

theorem misfit_kind (row : Unit) : (misfit.recordId row).map RecordValue.kind ≠ some .i64 := by
  intro h
  cases h

theorem misfit_plaintext : misfit.planRow () plaintext.val [] (some nonce)
    = .ok ⟨.legacy, some ⟨envelope, []⟩⟩ := by
  have hLegacy : misfit.planLegacyRow (misfit.context ()) plaintext.val (some nonce)
      = .ok ⟨.legacy, some ⟨envelope, []⟩⟩ := by decide +kernel
  exact hLegacy

end Vectors

namespace RowPlanner

/-- The record vector is refused by the standalone planner. -/
theorem wrong_kind_vector :
    Vectors.misfit.classifyRow () Vectors.recordEnvelope [] = err .contextMismatch := by
  obtain ⟨hRows, -⟩ := wrong_kind (C := Nat) (E := Empty) (W := Unit) Vectors.fingerprint_injective
    Vectors.misfit Vectors.misfit_kind
  have hInspect : inspectCiphertext Vectors.recordEnvelope = .ok ⟨formatVersion, ⟨1⟩, false,
      Vectors.keyId, fingerprint Vectors.kindsPrim (some .i64)⟩ := by decide +kernel
  have hOther : ∀ info, inspectCiphertext Vectors.recordEnvelope = .ok info →
      info.contextFingerprint ≠ (Vectors.misfit.context ()).fingerprint := by
    intro info hInfo
    cases hInspect.symm.trans hInfo
    decide +kernel
  have hRefuses : Vectors.misfit.Refuses () Vectors.recordEnvelope [] :=
    ⟨by decide +kernel, fun info hInfo hOwn => absurd hOwn (hOther info hInfo)⟩
  exact (((hRows () Vectors.recordEnvelope []).mpr (Or.inr hRefuses)).2 _ hInspect rfl rfl).1

/-- **A planner of the wrong kind seals legacy bytes.** The plaintext of the vectors, stored in
the column of a record's field, is legacy to a standalone planner. A sweep replaces it, and the
record's reader cannot open what it wrote. -/
theorem wrong_kind_seals :
    (∀ row, (Vectors.misfit.recordId row).map RecordValue.kind ≠ some .i64) ∧
    Vectors.misfit.classifyRow () Vectors.plaintext.val [] = .ok .legacy ∧
    Vectors.misfit.planRow () Vectors.plaintext.val [] (some Vectors.nonce)
      = .ok ⟨.legacy, some ⟨Vectors.envelope, []⟩⟩ ∧
    (((Sweep.new Vectors.misfit).withBatchSize 0).run MemoryStore.store
        (List.replicate 8 (some Vectors.nonce)) .loadingCheckpoint
        (.single 7 ⟨(), Vectors.plaintext.val, []⟩ none)).2
      = (.finished (.ok { legacy := 1 }), .single 7 ⟨(), Vectors.envelope, []⟩ (some 7)) ∧
    Bound.open Vectors.kindsPrim (.new Vectors.kindsPrim Vectors.vectorSeal.id (some (.i64 7)))
      Vectors.envelope Vectors.encryptionKeyring = err .contextMismatch :=
  ⟨Vectors.misfit_kind, planRow_state Vectors.misfit_plaintext, Vectors.misfit_plaintext,
    MemoryStore.run_single 7 ⟨(), Vectors.plaintext.val, []⟩ Vectors.misfit_plaintext,
    by decide +kernel⟩

end RowPlanner

/-! ## A column without keys -/

section

variable {column : IndexColumn prim F}

/-- A column without a keyring examines no bytes. -/
theorem isStale_missing (hKeys : column.source.blindIndexKeyring = err .blindIndexKeysNotConfigured)
    (bytes : Bytes) (stale : Bool) : column.isStale bytes ≠ .ok stale := by
  intro h
  obtain ⟨info, keys, -, hOk, -⟩ := IndexColumn.isStale_eq_ok.mp h
  cases hKeys.symm.trans hOk

namespace RowPlanner

variable {planner : RowPlanner prim F R} {row : R} {ciphertext : Bytes} {indexes : List Bytes}

/-- A registered column stands beside some of the row's bytes. -/
theorem exists_mem_zip (hColumn : column ∈ planner.indexes)
    (hArity : indexes.length = planner.indexes.length) :
    ∃ bytes, (column, bytes) ∈ planner.indexes.zip indexes := by
  rw [← List.map_fst_zip (le_of_eq hArity.symm)] at hColumn
  obtain ⟨⟨_, bytes⟩, hMem, rfl⟩ := List.mem_map.mp hColumn
  exact ⟨bytes, hMem⟩

/-- **No plan succeeds** with a column that has no keys. -/
theorem planRow_missing (hColumn : column ∈ planner.indexes)
    (hKeys : column.source.blindIndexKeyring = err .blindIndexKeysNotConfigured)
    (draw : Option Nonce) (outcome : RowOutcome) :
    planner.planRow row ciphertext indexes draw ≠ .ok outcome := by
  intro h
  obtain ⟨hArity, ⟨-, hCurrent⟩ | ⟨write, plaintext, -, hRewrite⟩ |
    ⟨write, plaintext, value, encoded, -, hRewrite⟩⟩ := planRow_cases h
  · obtain ⟨bytes, hMem⟩ := exists_mem_zip hColumn hArity
    exact isStale_missing hKeys bytes _ ((classifyRow_eq_current.mp hCurrent).2.2 _ hMem)
  · obtain ⟨bytes, hMem⟩ := exists_mem_zip hColumn hArity
    obtain ⟨new, -, hNew⟩ := forall₂_exists hRewrite.indexes hMem
    cases hNew with
    | kept hFresh => exact isStale_missing hKeys _ _ hFresh
    | derived hStale => exact isStale_missing hKeys _ _ hStale
  · obtain ⟨new, -, hDerive⟩ := forall₂_exists hRewrite.derived hColumn
    obtain ⟨stored, hStored, -⟩ := IndexColumn.derive_eq_ok.mp hDerive
    obtain ⟨keys, hOk, -⟩ := BlindIndex.deriveValue_eq_ok.mp hStored
    cases hKeys.symm.trans hOk

/-- With a column that has no keys, the first column that is not fresh is stale, or cannot be
examined. -/
theorem firstNotFresh_missing (hColumn : column ∈ planner.indexes)
    (hKeys : column.source.blindIndexKeyring = err .blindIndexKeysNotConfigured)
    (hArity : indexes.length = planner.indexes.length) :
    (∃ f, FirstNotFresh (planner.indexes.zip indexes) (.error f)) ↔
      ¬ FirstNotFresh (planner.indexes.zip indexes) (.ok true) := by
  rw [← anyStale_eq_true]
  cases hStale : anyStale (planner.indexes.zip indexes) with
  | error f =>
    exact ⟨fun _ => nofun, fun _ => ⟨f, anyStale_eq_error.mp hStale⟩⟩
  | ok stale =>
    cases stale with
    | false =>
      obtain ⟨bytes, hMem⟩ := exists_mem_zip hColumn hArity
      exact absurd (anyStale_eq_false.mp hStale _ hMem) (isStale_missing hKeys bytes false)
    | true =>
      refine ⟨fun h => ?_, fun h => absurd rfl h⟩
      obtain ⟨f, hFirst⟩ := h
      cases hStale.symm.trans (anyStale_eq_error.mpr hFirst)

end RowPlanner

end

namespace Sweep

variable [LinearOrder C] {store : Store S C R E} {view : S → Database C R}
  {entries : List (C × StoredRow R)} {s : S}

/-- **Verification asks for the missing keys** exactly when some row needs them; otherwise it
reports. -/
theorem verify_missing (planner : RowPlanner prim F R) (batchSize : Nat)
    (hMeets : store.Meets view)
    (hLoads : ∀ after limit s, ∃ rows, (store.exec (.loadBatch after limit) s).1 = .ok rows)
    (hEntries : Enumerates (view s).table entries)
    (hArity : ∀ e ∈ entries, e.2.indexes.length = planner.indexes.length) :
    ∃ fuel calls s' result, ((Sweep.new planner).withBatchSize batchSize).verify store fuel
        (.loadingBatch none {}) s = (calls, .finished result, s') ∧ view s' = view s ∧
      (result = .error (.row .blindIndexKeysNotConfigured) ↔ ∃ e ∈ entries,
        planner.NeedsMissingKeys e.2.columns e.2.ciphertext e.2.indexes) ∧
      ((∃ report, result = .ok report) ↔ ∀ e ∈ entries,
        ¬ planner.NeedsMissingKeys e.2.columns e.2.ciphertext e.2.indexes) := by
  obtain ⟨fuel, calls, s', hVerify, hView, -⟩ := verify_entries planner batchSize hMeets hLoads
    hEntries
  have hNeeds {e : C × StoredRow R} (he : e ∈ entries) : planner.Countable e.2 ↔
      ¬ planner.NeedsMissingKeys e.2.columns e.2.ciphertext e.2.indexes :=
    RowPlanner.countable_iff.trans (and_iff_right (hArity e he))
  by_cases hAll : ∀ e ∈ entries, planner.Countable e.2
  · have hNone : ∀ e ∈ entries,
        ¬ planner.NeedsMissingKeys e.2.columns e.2.ciphertext e.2.indexes :=
      fun e he => (hNeeds he).mp (hAll e he)
    obtain ⟨report, hOk, -⟩ := verifyRows_census planner hAll
    rw [hOk] at hVerify
    refine ⟨fuel, calls, s', .ok report, hVerify, hView, ⟨nofun, fun h => ?_⟩,
      fun _ => hNone, fun _ => ⟨report, rfl⟩⟩
    obtain ⟨e, he, hMissing⟩ := h
    exact absurd hMissing (hNone e he)
  · obtain ⟨before, e, after, error, hSplit, hBefore, hError, hData⟩ := exists_offending hAll
    have he : e ∈ entries := by
      rw [hSplit]
      exact List.mem_append_right _ List.mem_cons_self
    have hMissing : planner.NeedsMissingKeys e.2.columns e.2.ciphertext e.2.indexes := by
      by_contra hNot
      obtain ⟨e', hFailure, hTrue⟩ := (hNeeds he).mpr hNot _ hError
      cases hFailure
      cases hData.symm.trans hTrue
    have hReason : error = .blindIndexKeysNotConfigured := by
      have hVerdict := (RowPlanner.classifyRow_missing (hArity e he)).mpr hMissing
      cases hVerdict.symm.trans hError
      rfl
    rw [verifyRows_first hSplit hBefore hError hData, hReason] at hVerify
    refine ⟨fuel, calls, s', _, hVerify, hView, ⟨fun _ => ⟨e, he, hMissing⟩, fun _ => rfl⟩,
      ⟨fun h => ?_, fun h => absurd hMissing (h e he)⟩⟩
    obtain ⟨report, hOk⟩ := h
    cases hOk

end Sweep

namespace RowPlanner

variable [LinearOrder C] [DecidableEq W]

/-- **When a planner with a column without keys fails a row**:

1. a row with the registered number of columns neither classifies nor plans exactly when its
   bytes start with the magic and are not an envelope of the planner's context that is stale, or
   whose first column that is not fresh is stale;
2. no plan succeeds for any row, so no worker in a sweep makes an update, in any run;
3. verification returns `BlindIndexKeysNotConfigured` exactly when some row is a current envelope
   whose first column that is not fresh parses and has no keys, and a report otherwise. -/
theorem missing_keys (planner : RowPlanner prim F R) {column : IndexColumn prim F}
    (hColumn : column ∈ planner.indexes)
    (hKeys : column.source.blindIndexKeyring = err .blindIndexKeysNotConfigured) :
    (∀ row ciphertext indexes, indexes.length = planner.indexes.length →
      (planner.Fails row ciphertext indexes ↔ isCiphertext ciphertext = true ∧
        ∀ info, inspectCiphertext ciphertext = .ok info →
          info.contextFingerprint = (planner.context row).fingerprint →
            (info.keyId = planner.keys.current.id ∧ info.padded = F.padding.isPadded) ∧
              ¬ FirstNotFresh (planner.indexes.zip indexes) (.ok true))) ∧
    (∀ row ciphertext indexes draw outcome,
      planner.planRow row ciphertext indexes draw ≠ .ok outcome) ∧
    (∀ (batchSizes : W → Nat) (Allowed : C → StoredRow R → Prop) (table : C → Option (StoredRow R))
      (s : System C R E W),
      System.Run (fun w => (Sweep.new planner).withBatchSize (batchSizes w)) Allowed (.init table)
        s →
      s.db.table = s.origin ∧ ∀ w rows row replacement state todo report,
        s.workers w ≠ some (.updating rows row replacement state todo report)) ∧
    ∀ (batchSize : Nat) (S : Type) (store : Store S C R E) (view : S → Database C R)
      (entries : List (C × StoredRow R)) (s : S), store.Meets view →
      (∀ after limit s, ∃ rows, (store.exec (.loadBatch after limit) s).1 = .ok rows) →
      Enumerates (view s).table entries →
      (∀ e ∈ entries, e.2.indexes.length = planner.indexes.length) →
      ∃ fuel calls s' result, ((Sweep.new planner).withBatchSize batchSize).verify store fuel
          (.loadingBatch none {}) s = (calls, .finished result, s') ∧ view s' = view s ∧
        (result = .error (.row .blindIndexKeysNotConfigured) ↔ ∃ e ∈ entries,
          planner.NeedsMissingKeys e.2.columns e.2.ciphertext e.2.indexes) ∧
        ((∃ report, result = .ok report) ↔ ∀ e ∈ entries,
          ¬ planner.NeedsMissingKeys e.2.columns e.2.ciphertext e.2.indexes) := by
  have hNever : ∀ row ciphertext indexes draw outcome,
      planner.planRow row ciphertext indexes draw ≠ .ok outcome :=
    fun row ciphertext indexes draw outcome => planRow_missing hColumn hKeys draw outcome
  refine ⟨fun row ciphertext indexes hArity => ?_, hNever,
    fun batchSizes Allowed table s hRun => ?_,
    fun batchSize S store view entries s hMeets hLoads hEntries hArity =>
      Sweep.verify_missing planner batchSize hMeets hLoads hEntries hArity⟩
  · rw [← firstNotFresh_missing hColumn hKeys hArity, fails_iff]
    exact ⟨fun h => h.resolve_left (absurd hArity), Or.inr⟩
  · have hPlanner (w : W) : ((Sweep.new planner).withBatchSize (batchSizes w)).planner = planner :=
      rfl
    have hUntouched (v : StoredRow R) : planner.Untouched v :=
      fun draw outcome hPlan => absurd hPlan (hNever _ _ _ draw outcome)
    have hQuiet := System.quiet_run hPlanner (fun _ v _ => hUntouched v) (fun _ v _ => hUntouched v)
      hRun
    exact ⟨hQuiet.origin, fun w rows row replacement state todo report hWorker =>
      hQuiet.workers w _ hWorker⟩

end RowPlanner

/-- A planner with one index column, registered with keys that have no blind-index keyring. -/
def Vectors.keyless : RowPlanner Vectors.prim vectorSeal Unit :=
  (RowPlanner.new Vectors.prim vectorSeal Unit (.keyring encryptionKeyring)).withIndex vectorIndex
    (.keys ⟨encryptionKeyring, none⟩)

namespace RowPlanner

/-- The current row of the vectors fails without the keys of its index. -/
theorem missing_keys_vector :
    Vectors.keyless.Fails () Vectors.envelope [Vectors.index] := by
  obtain ⟨hRows, -⟩ := missing_keys (C := Nat) (E := Empty) (W := Unit) Vectors.keyless
    (List.mem_singleton_self _) rfl
  have hInspect : inspectCiphertext Vectors.envelope = .ok ⟨formatVersion, ⟨1⟩, false,
      Vectors.keyId, (Vectors.keyless.context ()).fingerprint⟩ := by decide +kernel
  refine (hRows () Vectors.envelope [Vectors.index] rfl).mpr ⟨by decide +kernel, ?_⟩
  intro info hInfo hOwn
  cases hInspect.symm.trans hInfo
  refine ⟨⟨rfl, rfl⟩, fun hFirst => ?_⟩
  obtain ⟨c, hMem, hStale⟩ := hFirst.exists_mem
  obtain rfl := List.mem_singleton.mp hMem
  exact isStale_missing rfl Vectors.index true hStale

/-- **A legacy row is counted without the missing keys.** It classifies, and verification over it
reports one legacy row instead of the missing keys. -/
theorem missing_keys_counts :
    (∃ column ∈ Vectors.keyless.indexes,
      column.source.blindIndexKeyring = err .blindIndexKeysNotConfigured) ∧
    Vectors.keyless.classifyRow () Vectors.plaintext.val [[]] = .ok .legacy ∧
    ∃ fuel calls m, ((Sweep.new Vectors.keyless).withBatchSize 0).verify MemoryStore.store fuel
      (.loadingBatch none {}) (.single 7 Vectors.legacyRow none)
      = (calls, .finished (.ok { legacy := 1 }), m) := by
  have hVerdict : Vectors.keyless.classifyRow () Vectors.plaintext.val [[]] = .ok .legacy :=
    classifyRow_legacy Vectors.keyless () rfl (by decide +kernel)
  refine ⟨⟨_, List.mem_singleton_self _, rfl⟩, hVerdict, ?_⟩
  have hLoads : ∀ after limit (m : MemoryStore Nat Unit),
      ∃ rows, (MemoryStore.store.exec (.loadBatch after limit) m).1 = .ok rows :=
    fun _ _ _ => ⟨_, rfl⟩
  have hEntries : Enumerates (MemoryStore.single 7 Vectors.legacyRow none).database.table
      [(7, Vectors.legacyRow)] := Ascending.enumerates (List.pairwise_singleton ..)
  obtain ⟨fuel, calls, m, hVerify, -, -⟩ := Sweep.verify_entries Vectors.keyless 0 MemoryStore.meets
    hLoads hEntries
  have hRows : (Sweep.new Vectors.keyless).verifyRows {}
      ([(7, Vectors.legacyRow)].map .ofEntry) = .ok { legacy := 1 } := by decide +kernel
  rw [hRows] at hVerify
  exact ⟨fuel, calls, m, hVerify⟩

end RowPlanner

end Cryptbox

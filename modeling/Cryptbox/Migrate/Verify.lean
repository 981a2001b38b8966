import Cryptbox.Migrate.Sweep

/-!
# Verification is a census

`verify` classifies every row of a store once, page by page, and only reads. The failures of
classification that stored bytes can provoke are counted, not returned.

* `RowPlanner.classifyRow_eq_error`: what makes classification fail.
* `Sweep.census_verifyRows`: the counts after a prefix of the rows.
* `Sweep.verify_pages`: reading page by page is reading the rows in one go.
* `Sweep.verify_census`: termination, the exact report or the first error, and no writes.
-/

namespace Cryptbox

open Base Envelope

variable {prim : Primitives} {F : Seal} {R C E S : Type}

/-! ## Why classification fails -/

namespace RowPlanner

variable {planner : RowPlanner prim F R} {row : R} {ciphertext : Bytes} {indexes : List Bytes}
  {f : Failure}

theorem isRowDataFailure_malformed {e : Error} (h : e.IsMalformed) : isRowDataFailure e = true := by
  cases e <;> first | exact h.elim | rfl

theorem blindIndexKeyring_eq_error {keys : BlindIndexKeys} (h : keys.blindIndexKeyring = .error f) :
    f = .err .blindIndexKeysNotConfigured := by
  cases keys with
  | keyring ring => cases h
  | keys both => exact (okOr_eq_error.mp h).2

theorem isStale_eq_error {column : IndexColumn prim F} {bytes : Bytes}
    (h : column.isStale bytes = .error f) :
    (∃ e, f = .err e ∧ isRowDataFailure e = true) ∨
      (f = .err .blindIndexKeysNotConfigured ∧ column.source.blindIndexKeyring = .error f) := by
  unfold IndexColumn.isStale at h
  rcases bind_eq_error.mp h with h | ⟨info, -, h⟩
  · rcases inspectBlindIndex_eq_error h with rfl | ⟨version, rfl⟩
    · exact Or.inl ⟨_, rfl, rfl⟩
    · exact Or.inl ⟨_, rfl, rfl⟩
  · rcases bind_eq_error.mp h with h | ⟨keys, -, h⟩
    · rw [column.keys_eq] at h
      exact Or.inr ⟨blindIndexKeyring_eq_error h, h⟩
    · cases h

/-- **Classification never panics**, and fails by the row's bytes, by its number of index
columns, or by a column without a keyring. -/
theorem classifyRow_eq_error (h : planner.classifyRow row ciphertext indexes = .error f) :
    ∃ e, f = .err e ∧ (isRowDataFailure e = true ∨
      (e = .indexColumnMismatch planner.indexes.length indexes.length ∧
        indexes.length ≠ planner.indexes.length) ∨
      (e = .blindIndexKeysNotConfigured ∧
        ∃ column ∈ planner.indexes, column.source.blindIndexKeyring = err e)) := by
  by_cases hArity : indexes.length = planner.indexes.length
  · rcases classifyRow_cases planner row hArity ciphertext with ⟨-, hOk⟩ |
      ⟨-, ⟨e, hBad, -, hErr⟩ | ⟨info, -, ⟨-, hErr⟩ | ⟨-, -, hOk⟩ | ⟨-, -, hColumns⟩⟩⟩
    · cases h.symm.trans hOk
    · cases h.symm.trans hErr
      exact ⟨e, rfl, Or.inl (isRowDataFailure_malformed hBad)⟩
    · cases h.symm.trans hErr
      exact ⟨_, rfl, Or.inl rfl⟩
    · cases h.symm.trans hOk
    · rw [hColumns, map_eq_error] at h
      obtain ⟨⟨column, bytes⟩, hMem, hStale⟩ := (anyStale_eq_error.mp h).exists_mem
      rcases isStale_eq_error hStale with ⟨e, rfl, hData⟩ | ⟨rfl, hKeys⟩
      · exact ⟨e, rfl, Or.inl hData⟩
      · exact ⟨_, rfl, Or.inr (Or.inr ⟨rfl, column, (List.of_mem_zip hMem).1, hKeys⟩)⟩
  · unfold classifyRow at h
    rcases bind_eq_error.mp h with h | ⟨_, hCheck, -⟩
    · obtain ⟨-, rfl⟩ := ensure_eq_error.mp h
      exact ⟨_, rfl, Or.inr (Or.inl ⟨rfl, hArity⟩)⟩
    · exact absurd (ensure_eq_ok.mp hCheck) hArity

/-- What classification makes of a stored row. -/
def verdict (planner : RowPlanner prim F R) (v : StoredRow R) : Result RowState :=
  planner.classifyRow v.columns v.ciphertext v.indexes

/-- The row can be counted: it classifies, or fails by its own bytes. -/
def Countable (planner : RowPlanner prim F R) (v : StoredRow R) : Prop :=
  ∀ f, planner.verdict v = .error f → ∃ e, f = .err e ∧ isRowDataFailure e = true

theorem not_countable {v : StoredRow R} (h : ¬ planner.Countable v) :
    ∃ e, planner.verdict v = err e ∧ isRowDataFailure e = false := by
  unfold Countable at h
  push Not at h
  obtain ⟨f, hError, hData⟩ := h
  obtain ⟨e, rfl, -⟩ := classifyRow_eq_error hError
  exact ⟨e, hError, by simpa using hData e rfl⟩

theorem countable_of_configured {v : StoredRow R}
    (hArity : v.indexes.length = planner.indexes.length)
    (hKeys : ∀ column ∈ planner.indexes, ∃ keys, column.source.blindIndexKeyring = .ok keys) :
    planner.Countable v := by
  intro f hError
  obtain ⟨e, rfl, hData | ⟨-, hArity'⟩ | ⟨rfl, column, hMem, hMissing⟩⟩ :=
    classifyRow_eq_error hError
  · exact ⟨e, rfl, hData⟩
  · exact absurd hArity hArity'
  · obtain ⟨keys, hOk⟩ := hKeys column hMem
    cases hMissing.symm.trans hOk

end RowPlanner

/-! ## The counts -/

/-- The report counts the rows by what classification makes of them. With fewer than 2^64 rows
no counter of the source wraps. -/
structure Census (planner : RowPlanner prim F R) (rows : List (StoredRow R))
    (report : SweepReport) : Prop where
  current : report.current = rows.countP fun v => decide (planner.verdict v = .ok .current)
  stale : report.stale = rows.countP fun v => decide (planner.verdict v = .ok .stale)
  legacy : report.legacy = rows.countP fun v => decide (planner.verdict v = .ok .legacy)
  malformed : report.malformed = rows.countP fun v => !(planner.verdict v).isOk
  conflicts : report.conflicts = 0

/-- Every row is counted once. -/
theorem Census.total {planner : RowPlanner prim F R} {rows : List (StoredRow R)}
    {report : SweepReport} (h : Census planner rows report) :
    report.current + report.stale + report.legacy + report.malformed = rows.length := by
  rw [h.current, h.stale, h.legacy, h.malformed]
  clear h
  induction rows with
  | nil => rfl
  | cons v rows ih =>
    simp only [List.countP_cons, List.length_cons]
    cases planner.verdict v with
    | ok state => cases state <;> simp <;> omega
    | error f =>
      simp
      omega

theorem Census.isTerminal_iff {planner : RowPlanner prim F R} {rows : List (StoredRow R)}
    {report : SweepReport} (h : Census planner rows report) :
    report.isTerminal = true ↔ ∀ v ∈ rows, planner.verdict v = .ok .current := by
  have hZero : report.isTerminal = true ↔
      (∀ v ∈ rows, planner.verdict v ≠ .ok .legacy) ∧ (∀ v ∈ rows, planner.verdict v ≠ .ok .stale) ∧
      ∀ v ∈ rows, (planner.verdict v).isOk = true := by
    unfold SweepReport.isTerminal
    rw [h.legacy, h.stale, h.malformed]
    simp [List.countP_eq_zero, and_assoc]
  rw [hZero]
  constructor
  · rintro ⟨hLegacy, hStale, hOk⟩ v hv
    cases hVerdict : planner.verdict v with
    | ok state =>
      cases state with
      | current => rfl
      | stale => exact absurd hVerdict (hStale v hv)
      | legacy => exact absurd hVerdict (hLegacy v hv)
    | error f => exact absurd (hOk v hv) (by simp [hVerdict])
  · intro hCurrent
    refine ⟨fun v hv => ?_, fun v hv => ?_, fun v hv => ?_⟩
    · rw [hCurrent v hv]
      nofun
    · rw [hCurrent v hv]
      nofun
    · rw [hCurrent v hv]
      rfl

namespace Sweep

variable {sweep : Sweep prim F R} {planner : RowPlanner prim F R}

/-- A row is recorded as what it classifies as, or counted as malformed. -/
theorem verifyRow_eq_ok {report report' : SweepReport} {row : SweepRow C R}
    (h : sweep.verifyRow report row = .ok report') :
    (∃ state, sweep.planner.verdict row.stored = .ok state ∧ report' = report.record state) ∨
      ∃ e, sweep.planner.verdict row.stored = err e ∧ isRowDataFailure e = true ∧
        report' = { report with malformed := report.malformed + 1 } := by
  unfold verifyRow at h
  split at h
  · next state hOk =>
    cases h
    exact Or.inl ⟨state, hOk, rfl⟩
  · next e hError =>
    split at h
    · next hData =>
      cases h
      exact Or.inr ⟨e, hError, hData, rfl⟩
    · cases h
  · cases h

theorem census_nil : Census planner [] {} := ⟨rfl, rfl, rfl, rfl, rfl⟩

/-- One more row is counted once. -/
theorem census_verifyRow {seen : List (StoredRow R)} {report report' : SweepReport}
    {row : SweepRow C R} (h : Census sweep.planner seen report)
    (hRow : sweep.verifyRow report row = .ok report') :
    Census sweep.planner (seen ++ [row.stored]) report' := by
  obtain ⟨hCurrent, hStale, hLegacy, hMalformed, hConflicts⟩ := h
  rcases verifyRow_eq_ok hRow with ⟨state, hOk, rfl⟩ | ⟨e, hError, -, rfl⟩
  · cases state <;> constructor <;>
      simp [SweepReport.record, List.countP_append, *]
  · constructor <;> simp [List.countP_append, *]

theorem census_verifyRows {seen : List (StoredRow R)} {report report' : SweepReport}
    {rows : List (SweepRow C R)} (h : Census sweep.planner seen report)
    (hRows : sweep.verifyRows report rows = .ok report') :
    Census sweep.planner (seen ++ rows.map SweepRow.stored) report' := by
  induction rows generalizing seen report with
  | nil =>
    cases hRows
    simpa using h
  | cons row rows ih =>
    unfold verifyRows at hRows
    rw [List.foldlM_cons] at hRows
    obtain ⟨next, hRow, hRest⟩ := bind_eq_ok.mp hRows
    have := ih (census_verifyRow h hRow) hRest
    rwa [List.append_assoc] at this

theorem verifyRow_countable (report : SweepReport) {row : SweepRow C R}
    (h : sweep.planner.Countable row.stored) :
    ∃ report', sweep.verifyRow report row = .ok report' := by
  unfold verifyRow
  cases hVerdict : sweep.planner.classifyRow row.columns row.ciphertext row.indexes with
  | ok state => exact ⟨_, rfl⟩
  | error f =>
    obtain ⟨e, rfl, hData⟩ := h f hVerdict
    exact ⟨_, if_pos hData⟩

theorem verifyRows_countable (sweep : Sweep prim F R) (report : SweepReport)
    {rows : List (SweepRow C R)}
    (h : ∀ row ∈ rows, sweep.planner.Countable row.stored) :
    ∃ report', sweep.verifyRows report rows = .ok report' := by
  induction rows generalizing report with
  | nil => exact ⟨report, rfl⟩
  | cons row rows ih =>
    obtain ⟨next, hRow⟩ := verifyRow_countable report (h row List.mem_cons_self)
    obtain ⟨report', hRest⟩ := ih next fun r hr => h r (List.mem_cons_of_mem _ hr)
    refine ⟨report', ?_⟩
    unfold verifyRows
    rw [List.foldlM_cons]
    exact bind_eq_ok.mpr ⟨next, hRow, hRest⟩

/-- The first row that cannot be counted stops the pass with its error. -/
theorem verifyRows_offending (report : SweepReport) {before after : List (SweepRow C R)}
    {row : SweepRow C R} {e : Error} (hBefore : ∀ row ∈ before, sweep.planner.Countable row.stored)
    (hVerdict : sweep.planner.verdict row.stored = err e) (hData : isRowDataFailure e = false) :
    sweep.verifyRows report (before ++ row :: after) = err e := by
  obtain ⟨report', hOk⟩ := verifyRows_countable sweep report hBefore
  have hRow : sweep.verifyRow report' row = err e := by
    unfold verifyRow
    rw [show sweep.planner.classifyRow row.columns row.ciphertext row.indexes = err e from hVerdict]
    exact if_neg (by simp [hData])
  unfold verifyRows at hOk ⊢
  rw [List.foldlM_append, hOk, ok_bind, List.foldlM_cons, hRow, error_bind]

theorem exists_offending {rows : List (C × StoredRow R)}
    (h : ¬ ∀ e ∈ rows, planner.Countable e.2) :
    ∃ before e after error, rows = before ++ e :: after ∧
      (∀ b ∈ before, planner.Countable b.2) ∧ planner.verdict e.2 = err error ∧
      isRowDataFailure error = false := by
  induction rows with
  | nil => exact absurd (fun _ h => nomatch h) h
  | cons e rows ih =>
    by_cases hHead : planner.Countable e.2
    · have hRest : ¬ ∀ e ∈ rows, planner.Countable e.2 := fun hRest =>
        h (List.forall_mem_cons.mpr ⟨hHead, hRest⟩)
      obtain ⟨before, bad, after, error, rfl, hBefore, hBad⟩ := ih hRest
      exact ⟨e :: before, bad, after, error, rfl, List.forall_mem_cons.mpr ⟨hHead, hBefore⟩, hBad⟩
    · obtain ⟨error, hBad⟩ := RowPlanner.not_countable hHead
      exact ⟨[], e, rows, error, rfl, (fun _ h => nomatch h), hBad⟩

/-! ## Page by page -/

/-- How a pass ends that made `result` of the rows. -/
def outcome : Result SweepReport → VerifyState C E
  | .ok report => .finished (.ok report)
  | .error (.err e) => .finished (.error (.row e))
  | .error .panic => .panicked

variable {store : Store S C R E} {s : S}

theorem verifyBatch_error {report : SweepReport} {rows : List (SweepRow C R)} {f : Failure}
    (hBatch : sweep.verifyRows report rows = .error f) :
    sweep.verifyBatch report rows = (outcome (.error f) : VerifyState C E) := by
  unfold verifyBatch outcome
  cases f <;> simp only [hBatch]

theorem verifyBatch_last {report report' : SweepReport} {rows : List (SweepRow C R)}
    {last : SweepRow C R} (hBatch : sweep.verifyRows report rows = .ok report')
    (hLast : rows.getLast? = some last) :
    sweep.verifyBatch report rows = (.loadingBatch (some last.cursor) report' : VerifyState C E) := by
  unfold verifyBatch
  simp only [hBatch, hLast]

theorem verify_ready {state : VerifyState C E}
    (h : sweep.pollVerify state = (.ready : Poll C R E (VerifyState C E))) (fuel : Nat) (s : S) :
    sweep.verify store fuel state s = ([], state, s) := by
  cases fuel with
  | zero => rfl
  | succ fuel =>
    unfold verify
    simp only [h]

/-- A pass that has its result makes no more calls. -/
theorem verify_outcome (result : Result SweepReport) (fuel : Nat) (s : S) :
    sweep.verify store fuel (outcome result) s = ([], outcome result, s) := by
  apply verify_ready
  rcases result with (e | _) | report <;> rfl

theorem verify_load {after : Option C} {report : SweepReport} {rows : List (SweepRow C R)}
    (fuel : Nat) (hLoad : (store.exec (.loadBatch after sweep.batchSize) s).1 = .ok rows) :
    sweep.verify store (fuel + 1) (.loadingBatch after report) s =
      (.loadBatch after sweep.batchSize :: (sweep.verify store fuel (sweep.verifyBatch report rows)
          (store.exec (.loadBatch after sweep.batchSize) s).2).1,
        (sweep.verify store fuel (sweep.verifyBatch report rows)
          (store.exec (.loadBatch after sweep.batchSize) s).2).2) := by
  conv_lhs => unfold verify pollVerify
  simp only [hLoad]

variable [LinearOrder C]

/-- **Reading page by page is reading the rows in one go**, without a write. -/
theorem verify_pages (sweep : Sweep prim F R) {view : S → Database C R}
    {entries : List (C × StoredRow R)} (hMeets : store.Meets view)
    (hLoads : ∀ after limit s, ∃ rows, (store.exec (.loadBatch after limit) s).1 = .ok rows)
    (after : Option C) (report : SweepReport) (s : S)
    (hEntries : Enumerates (view s).table entries) :
    ∃ fuel calls s', sweep.verify store fuel (.loadingBatch after report) s
        = (calls, outcome (sweep.verifyRows report ((remaining entries after).map .ofEntry)), s') ∧
      view s' = view s ∧ ∀ call ∈ calls, ∃ after, call = .loadBatch after sweep.batchSize := by
  induction hLength : (remaining entries after).length using Nat.strongRecOn
    generalizing after report s with
  | ind n ih =>
    obtain ⟨rows, hLoad⟩ := hLoads after sweep.batchSize s
    obtain ⟨hView, hPage⟩ := hMeets.loadBatch hLoad
    generalize hNext : store.exec (.loadBatch after sweep.batchSize) s = next at hView
    have hRows : rows = (rows.map SweepRow.entry).map SweepRow.ofEntry := by
      simp [Function.comp_def]
    have hStep {fuel : Nat} {calls : List (Call C R)} {state : VerifyState C E} {s' : S}
        (h : sweep.verify store fuel (sweep.verifyBatch report rows) next.2 = (calls, state, s')) :
        sweep.verify store (fuel + 1) (.loadingBatch after report) s
          = (.loadBatch after sweep.batchSize :: calls, state, s') := by
      rw [verify_load fuel hLoad, hNext, h]
    have hRead {call : Call C R} {calls : List (Call C R)}
        (h : ∀ call ∈ calls, ∃ after, call = .loadBatch after sweep.batchSize)
        (hCall : call ∈ .loadBatch after sweep.batchSize :: calls) :
        ∃ after, call = .loadBatch after sweep.batchSize := by
      rcases List.mem_cons.mp hCall with rfl | hCall
      · exact ⟨after, rfl⟩
      · exact h call hCall
    cases hLast : rows.getLast? with
    | none =>
      obtain rfl := List.getLast?_eq_none_iff.mp hLast
      rw [hEntries.page_nil hPage sweep.positive]
      have hDone : sweep.verify store 0 (sweep.verifyBatch report []) next.2
          = ([], outcome (.ok report), next.2) := verify_outcome (.ok report) 0 next.2
      exact ⟨1, _, next.2, hStep hDone, hView, fun call => hRead fun _ h => nomatch h⟩
    | some last =>
      have hLastEntry : (rows.map SweepRow.entry).getLast? = some last.entry := by
        rw [List.getLast?_map, hLast]
        rfl
      have hSplit := hEntries.page_append hPage sweep.positive hLastEntry
      have hFold : sweep.verifyRows report ((remaining entries after).map .ofEntry)
          = sweep.verifyRows report rows >>= fun report =>
            sweep.verifyRows report ((remaining entries (some last.cursor)).map .ofEntry) := by
        rw [hSplit, List.map_append, ← hRows]
        exact List.foldlM_append
      rw [hFold]
      cases hBatch : sweep.verifyRows report rows with
      | ok report' =>
        have hShorter : (remaining entries (some last.cursor)).length < n := by
          have hPos : 0 < rows.length :=
            List.length_pos_of_mem (List.mem_of_getLast? hLast)
          rw [← hLength, hSplit, List.length_append, List.length_map]
          exact Nat.lt_add_of_pos_left hPos
        obtain ⟨fuel, calls, s', hRest, hView', hCalls⟩ :=
          ih _ hShorter (some last.cursor) report' next.2 (hView ▸ hEntries) rfl
        rw [← verifyBatch_last hBatch hLast] at hRest
        exact ⟨fuel + 1, _, s', hStep hRest, hView'.trans hView, fun call => hRead hCalls⟩
      | error f =>
        have hDone : sweep.verify store 0 (sweep.verifyBatch report rows) next.2
            = ([], outcome (.error f), next.2) := by
          rw [verifyBatch_error hBatch, verify_outcome]
        exact ⟨1, _, next.2, hStep hDone, hView, fun call => hRead fun _ h => nomatch h⟩

/-- A whole pass makes of a store what the loop makes of its rows, whatever the batch size. -/
theorem verify_entries (planner : RowPlanner prim F R) (batchSize : Nat) {view : S → Database C R}
    {entries : List (C × StoredRow R)} {s : S} (hMeets : store.Meets view)
    (hLoads : ∀ after limit s, ∃ rows, (store.exec (.loadBatch after limit) s).1 = .ok rows)
    (hEntries : Enumerates (view s).table entries) :
    ∃ fuel calls s', ((Sweep.new planner).withBatchSize batchSize).verify store fuel
        (.loadingBatch none {}) s
        = (calls, outcome ((Sweep.new planner).verifyRows {} (entries.map .ofEntry)), s') ∧
      view s' = view s ∧ ∀ call ∈ calls, ∃ after, call = .loadBatch after (max batchSize 1) := by
  have hPages := verify_pages ((Sweep.new planner).withBatchSize batchSize) hMeets hLoads none {} s
    hEntries
  rwa [remaining_none] at hPages

omit [LinearOrder C] in
/-- When every row can be counted, the loop counts them. -/
theorem verifyRows_census (planner : RowPlanner prim F R) {entries : List (C × StoredRow R)}
    (hAll : ∀ e ∈ entries, planner.Countable e.2) :
    ∃ report, (Sweep.new planner).verifyRows {} (entries.map .ofEntry) = .ok report ∧
      Census planner (entries.map Prod.snd) report := by
  have hRows : ∀ row ∈ entries.map SweepRow.ofEntry, planner.Countable row.stored := by
    intro row hRow
    obtain ⟨e, he, rfl⟩ := List.mem_map.mp hRow
    exact hAll e he
  obtain ⟨report, hOk⟩ := verifyRows_countable (Sweep.new planner) {} hRows
  have hCensus := census_verifyRows census_nil hOk
  have hStored : (entries.map SweepRow.ofEntry).map SweepRow.stored = entries.map Prod.snd := by
    simp [Function.comp_def, SweepRow.ofEntry, SweepRow.stored]
  rw [List.nil_append, hStored] at hCensus
  exact ⟨report, hOk, hCensus⟩

omit [LinearOrder C] in
/-- Otherwise the first row that cannot be counted stops it. -/
theorem verifyRows_first {planner : RowPlanner prim F R} {entries before after : List (C × StoredRow R)}
    {e : C × StoredRow R} {error : Error} (hSplit : entries = before ++ e :: after)
    (hBefore : ∀ b ∈ before, planner.Countable b.2) (hError : planner.verdict e.2 = err error)
    (hData : isRowDataFailure error = false) :
    (Sweep.new planner).verifyRows {} (entries.map .ofEntry) = err error := by
  rw [hSplit, List.map_append, List.map_cons]
  refine verifyRows_offending {} (fun row hRow => ?_) hError hData
  obtain ⟨b, hb, rfl⟩ := List.mem_map.mp hRow
  exact hBefore b hb

/-- **Verification is a complete, exact and read-only census.** One result belongs to the rows
of a store (fewer than 2^64, which its counters hold) and the planner. For every batch size,
implementation and checkpoint, `verify` terminates with it, having only loaded batches:

1. when every row can be counted, a report of how many rows classify as what;
2. otherwise the error of the first row that cannot;
3. never an error when the rows have the registered number of index columns and every column
   a keyring. -/
theorem verify_census (planner : RowPlanner prim F R) (entries : List (C × StoredRow R)) :
    ∃ result : Except (SweepError E) SweepReport,
      (∀ (batchSize : Nat) (S : Type) (store : Store S C R E) (view : S → Database C R) (s : S),
        store.Meets view →
        (∀ after limit s, ∃ rows, (store.exec (.loadBatch after limit) s).1 = .ok rows) →
        Enumerates (view s).table entries →
        ∃ fuel calls s', ((Sweep.new planner).withBatchSize batchSize).verify store fuel
            (.loadingBatch none {}) s = (calls, .finished result, s') ∧
          view s' = view s ∧ ∀ call ∈ calls, ∃ after, call = .loadBatch after (max batchSize 1)) ∧
      ((∀ e ∈ entries, planner.Countable e.2) →
        ∃ report, result = .ok report ∧ Census planner (entries.map Prod.snd) report ∧
          report.current + report.stale + report.legacy + report.malformed = entries.length ∧
          (report.isTerminal = true ↔ ∀ e ∈ entries,
            planner.classifyRow e.2.columns e.2.ciphertext e.2.indexes = .ok .current)) ∧
      ((¬ ∀ e ∈ entries, planner.Countable e.2) →
        ∃ before e after error, entries = before ++ e :: after ∧
          (∀ b ∈ before, planner.Countable b.2) ∧
          planner.classifyRow e.2.columns e.2.ciphertext e.2.indexes = err error ∧
          isRowDataFailure error = false ∧ result = .error (.row error)) ∧
      ((∀ e ∈ entries, e.2.indexes.length = planner.indexes.length) →
        (∀ column ∈ planner.indexes, ∃ keys, column.source.blindIndexKeyring = .ok keys) →
        ∃ report, result = .ok report) := by
  have hPass (result : Except (SweepError E) SweepReport)
      (hResult : outcome ((Sweep.new planner).verifyRows {} (entries.map .ofEntry))
        = (.finished result : VerifyState C E)) (batchSize : Nat) (S : Type)
      (store : Store S C R E) (view : S → Database C R) (s : S) (hMeets : store.Meets view)
      (hLoads : ∀ after limit s, ∃ rows, (store.exec (.loadBatch after limit) s).1 = .ok rows)
      (hEntries : Enumerates (view s).table entries) :
      ∃ fuel calls s', ((Sweep.new planner).withBatchSize batchSize).verify store fuel
          (.loadingBatch none {}) s = (calls, .finished result, s') ∧
        view s' = view s ∧ ∀ call ∈ calls, ∃ after, call = .loadBatch after (max batchSize 1) := by
    rw [← hResult]
    exact verify_entries planner batchSize hMeets hLoads hEntries
  by_cases hAll : ∀ e ∈ entries, planner.Countable e.2
  · obtain ⟨report, hOk, hCensus⟩ := verifyRows_census planner hAll
    refine ⟨.ok report, hPass _ (by rw [hOk]; rfl), fun _ => ⟨report, rfl, hCensus, ?_, ?_⟩,
      fun h => absurd hAll h, fun _ _ => ⟨report, rfl⟩⟩
    · rw [hCensus.total, List.length_map]
    · rw [hCensus.isTerminal_iff, List.forall_mem_map]
      rfl
  · obtain ⟨before, e, after, error, hSplit, hBefore, hError, hData⟩ := exists_offending hAll
    have hFails := verifyRows_first hSplit hBefore hError hData
    refine ⟨.error (.row error), hPass _ (by rw [hFails]; rfl), fun h => absurd h hAll,
      fun _ => ⟨before, e, after, error, hSplit, hBefore, hError, hData, rfl⟩,
      fun hArity hKeys => absurd (fun e he => ?_) hAll⟩
    exact RowPlanner.countable_of_configured (hArity e he) hKeys

end Sweep

/-! ## A pass over rows of every kind -/

namespace Vectors

/-- A row of each kind, and a second current one. -/
def mixedRows : List (Nat × StoredRow Unit) :=
  [(3, staleRow), (5, legacyRow), (7, sealedRow), (9, garbageRow), (11, sealedRow)]

theorem mixedRows_census {report : SweepReport}
    (h : Census planner (mixedRows.map Prod.snd) report) :
    report = { current := 2, stale := 1, legacy := 1, malformed := 1 } := by
  have hStale : planner.verdict staleRow = .ok .stale := by decide +kernel
  have hLegacy : planner.verdict legacyRow = .ok .legacy := by decide +kernel
  have hSealed : planner.verdict sealedRow = .ok .current := by decide +kernel
  have hGarbage : planner.verdict garbageRow = err .invalidEnvelope := by decide +kernel
  obtain ⟨hCurrents, hStales, hLegacies, hMalformed, hConflicts⟩ := h
  simp [mixedRows, hStale, hLegacy, hSealed, hGarbage] at hCurrents hStales hLegacies hMalformed
  cases report
  simp_all

theorem mixedRows_countable : ∀ e ∈ mixedRows, planner.Countable e.2 := by
  have hArity : ∀ e ∈ mixedRows, e.2.indexes.length = 1 := by decide
  intro e he
  refine RowPlanner.countable_of_configured (hArity e he) fun column hColumn => ?_
  rw [List.mem_singleton.mp hColumn]
  exact ⟨indexKeyring, rfl⟩

end Vectors

open Vectors in
/-- In batches of two rows, the pass reports how many rows there are of each kind. -/
theorem Sweep.verify_census_vector : ∃ fuel calls,
    ((Sweep.new Vectors.planner).withBatchSize 2).verify (.snapshot mixedRows) fuel
      (.loadingBatch none {}) ()
      = (calls, .finished (.ok { current := 2, stale := 1, legacy := 1, malformed := 1 }), ()) := by
  obtain ⟨result, hRuns, hCounts, -, -⟩ := Sweep.verify_census (E := Unit) Vectors.planner
    mixedRows
  obtain ⟨report, rfl, hCensus, -, -⟩ := hCounts mixedRows_countable
  have hAscending : Ascending mixedRows := by decide
  obtain ⟨fuel, calls, s', hVerify, -, -⟩ := hRuns 2 Unit (.snapshot mixedRows) _ ()
    (Store.snapshot_meets hAscending) (fun _ _ _ => ⟨_, rfl⟩) hAscending.enumerates
  rw [mixedRows_census hCensus] at hVerify
  exact ⟨fuel, calls, hVerify⟩

end Cryptbox

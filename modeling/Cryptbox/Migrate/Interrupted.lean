import Cryptbox.Migrate.Run

/-!
# What an interrupted run leaves behind

A run alone over a store whose failed calls do nothing. Its log lists what it did: the calls
with their answers, and the rows it planned. Where it stands (`Position`) is read off the log:
the batches it saved, and how far it came in the batch after them. `Sweep.Trail` is the
invariant that ties the position to the store, and it is what an operator finds after an error.

* `Sweep.log_induction`: what every step keeps holds at the end of a run.
* `Sweep.Follows.step`: a step keeps the trail.
* `Sweep.run_interrupted`: what a run leaves behind that returned an error, and one that
  returned `Ok`.
-/

namespace Cryptbox

open Base

variable {prim : Primitives} {F : Seal} {R C E S : Type}

/-! ## The log of a run -/

/-- Something a run did. -/
inductive Event (C R E : Type) where
  | planned (row : SweepRow C R)
  | returned (call : Call C R) (result : Except E call.Answer)

namespace Event

/-- The rows that were planned, in order. -/
def planned? : Event C R E → Option (SweepRow C R)
  | .planned row => some row
  | .returned .. => none

/-- A batch that was loaded. -/
def loaded? : Event C R E → Option (List (SweepRow C R))
  | .returned (.loadBatch ..) (.ok rows) => some rows
  | _ => none

/-- A checkpoint whose save succeeded. -/
def saved? : Event C R E → Option C
  | .returned (.saveCheckpoint cursor) (.ok _) => some cursor
  | _ => none

end Event

/-- The rows that a run planned, in order. -/
def plannedRows (log : List (Event C R E)) : List (SweepRow C R) := log.filterMap Event.planned?

/-- The batches that a run loaded, in order. -/
def loadedBatches (log : List (Event C R E)) : List (List (SweepRow C R)) :=
  log.filterMap Event.loaded?

/-- The cursors that a run saved, in order. -/
def savedCursors (log : List (Event C R E)) : List C := log.filterMap Event.saved?

theorem filterMap_snoc {α β : Type} (f : α → Option β) (xs : List α) (x : α) :
    (xs ++ [x]).filterMap f = xs.filterMap f ++ (f x).toList := by
  rw [List.filterMap_append]
  cases hx : f x with
  | none => rw [List.filterMap_cons_none hx]; rfl
  | some y => rw [List.filterMap_cons_some hx]; rfl

@[simp] theorem plannedRows_snoc (log : List (Event C R E)) (event : Event C R E) :
    plannedRows (log ++ [event]) = plannedRows log ++ event.planned?.toList :=
  filterMap_snoc ..

@[simp] theorem loadedBatches_snoc (log : List (Event C R E)) (event : Event C R E) :
    loadedBatches (log ++ [event]) = loadedBatches log ++ event.loaded?.toList :=
  filterMap_snoc ..

@[simp] theorem savedCursors_snoc (log : List (Event C R E)) (event : Event C R E) :
    savedCursors (log ++ [event]) = savedCursors log ++ event.saved?.toList :=
  filterMap_snoc ..

/-- `process_batch` plans the row at the head of what its loop has left. -/
def RunState.planning : RunState C R E → List (Event C R E)
  | .processing _ (row :: _) _ => [.planned row]
  | _ => []

theorem RunState.planning_nil (rows : List (SweepRow C R)) (report : SweepReport) :
    (processing rows [] report : RunState C R E).planning = [] := rfl

/-- One step of a run alone: what it did, where it stands then and the store after it. -/
def Sweep.step (sweep : Sweep prim F R) (store : Store S C R E) (draw : Option Nonce)
    (state : RunState C R E) (s : S) : Option (List (Event C R E) × RunState C R E × S) :=
  match sweep.pollRun draw state with
  | .ready => none
  | .running next => some (state.planning, next, s)
  | .pending call resume =>
    some ([.returned call (store.exec call s).1], resume (store.exec call s).1,
      (store.exec call s).2)

/-- What `Sweep.run` does. -/
def Sweep.log (sweep : Sweep prim F R) (store : Store S C R E) :
    List (Option Nonce) → RunState C R E → S → List (Event C R E)
  | [], _, _ => []
  | draw :: draws, state, s =>
    match sweep.step store draw state s with
    | none => []
    | some (events, next, s') => events ++ log sweep store draws next s'

namespace Sweep

variable {sweep : Sweep prim F R} {store : Store S C R E} {state : RunState C R E} {s : S}

/-- A run goes on after its first step, or has none. -/
theorem run_step (sweep : Sweep prim F R) (store : Store S C R E) (draw : Option Nonce)
    (draws : List (Option Nonce)) (state : RunState C R E) (s : S) :
    (sweep.run store (draw :: draws) state s).2 = match sweep.step store draw state s with
      | none => (state, s)
      | some (_, next, s') => (sweep.run store draws next s').2 := by
  unfold step
  cases hPoll : sweep.pollRun draw state with
  | ready =>
    unfold run
    rw [hPoll]
  | running next => rw [run_running hPoll]
  | pending call resume => rw [run_pending hPoll]

/-- **What every step keeps holds at the end of a run**, of the log up to there. -/
theorem log_induction {P : List (Event C R E) → RunState C R E → S → Prop}
    (hStep : ∀ log draw state s events next s', P log state s →
      sweep.step store draw state s = some (events, next, s') → P (log ++ events) next s')
    (draws : List (Option Nonce)) {log : List (Event C R E)} (h : P log state s) :
    P (log ++ sweep.log store draws state s) (sweep.run store draws state s).2.1
      (sweep.run store draws state s).2.2 := by
  induction draws generalizing log state s with
  | nil =>
    rw [Sweep.log, List.append_nil]
    exact h
  | cons draw draws ih =>
    rw [run_step, Sweep.log]
    cases hNext : sweep.step store draw state s with
    | none =>
      dsimp only
      rw [List.append_nil]
      exact h
    | some step =>
      obtain ⟨events, next, s'⟩ := step
      dsimp only
      rw [← List.append_assoc]
      exact ih (hStep log draw state s events next s' h hNext)

end Sweep

/-! ## Where a run stands -/

/-- A call that fails does nothing. -/
def Store.Atomic (store : Store S C R E) (view : S → Database C R) : Prop :=
  ∀ call s error, (store.exec call s).1 = .error error → view (store.exec call s).2 = view s

/-- The row after its plan: replaced, or as it was when the plan writes nothing. -/
def RowOutcome.leave (outcome : RowOutcome) (v : StoredRow R) : StoredRow R :=
  match outcome.write with
  | none => v
  | some write => write.apply v

/-- The cursor that is saved after a batch. -/
def lastCursor (rows : List (SweepRow C R)) : Option C := rows.getLast?.map SweepRow.cursor

/-- The rows that a report counts. -/
def SweepReport.total (report : SweepReport) : Nat :=
  report.current + report.stale + report.legacy + report.conflicts

theorem SweepReport.total_record (report : SweepReport) (state : RowState) :
    (report.record state).total = report.total + 1 ∧
      (report.record state).malformed = report.malformed := by
  unfold total
  cases state with
  | current => exact ⟨by simp only [record]; omega, rfl⟩
  | stale => exact ⟨by simp only [record]; omega, rfl⟩
  | legacy => exact ⟨by simp only [record]; omega, rfl⟩

/-- The report counts as many rows, and none as malformed. -/
def SweepReport.Tallies (report : SweepReport) (rows : List (SweepRow C R)) : Prop :=
  report.total = rows.length ∧ report.malformed = 0

theorem SweepReport.Tallies.record {report : SweepReport} {rows : List (SweepRow C R)}
    (h : report.Tallies rows) (state : RowState) (row : SweepRow C R) :
    (report.record state).Tallies (rows ++ [row]) := by
  obtain ⟨hTotal, hMalformed⟩ := report.total_record state
  refine ⟨?_, hMalformed.trans h.2⟩
  rw [hTotal, h.1, List.length_append]
  rfl

/-- What a run left in the rows it processed, and in all others. -/
structure Processed (planner : RowPlanner prim F R) (before after : C → Option (StoredRow R))
    (rows : List (SweepRow C R)) : Prop where
  rewritten : ∀ row ∈ rows, before row.cursor = some row.stored ∧ ∃ draw outcome,
    planner.planRow row.columns row.ciphertext row.indexes draw = .ok outcome ∧
      after row.cursor = some (outcome.leave row.stored)
  untouched : ∀ x, x ∉ rows.map SweepRow.cursor → after x = before x

namespace Processed

variable {planner : RowPlanner prim F R} {before after after' : C → Option (StoredRow R)}
  {rows : List (SweepRow C R)}

/-- Processing a row that was not processed before. -/
theorem snoc (h : Processed planner before after rows) {row : SweepRow C R} {draw : Option Nonce}
    {outcome : RowOutcome} (hNew : row.cursor ∉ rows.map SweepRow.cursor)
    (hStored : before row.cursor = some row.stored)
    (hPlan : planner.planRow row.columns row.ciphertext row.indexes draw = .ok outcome)
    (hRow : after' row.cursor = some (outcome.leave row.stored))
    (hOthers : ∀ x, x ≠ row.cursor → after' x = after x) :
    Processed planner before after' (rows ++ [row]) := by
  refine ⟨fun other hMem => ?_, fun x hx => ?_⟩
  · rcases List.mem_append.mp hMem with hOld | hLast
    · obtain ⟨hBefore, draw', outcome', hPlan', hAfter⟩ := h.rewritten other hOld
      have hOther : other.cursor ≠ row.cursor := by
        intro hSame
        exact hNew (hSame ▸ List.mem_map_of_mem hOld)
      exact ⟨hBefore, draw', outcome', hPlan', (hOthers _ hOther).trans hAfter⟩
    · rw [List.mem_singleton.mp hLast]
      exact ⟨hStored, draw, outcome, hPlan, hRow⟩
  · rw [List.map_append, List.mem_append, List.map_singleton, List.mem_singleton] at hx
    rw [hOthers x fun hEq => hx (Or.inr hEq)]
    exact h.untouched x fun hOld => hx (Or.inl hOld)

/-- Processing rows keeps the cursors. -/
theorem keys (h : Processed planner before after rows) (x : C) :
    after x = none ↔ before x = none := by
  by_cases hx : x ∈ rows.map SweepRow.cursor
  · obtain ⟨row, hRow, rfl⟩ := List.mem_map.mp hx
    obtain ⟨hBefore, -, outcome, -, hAfter⟩ := h.rewritten row hRow
    rw [hBefore, hAfter]
    simp
  · rw [h.untouched x hx]

end Processed

/-- How far a run came. -/
structure Position (C R : Type) where
  /-- The batches whose checkpoint it saved. -/
  saved : List (List (SweepRow C R))
  /-- The batch it loaded after them. -/
  batch : Option (List (SweepRow C R))
  /-- The rows of that batch that it is done with. -/
  reached : List (SweepRow C R)
  unreached : List (SweepRow C R)
  /-- The row that it planned and is not done with. -/
  pending : Option (SweepRow C R)

/-- The rows a run is done with. -/
def Position.done (p : Position C R) : List (SweepRow C R) := p.saved.flatten ++ p.reached

/-- **The trail of a run**: its position is what the log says, and the store holds what it left. -/
structure Sweep.Trail [LinearOrder C] (sweep : Sweep prim F R) (start db : Database C R)
    (log : List (Event C R E)) (p : Position C R) : Prop where
  checkpoint : db.checkpoint = (savedCursors log).getLast?.or start.checkpoint
  /-- The cursor of the last row of every batch was saved after it. -/
  saved : (savedCursors log).map some = p.saved.map lastCursor
  loaded : loadedBatches log = p.saved ++ p.batch.toList
  batch : p.batch.getD [] = p.reached ++ p.unreached
  planned : plannedRows log = p.done ++ p.pending.toList
  pending : ∀ row ∈ p.pending, p.unreached.head? = some row
  processed : Processed sweep.planner start.table db.table p.done
  scanned : Between start.table start.checkpoint db.checkpoint (p.saved.flatten.map SweepRow.entry)
  page : ∀ rows ∈ p.batch,
    Page start.table db.checkpoint sweep.batchSize (rows.map SweepRow.entry)

/-! ## The trail, step by step -/

namespace Sweep.Trail

variable [LinearOrder C] {sweep : Sweep prim F R} {start db db' : Database C R}
  {log : List (Event C R E)} {p : Position C R} {saved : List (List (SweepRow C R))}
  {rows reached todo : List (SweepRow C R)} {row : SweepRow C R}

/-- Before its first call, a run has done nothing. -/
theorem init (sweep : Sweep prim F R) (db : Database C R) :
    Trail sweep db db ([] : List (Event C R E)) ⟨[], none, [], [], none⟩ where
  checkpoint := rfl
  saved := rfl
  loaded := rfl
  batch := rfl
  planned := rfl
  pending := by
    intro row hRow
    cases hRow
  processed := by
    refine ⟨fun row hRow => ?_, fun x _ => rfl⟩
    cases hRow
  scanned := Between.refl db.table db.checkpoint
  page := by
    intro rows hRows
    cases hRows

/-- A call that loads and saves nothing leaves the trail. -/
theorem quiet (h : Trail sweep start db log p) {event : Event C R E}
    (hPlanned : event.planned? = none) (hLoaded : event.loaded? = none)
    (hSaved : event.saved? = none) : Trail sweep start db (log ++ [event]) p where
  checkpoint := by simpa [hSaved] using h.checkpoint
  saved := by simpa [hSaved] using h.saved
  loaded := by simpa [hLoaded] using h.loaded
  batch := h.batch
  planned := by simpa [hPlanned] using h.planned
  pending := h.pending
  processed := h.processed
  scanned := h.scanned
  page := h.page

/-- The row that a run comes to next was not processed, and is stored as it was read. -/
theorem unreached_kept (h : Trail sweep start db log p) (hRow : row ∈ p.unreached) :
    row.cursor ∉ p.done.map SweepRow.cursor ∧ start.table row.cursor = some row.stored ∧
      db.table row.cursor = some row.stored := by
  cases hBatch : p.batch with
  | none =>
    have hEmpty := h.batch
    rw [hBatch, Option.getD_none] at hEmpty
    rw [(List.append_eq_nil_iff.mp hEmpty.symm).2] at hRow
    cases hRow
  | some rows =>
    have hRows : rows = p.reached ++ p.unreached := by
      have hSplit := h.batch
      rwa [hBatch, Option.getD_some] at hSplit
    have hPage := h.page rows hBatch
    have hMem : row ∈ rows := hRows ▸ List.mem_append_right _ hRow
    obtain ⟨hStored, hAfter⟩ := hPage.stored row.entry (List.mem_map_of_mem hMem)
    have hNew : row.cursor ∉ p.done.map SweepRow.cursor := by
      intro hDone
      obtain ⟨other, hOther, hSame⟩ := List.mem_map.mp hDone
      rcases List.mem_append.mp hOther with hSaved | hReached
      · -- The checkpoint lies between a saved batch and the one after it.
        have hNot := ((h.scanned.mem_iff other.entry).mp (List.mem_map_of_mem hSaved)).2.2
        have hAt : After db.checkpoint other.cursor := by rwa [hSame]
        exact hNot hAt
      · have hAscending := hPage.ascending
        rw [hRows, List.map_append] at hAscending
        have hLt : other.cursor < row.cursor := (List.pairwise_append.mp hAscending).2.2 other.entry
          (List.mem_map_of_mem hReached) row.entry (List.mem_map_of_mem hRow)
        exact hLt.ne hSame
    exact ⟨hNew, hStored, (h.processed.untouched _ hNew).trans hStored⟩

/-- Loading the next batch. -/
theorem load (h : Trail sweep start db log ⟨saved, none, [], [], none⟩) {limit : Nat}
    (hPage : Page db.table db.checkpoint sweep.batchSize (rows.map SweepRow.entry)) :
    Trail sweep start db
      (log ++ [.returned (.loadBatch db.checkpoint limit) (.ok rows)])
      ⟨saved, some rows, [], rows, none⟩ where
  checkpoint := by simpa [Event.saved?] using h.checkpoint
  saved := by simpa [Event.saved?] using h.saved
  loaded := by simpa [Event.loaded?] using h.loaded
  batch := rfl
  planned := by simpa [Event.planned?, Position.done] using h.planned
  pending := by
    intro row hRow
    cases hRow
  processed := h.processed
  scanned := h.scanned
  page := by
    rintro _ ⟨⟩
    apply hPage.congr
    intro x hAfter
    refine (h.processed.untouched x fun hDone => ?_).symm
    obtain ⟨row, hRow, rfl⟩ := List.mem_map.mp hDone
    rw [Position.done, List.append_nil] at hRow
    exact ((h.scanned.mem_iff row.entry).mp (List.mem_map_of_mem hRow)).2.2 hAfter

/-- Planning the next row. -/
theorem plan (h : Trail sweep start db log ⟨saved, some rows, reached, row :: todo, none⟩) :
    Trail sweep start db (log ++ [.planned row])
      ⟨saved, some rows, reached, row :: todo, some row⟩ where
  checkpoint := by simpa [Event.saved?] using h.checkpoint
  saved := by simpa [Event.saved?] using h.saved
  loaded := by simpa [Event.loaded?] using h.loaded
  batch := h.batch
  planned := by
    rw [plannedRows_snoc, h.planned]
    exact congrArg (· ++ [row]) (List.append_nil _)
  pending := by
    rintro _ ⟨⟩
    rfl
  processed := h.processed
  scanned := h.scanned
  page := h.page

/-- Being done with the planned row, whose plan is in the store by now. -/
theorem pass (h : Trail sweep start db log ⟨saved, some rows, reached, row :: todo, some row⟩)
    {draw : Option Nonce} {outcome : RowOutcome}
    (hPlan : sweep.planner.planRow row.columns row.ciphertext row.indexes draw = .ok outcome)
    (hCheckpoint : db'.checkpoint = db.checkpoint)
    (hRow : db'.table row.cursor = some (outcome.leave row.stored))
    (hOthers : ∀ x, x ≠ row.cursor → db'.table x = db.table x) :
    Trail sweep start db' log ⟨saved, some rows, reached ++ [row], todo, none⟩ := by
  obtain ⟨hNew, hStored, -⟩ := h.unreached_kept List.mem_cons_self
  have hProcessed := h.processed.snoc hNew hStored hPlan hRow hOthers
  rw [Position.done, List.append_assoc] at hProcessed
  exact {
    checkpoint := hCheckpoint.trans h.checkpoint
    saved := h.saved
    loaded := h.loaded
    batch := by simpa using h.batch
    planned := by simpa [Position.done] using h.planned
    pending := by
      intro other hOther
      cases hOther
    processed := hProcessed
    scanned := hCheckpoint ▸ h.scanned
    page := hCheckpoint ▸ h.page }

/-- Saving the cursor of a batch whose rows are all processed. -/
theorem save (h : Trail sweep start db log ⟨saved, some rows, rows, [], none⟩) {cursor : C}
    (hCursor : lastCursor rows = some cursor) :
    Trail sweep start ⟨db.table, some cursor⟩
      (log ++ [.returned (.saveCheckpoint cursor) (.ok ())])
      ⟨saved ++ [rows], none, [], [], none⟩ := by
  obtain ⟨last, hLast, rfl⟩ := Option.map_eq_some_iff.mp hCursor
  have hFlatten : (saved ++ [rows]).flatten = saved.flatten ++ rows := by simp
  have hEntry : (rows.map SweepRow.entry).getLast? = some last.entry := by
    rw [List.getLast?_map, hLast]
    rfl
  have hProcessed := h.processed
  rw [Position.done, ← hFlatten, ← List.append_nil (saved ++ [rows]).flatten] at hProcessed
  exact {
    checkpoint := by simp [Event.saved?]
    saved := by simpa [Event.saved?, hCursor] using h.saved
    loaded := by simpa [Event.loaded?] using h.loaded
    batch := rfl
    planned := by simpa [Event.planned?, Position.done] using h.planned
    pending := by
      intro row hRow
      cases hRow
    processed := hProcessed
    scanned := by
      rw [hFlatten, List.map_append]
      exact h.scanned.append (h.page rows rfl) sweep.positive hEntry
    page := by
      intro rows hRows
      cases hRows }

end Sweep.Trail

/-! ## The invariant of a run -/

/-- What an error leaves behind: where the run stands, with a row that cannot be planned, if
that is what stopped it. -/
structure Sweep.Stopped [LinearOrder C] (sweep : Sweep prim F R) (start db : Database C R)
    (log : List (Event C R E)) (error : SweepError E) (p : Position C R) : Prop where
  trail : sweep.Trail start db log p
  cause : ∀ e, error = .row e → ∃ row draw, p.pending = some row ∧
    sweep.planner.planRow row.columns row.ciphertext row.indexes draw = err e

/-- What holds of a run in each of its states. -/
def Sweep.Follows [LinearOrder C] (sweep : Sweep prim F R) (start db : Database C R)
    (log : List (Event C R E)) : RunState C R E → Prop
  | .loadingCheckpoint => log = [] ∧ db = start
  | .loadingBatch after report => after = db.checkpoint ∧ ∃ saved,
      sweep.Trail start db log ⟨saved, none, [], [], none⟩ ∧ report.Tallies saved.flatten
  | .processing rows todo report => ∃ saved reached,
      sweep.Trail start db log ⟨saved, some rows, reached, todo, none⟩ ∧
        report.Tallies (saved.flatten ++ reached)
  | .updating rows row replacement state todo report => ∃ saved reached draw,
      sweep.Trail start db log ⟨saved, some rows, reached, row :: todo, some row⟩ ∧
        sweep.planner.planRow row.columns row.ciphertext row.indexes draw
          = .ok ⟨state, some replacement⟩ ∧
        report.Tallies (saved.flatten ++ reached)
  | .savingCheckpoint cursor report => ∃ saved rows, lastCursor rows = some cursor ∧
      sweep.Trail start db log ⟨saved, some rows, rows, [], none⟩ ∧
        report.Tallies (saved.flatten ++ rows)
  | .finished (.error error) => ∃ p, sweep.Stopped start db log error p
  | .finished (.ok report) => ∃ saved,
      sweep.Trail start db log ⟨saved, some [], [], [], none⟩ ∧ report.Tallies saved.flatten
  | .panicked => True

namespace Sweep

variable [LinearOrder C] {sweep : Sweep prim F R} {store : Store S C R E}
  {view : S → Database C R} {start : Database C R} {log : List (Event C R E)}

/-- A call of the store that fails, wherever the run stands. -/
theorem Trail.failed {db : Database C R} {p : Position C R} (h : sweep.Trail start db log p)
    (call : Call C R) (error : E) :
    ∃ p, sweep.Stopped start db (log ++ [.returned call (.error error)]) (.store error) p := by
  refine ⟨p, h.quiet rfl ?_ ?_, ?_⟩
  · cases call <;> rfl
  · cases call <;> rfl
  · intro e he
    cases he

/-- Processing the row at the head of what is left. -/
theorem Trail.processRow {db : Database C R} {saved : List (List (SweepRow C R))}
    {rows reached todo : List (SweepRow C R)} {row : SweepRow C R} {report : SweepReport}
    (h : sweep.Trail start db log ⟨saved, some rows, reached, row :: todo, none⟩)
    (hTally : report.Tallies (saved.flatten ++ reached)) (draw : Option Nonce) :
    sweep.Follows start db (log ++ [.planned row])
      (sweep.processRow draw rows row todo report) := by
  obtain ⟨-, -, hKept⟩ := h.unreached_kept List.mem_cons_self
  have hPlanned := h.plan
  unfold Sweep.processRow
  split
  · next e hPlan =>
    refine ⟨_, hPlanned, fun e' he' => ⟨row, draw, rfl, ?_⟩⟩
    cases he'
    exact hPlan
  · trivial
  · next state hPlan =>
    have hTally' := hTally.record state row
    rw [List.append_assoc] at hTally'
    exact ⟨saved, reached ++ [row], hPlanned.pass hPlan rfl hKept (fun _ _ => rfl), hTally'⟩
  · next state replacement hPlan => exact ⟨saved, reached, draw, hPlanned, hPlan, hTally⟩

/-- A loaded row that the run has not come to was not changed: its update succeeds. -/
theorem Trail.matches {db : Database C R} {p : Position C R} (h : sweep.Trail start db log p)
    {row : SweepRow C R} (hRow : row ∈ p.unreached) : db.Matches row row.stored :=
  ⟨(h.unreached_kept hRow).2.2, rfl, rfl⟩

/-- The update of a planned row succeeds, and the run is done with the row. -/
theorem Trail.updated {db db' : Database C R} {saved : List (List (SweepRow C R))}
    {rows reached todo : List (SweepRow C R)} {row : SweepRow C R} {state : RowState}
    {replacement : RowWrite} {draw : Option Nonce} {answer : Bool}
    (h : sweep.Trail start db log ⟨saved, some rows, reached, row :: todo, some row⟩)
    (hPlan : sweep.planner.planRow row.columns row.ciphertext row.indexes draw
      = .ok ⟨state, some replacement⟩) (hExec : Exec (.update row replacement) db answer db') :
    answer = true ∧ sweep.Trail start db' log ⟨saved, some rows, reached ++ [row], todo, none⟩ := by
  have hMatches := h.matches List.mem_cons_self
  cases hExec with
  | lost _ _ _ hChanged => exact absurd hMatches (hChanged row.stored)
  | updated _ _ _ v hOld =>
    cases hMatches.1.symm.trans hOld.1
    refine ⟨rfl, ?_⟩
    apply h.pass hPlan
    · rfl
    · exact Function.update_self ..
    · intro x hx
      exact Function.update_of_ne hx ..

/-- **A step of a run keeps its trail.** -/
theorem Follows.step (hMeets : store.Meets view) (hAtomic : store.Atomic view)
    {draw : Option Nonce} {state next : RunState C R E} {s s' : S} {events : List (Event C R E)}
    (h : sweep.Follows start (view s) log state)
    (hStep : sweep.step store draw state s = some (events, next, s')) :
    sweep.Follows start (view s') (log ++ events) next := by
  cases state with
  | loadingCheckpoint =>
    cases hStep
    obtain ⟨rfl, hStart⟩ := h
    cases hAnswer : (store.exec .loadCheckpoint s).1 with
    | error error =>
      rw [hAtomic _ _ _ hAnswer, hStart]
      exact (Trail.init sweep start).failed .loadCheckpoint error
    | ok cursor =>
      have hExec := hMeets _ _ _ hAnswer
      rw [hStart] at hExec
      generalize view (store.exec .loadCheckpoint s).2 = db at hExec ⊢
      cases hExec
      exact ⟨rfl, [], (Trail.init sweep start).quiet rfl rfl rfl, rfl, rfl⟩
  | loadingBatch after report =>
    cases hStep
    obtain ⟨rfl, saved, hTrail, hTally⟩ := h
    cases hAnswer : (store.exec (.loadBatch (view s).checkpoint sweep.batchSize) s).1 with
    | error error =>
      rw [hAtomic _ _ _ hAnswer]
      exact hTrail.failed _ error
    | ok rows =>
      obtain ⟨hView, hPage⟩ := hMeets.loadBatch hAnswer
      rw [hView]
      refine ⟨saved, [], hTrail.load hPage, ?_⟩
      rwa [List.append_nil]
  | processing rows todo report =>
    obtain ⟨saved, reached, hTrail, hTally⟩ := h
    cases todo with
    | nil =>
      have hRows : rows = reached := by
        have hBatch := hTrail.batch
        rwa [Option.getD_some, List.append_nil] at hBatch
      subst hRows
      cases hLast : rows.getLast? with
      | none =>
        obtain rfl := List.getLast?_eq_none_iff.mp hLast
        cases hStep
        rw [List.append_nil] at hTally
        rw [RunState.planning_nil, List.append_nil]
        exact ⟨saved, hTrail, hTally⟩
      | some last =>
        rw [Sweep.step, pollRun_leave draw hLast] at hStep
        cases hStep
        rw [RunState.planning_nil, List.append_nil]
        refine ⟨saved, rows, ?_, hTrail, hTally⟩
        rw [lastCursor, hLast]
        rfl
    | cons row todo =>
      cases hStep
      exact hTrail.processRow hTally draw
  | updating rows row replacement state todo report =>
    cases hStep
    obtain ⟨saved, reached, draw, hTrail, hPlan, hTally⟩ := h
    cases hAnswer : (store.exec (.update row replacement) s).1 with
    | error error =>
      rw [hAtomic _ _ _ hAnswer]
      exact hTrail.failed _ error
    | ok updated =>
      have hExec := hMeets _ _ _ hAnswer
      generalize view (store.exec (.update row replacement) s).2 = db at hExec ⊢
      obtain ⟨rfl, hPassed⟩ := hTrail.updated hPlan hExec
      have hTally' := hTally.record state row
      rw [List.append_assoc] at hTally'
      exact ⟨saved, reached ++ [row], hPassed.quiet rfl rfl rfl, hTally'⟩
  | savingCheckpoint cursor report =>
    cases hStep
    obtain ⟨saved, rows, hCursor, hTrail, hTally⟩ := h
    cases hAnswer : (store.exec (.saveCheckpoint cursor) s).1 with
    | error error =>
      rw [hAtomic _ _ _ hAnswer]
      exact hTrail.failed _ error
    | ok answer =>
      have hExec := hMeets _ _ _ hAnswer
      generalize view (store.exec (.saveCheckpoint cursor) s).2 = db at hExec ⊢
      cases hExec
      refine ⟨rfl, saved ++ [rows], hTrail.save hCursor, ?_⟩
      rwa [List.flatten_append, List.flatten_singleton]
  | finished result => cases hStep
  | panicked => cases hStep

/-! ## After a run -/

/-- **What a run leaves behind that returned an error.** -/
structure Interrupted (sweep : Sweep prim F R) (start db : Database C R) (log : List (Event C R E))
    (error : SweepError E) (p : Position C R) : Prop where
  /-- The durable checkpoint is the last one that was saved, or the one the run started from. -/
  checkpoint : db.checkpoint = (savedCursors log).getLast?.or start.checkpoint
  /-- Every checkpoint that was saved is the last cursor of its batch. -/
  saved : (savedCursors log).map some = p.saved.map lastCursor
  /-- At most one batch was loaded after those whose checkpoint was saved. -/
  loaded : loadedBatches log = p.saved ++ p.batch.toList
  batch : p.batch.getD [] = p.reached ++ p.unreached
  planned : plannedRows log = p.done ++ p.pending.toList
  pending : ∀ row ∈ p.pending, p.unreached.head? = some row
  /-- Every loaded row up to the checkpoint was processed. -/
  passed : ∀ row ∈ (loadedBatches log).flatten, ¬ After db.checkpoint row.cursor → row ∈ p.done
  /-- The rows that were processed hold their replacements, or what they held when current. -/
  rewritten : ∀ row ∈ p.done, start.table row.cursor = some row.stored ∧ ∃ draw outcome,
    sweep.planner.planRow row.columns row.ciphertext row.indexes draw = .ok outcome ∧
      db.table row.cursor = some (outcome.leave row.stored)
  /-- Nothing else changed. -/
  untouched : ∀ x, x ∉ p.done.map SweepRow.cursor → db.table x = start.table x
  kept : ∀ row ∈ p.unreached, start.table row.cursor = some row.stored ∧
    db.table row.cursor = some row.stored
  /-- The rows left, and the failing one first, are among the next ones after the checkpoint. -/
  near : ∀ row ∈ p.unreached, ∃ page,
    Page db.table db.checkpoint sweep.batchSize page ∧ row.entry ∈ page
  /-- A row that stopped the run is the one that was planned last. -/
  cause : ∀ e, error = .row e → ∃ row draw, p.pending = some row ∧
    sweep.planner.planRow row.columns row.ciphertext row.indexes draw = err e

/-- **What a run has done that returned `Ok`**: it planned the rows after the checkpoint it
started from, each once and in order, and its report counts them. -/
def Completed (start : Database C R) (log : List (Event C R E)) (report : SweepReport) : Prop :=
  report.malformed = 0 ∧ ∀ entries, Enumerates start.table entries →
    (plannedRows log).map SweepRow.entry = remaining entries start.checkpoint ∧
    report.current + report.stale + report.legacy + report.conflicts
      = (remaining entries start.checkpoint).length

theorem Stopped.interrupted {db : Database C R} {error : SweepError E} {p : Position C R}
    (h : sweep.Stopped start db log error p) : sweep.Interrupted start db log error p where
  checkpoint := h.trail.checkpoint
  saved := h.trail.saved
  loaded := h.trail.loaded
  batch := h.trail.batch
  planned := h.trail.planned
  pending := h.trail.pending
  passed := by
    intro row hRow hPassed
    rw [h.trail.loaded, List.flatten_append, List.mem_append] at hRow
    rcases hRow with hSaved | hBatch
    · exact List.mem_append_left _ hSaved
    · cases hRows : p.batch with
      | none =>
        rw [hRows] at hBatch
        cases hBatch
      | some rows =>
        rw [hRows, Option.toList_some, List.flatten_singleton] at hBatch
        have hStored := (h.trail.page rows hRows).stored row.entry (List.mem_map_of_mem hBatch)
        exact absurd hStored.2 hPassed
  rewritten := h.trail.processed.rewritten
  untouched := h.trail.processed.untouched
  kept := fun row hRow => (h.trail.unreached_kept hRow).2
  near := by
    intro row hRow
    have hKept := (h.trail.unreached_kept hRow).2.2
    cases hRows : p.batch with
    | none =>
      have hEmpty := h.trail.batch
      rw [hRows, Option.getD_none] at hEmpty
      rw [(List.append_eq_nil_iff.mp hEmpty.symm).2] at hRow
      cases hRow
    | some rows =>
      have hSplit := h.trail.batch
      rw [hRows, Option.getD_some] at hSplit
      have hMem : row ∈ rows := hSplit ▸ List.mem_append_right _ hRow
      refine ⟨_, (h.trail.page rows hRows).of_keys h.trail.processed.keys, ?_⟩
      refine List.mem_map.mpr ⟨row.entry, List.mem_map_of_mem hMem, ?_⟩
      show (row.cursor, (db.table row.cursor).getD row.stored) = row.entry
      rw [hKept]
      rfl
  cause := h.cause

/-- A run that came to an empty batch has planned everything after its start. -/
theorem Trail.completed {db : Database C R} {saved : List (List (SweepRow C R))}
    {report : SweepReport} (h : sweep.Trail start db log ⟨saved, some [], [], [], none⟩)
    (hTally : report.Tallies saved.flatten) : Completed start log report := by
  refine ⟨hTally.2, fun entries hEntries => ?_⟩
  have hAll := h.scanned.remaining_eq (h.page [] rfl) sweep.positive hEntries
  have hPlanned : plannedRows log = saved.flatten := by simpa [Position.done] using h.planned
  constructor
  · rw [hPlanned, hAll]
  · rw [← hAll, List.length_map]
    exact hTally.1

/-- **What a run leaves behind**, over a store whose failed calls do nothing and that nobody else
writes to, from any checkpoint. The counts are those of the source while there are fewer than
2^64 rows. -/
theorem run_interrupted (hMeets : store.Meets view) (hAtomic : store.Atomic view)
    (sweep : Sweep prim F R) (draws : List (Option Nonce)) {s s' : S} {calls : List (Call C R)}
    {result : Except (SweepError E) SweepReport}
    (hRun : sweep.run store draws .loadingCheckpoint s = (calls, .finished result, s')) :
    (∀ error, result = .error error → ∃ p, sweep.Interrupted (view s) (view s')
      (sweep.log store draws .loadingCheckpoint s) error p) ∧
    (∀ report, result = .ok report →
      Completed (view s) (sweep.log store draws .loadingCheckpoint s) report) := by
  have hFollows : sweep.Follows (view s) (view s')
      (sweep.log store draws .loadingCheckpoint s) (.finished result) := by
    have hInit : sweep.Follows (view s) (view s) ([] : List (Event C R E)) .loadingCheckpoint :=
      ⟨rfl, rfl⟩
    have hStep (log : List (Event C R E)) (draw : Option Nonce) (state : RunState C R E) (t : S)
        (events : List (Event C R E)) (next : RunState C R E) (t' : S)
        (h : sweep.Follows (view s) (view t) log state)
        (hNext : sweep.step store draw state t = some (events, next, t')) :
        sweep.Follows (view s) (view t') (log ++ events) next :=
      h.step hMeets hAtomic hNext
    have hEnd := log_induction hStep draws hInit
    rw [hRun] at hEnd
    exact hEnd
  constructor
  · rintro error rfl
    obtain ⟨p, hStopped⟩ := hFollows
    exact ⟨p, hStopped.interrupted⟩
  · rintro report rfl
    obtain ⟨saved, hTrail, hTally⟩ := hFollows
    exact hTrail.completed hTally

end Sweep

/-! ## A run over a row that is no envelope -/

namespace MemoryStore

theorem atomic [LinearOrder C] : (store (C := C) (R := R)).Atomic database := by
  intro call s error
  cases error

/-- The store that holds the row after its checkpoint. -/
def garbage : MemoryStore Nat Unit := single 7 Vectors.garbageRow (some 3)

theorem run_garbage :
    ((Sweep.new Vectors.planner).withBatchSize 0).run store (List.replicate 3 none)
      .loadingCheckpoint garbage
      = ([.loadCheckpoint, .loadBatch (some 3) 1], .finished (.error (.row .invalidEnvelope)),
        garbage) := rfl

/-- The run stops at the row, and leaves the checkpoint and the row. -/
theorem run_garbage_interrupted :
    ∃ p, ((Sweep.new Vectors.planner).withBatchSize 0).Interrupted garbage.database
      garbage.database (((Sweep.new Vectors.planner).withBatchSize 0).log store
        (List.replicate 3 none) .loadingCheckpoint garbage) (.row .invalidEnvelope) p :=
  (Sweep.run_interrupted meets atomic _ (List.replicate 3 none) run_garbage).1 _ rfl

end MemoryStore

end Cryptbox

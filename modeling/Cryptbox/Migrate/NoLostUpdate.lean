import Cryptbox.Migrate.System

/-!
# Sweeps lose no update

A worker replaces a row only by the plan of exactly that row: it compares every byte it
planned from. When the comparison fails the row stays as it is, the worker counts a conflict
and goes on to rows beyond it (`RunState.Beyond`).

* `System.no_lost_update`: what a worker's steps do to the rows, what a lost comparison
  does, and that every row comes from what a writer stored by plans alone.
-/

namespace Cryptbox

open Base

variable {prim : Primitives} {F : Seal} {R C E W : Type}

/-- A successful plan rewrites the row. -/
def RowPlanner.PlanStep (planner : RowPlanner prim F R) (v v' : StoredRow R) : Prop :=
  ∃ draw state write, planner.planRow v.columns v.ciphertext v.indexes draw
      = .ok ⟨state, some write⟩ ∧ v' = ⟨v.columns, write.ciphertext, write.indexes⟩

/-- Where the columns of a row never change, rewrites are plans of the row itself. -/
theorem PlannedRewrite.planStep {planner : RowPlanner prim F R} {columnsOf : C → R} {x : C}
    {v v' : StoredRow R} (h : PlannedRewrite planner (fun x r => r = columnsOf x) x v v')
    (hColumns : v.columns = columnsOf x) : planner.PlanStep v v' := by
  obtain ⟨_, draw, state, write, rfl, hPlan, rfl⟩ := h
  rw [← hColumns] at hPlan
  exact ⟨draw, state, write, hPlan, rfl⟩

theorem PlannedRewrite.columns {planner : RowPlanner prim F R} {columns : C → R → Prop} {x : C}
    {v v' : StoredRow R} (h : PlannedRewrite planner columns x v v') : v'.columns = v.columns := by
  obtain ⟨read, draw, state, write, -, -, rfl⟩ := h
  rfl

theorem PlannedRewrite.chain {planner : RowPlanner prim F R} {columnsOf : C → R} {x : C}
    {o v : StoredRow R}
    (h : Relation.ReflTransGen (PlannedRewrite planner (fun x r => r = columnsOf x) x) o v)
    (hColumns : v.columns = columnsOf x) : Relation.ReflTransGen planner.PlanStep o v := by
  induction h with
  | refl => exact .refl
  | tail _ hLast ih =>
    rw [hLast.columns] at hColumns
    exact (ih hColumns).tail (hLast.planStep hColumns)

variable [LinearOrder C]

/-! ## A conflict is not retried -/

/-- Whatever the worker updates from here on lies beyond `x`. -/
def RunState.Beyond (x : C) : RunState C R E → Prop
  | .loadingCheckpoint => False
  | .loadingBatch after _ => ∃ c, after = some c ∧ x ≤ c
  | .processing rows todo _ =>
    (∀ last ∈ rows.getLast?, x ≤ last.cursor) ∧ ∀ row ∈ todo, x < row.cursor
  | .updating rows row _ _ todo _ =>
    (∀ last ∈ rows.getLast?, x ≤ last.cursor) ∧ ∀ row' ∈ row :: todo, x < row'.cursor
  | .savingCheckpoint cursor _ => x ≤ cursor
  | .finished _ => True
  | .panicked => True

theorem Sweep.Moves.beyond {sweep : Sweep prim F R} {state next : RunState C R E}
    {db db' : Database C R} {x : C} (h : sweep.Moves db state db' next) (hBeyond : state.Beyond x) :
    next.Beyond x := by
  cases h with
  | loadCheckpoint => exact hBeyond.elim
  | loadBatch after report rows hPage =>
    obtain ⟨c, rfl, hx⟩ := hBeyond
    have hRows : ∀ row ∈ rows, x < row.cursor := fun row hRow =>
      lt_of_le_of_lt hx (after_some.mp (hPage.stored row.entry (List.mem_map_of_mem hRow)).2)
    exact ⟨fun last hLast => (hRows last (List.mem_of_getLast? hLast)).le, hRows⟩
  | finish => trivial
  | leave rows row report hLast => exact hBeyond.1 row hLast
  | skip => exact ⟨hBeyond.1, fun row hRow => hBeyond.2 row (List.mem_cons_of_mem _ hRow)⟩
  | plan => exact hBeyond
  | update => exact ⟨hBeyond.1, fun row hRow => hBeyond.2 row (List.mem_cons_of_mem _ hRow)⟩
  | lose => exact ⟨hBeyond.1, fun row hRow => hBeyond.2 row (List.mem_cons_of_mem _ hRow)⟩
  | saveCheckpoint cursor => exact ⟨cursor, rfl, hBeyond⟩
  | fail => trivial
  | reject => trivial
  | panic => trivial

/-- The rest of a batch lies beyond each of its rows. -/
theorem Batch.beyond {columns : C → R → Prop} {rows todo : List (SweepRow C R)}
    {row : SweepRow C R} (h : Batch columns rows (row :: todo)) (report : SweepReport) :
    (RunState.processing rows todo report : RunState C R E).Beyond row.cursor := by
  obtain ⟨front, rfl⟩ := h.suffix
  have hAscending := h.ascending
  refine ⟨fun last hLast => ?_, fun row' hRow' => ?_⟩
  · have hLast' : ((front ++ row :: todo).map SweepRow.entry).getLast? = some last.entry := by
      rw [List.getLast?_map, hLast]
      rfl
    refine hAscending.le_last hLast' row.entry (List.mem_map_of_mem ?_)
    exact List.mem_append_right _ List.mem_cons_self
  · rw [List.map_append, List.map_cons] at hAscending
    have hTail := (List.pairwise_append.mp hAscending).2.1
    exact (List.pairwise_cons.mp hTail).1 row'.entry (List.mem_map_of_mem hRow')

namespace System

variable [DecidableEq W] {sweeps : W → Sweep prim F R} {Allowed : C → StoredRow R → Prop}
  {s t : System C R E W} {w : W}

/-- A step of anyone after which `w` is not at its start. -/
def Continues (sweeps : W → Sweep prim F R) (Allowed : C → StoredRow R → Prop) (w : W)
    (s t : System C R E W) : Prop :=
  Step sweeps Allowed s t ∧ t.workers w ≠ some .loadingCheckpoint

theorem beyond_step {x : C} (h : ∀ state, s.workers w = some state → state.Beyond x)
    (hStep : Continues sweeps Allowed w s t) :
    ∀ state, t.workers w = some state → state.Beyond x := by
  obtain ⟨hStep, hStarted⟩ := hStep
  cases hStep with
  | writer hWriter =>
    cases hWriter with
    | put => exact h
    | erase => exact h
  | worker w' hWorker =>
    obtain ⟨-, next, hWorkers, hNext⟩ := hWorker.inversion
    rw [hWorkers, Function.update_apply] at hStarted ⊢
    split
    · next hw =>
      subst hw
      rw [if_pos rfl] at hStarted
      rcases hNext with ⟨-, -, rfl⟩ | ⟨rfl, -⟩ | ⟨state, next, hState, rfl, hMoves⟩
      · exact absurd rfl hStarted
      · exact fun _ hNone => nomatch hNone
      · rintro _ ⟨⟩
        exact hMoves.beyond (h state hState)
    · exact h

theorem beyond_run {x : C} (h : ∀ state, s.workers w = some state → state.Beyond x)
    (hRun : Relation.ReflTransGen (Continues sweeps Allowed w) s t) :
    ∀ state, t.workers w = some state → state.Beyond x :=
  invariant_run (P := fun s => ∀ state, s.workers w = some state → state.Beyond x)
    (fun h hStep => beyond_step h hStep) hRun h

/-- The comparison of the update that the worker waits for cannot succeed. -/
structure LosesComparison (s : System C R E W) (w : W) (rows : List (SweepRow C R))
    (row : SweepRow C R) (todo : List (SweepRow C R)) (report : SweepReport) : Prop where
  waits : ∃ replacement state,
    s.workers w = some (.updating rows row replacement state todo report)
  changed : ∀ v, ¬ s.db.Matches row v

/-- A lost comparison changes nothing: the worker counts a conflict, or never learns of it. -/
theorem lost_step {sweep : Sweep prim F R} {rows todo : List (SweepRow C R)} {row : SweepRow C R}
    {report : SweepReport} (h : LosesComparison s w rows row todo report)
    (hStep : WorkerStep sweep w s t) :
    t.db = s.db ∧
      (t.workers w
          = some (.processing rows todo { report with conflicts := report.conflicts + 1 }) ∨
        (∃ error, t.workers w = some (.finished (.error (.store error)))) ∨
        t.workers w = none) := by
  obtain ⟨⟨replacement, state, hState⟩, hChanged⟩ := h
  have hEffects {db : Database C R} (hEffects :
      (RunState.updating rows row replacement state todo report : RunState C R E).Effects s.db db) :
      db = s.db := by
    cases hEffects with
    | nothing => rfl
    | update _ v hMatches => exact absurd hMatches (hChanged v)
  obtain ⟨-, next, hWorkers, ⟨hIdle, -⟩ | ⟨rfl, hDb⟩ | ⟨state', next, hState', rfl, hMoves⟩⟩ :=
    hStep.inversion
  · rw [hState] at hIdle
    cases hIdle
  · refine ⟨?_, Or.inr (Or.inr ?_)⟩
    · rcases hDb with hDb | ⟨state', hState', hDb⟩
      · exact hDb
      · cases hState.symm.trans hState'
        exact hEffects hDb
    · rw [hWorkers, Function.update_self]
  · cases hState.symm.trans hState'
    refine ⟨hEffects hMoves.effects, ?_⟩
    rw [hWorkers, Function.update_self]
    generalize hDb : t.db = db at hMoves
    cases hMoves with
    | update _ _ _ _ _ _ v hMatches => exact absurd hMatches (hChanged v)
    | lose => exact Or.inl rfl
    | fail => exact Or.inr (Or.inl ⟨_, rfl⟩)

/-- A step of a worker replaces one row by its plan, or leaves the rows as they are. -/
theorem workerStep_table {columnsOf : C → R} (hHolds : Holds sweeps (fun x r => r = columnsOf x) s)
    (hStep : WorkerStep (sweeps w) w s t) :
    t.db.table = s.db.table ∨ ∃ x v v', s.db.table x = some v ∧
      (sweeps w).planner.PlanStep v v' ∧ t.db.table = Function.update s.db.table x (some v') := by
  rcases effects_of_workerStep hStep with hDb | ⟨state, hState, hEffects⟩
  · exact Or.inl (congrArg Database.table hDb)
  · rcases hEffects.table (hHolds.workers w state hState) with hTable |
      ⟨x, v, v', hOld, hPlan, hTable⟩
    · exact Or.inl hTable
    · exact Or.inr ⟨x, v, v', hOld, hPlan.planStep (hHolds.table x v hOld), hTable⟩

/-- **A sweep loses no update.** Any number of workers run, crash and start again beside
writers that store rows whose columns are those of their cursor. At every state reached:

1. a step of a worker replaces one row by the plan made from exactly that row, if it changes
   the rows at all; so it creates and deletes none;
2. a lost comparison leaves the store as it is and is counted as a conflict, and until it is
   started again the worker updates only rows beyond;
3. every row comes from what a writer stored last under its cursor by successful plans. -/
theorem no_lost_update (planner : RowPlanner prim F R) (batchSizes : W → Nat) (columnsOf : C → R)
    (table : C → Option (StoredRow R)) (hTable : ∀ x v, table x = some v → v.columns = columnsOf x)
    {s : System C R E W}
    (hRun : Run (fun w => (Sweep.new planner).withBatchSize (batchSizes w))
      (fun x v => v.columns = columnsOf x) (init table) s) :
    (∀ w t, WorkerStep ((Sweep.new planner).withBatchSize (batchSizes w)) w s t →
      (t.db.table = s.db.table ∨ ∃ x v v', s.db.table x = some v ∧ planner.PlanStep v v' ∧
        t.db.table = Function.update s.db.table x (some v')) ∧
      ∀ x, t.db.table x = none ↔ s.db.table x = none) ∧
    (∀ w t rows row todo report, LosesComparison s w rows row todo report →
      WorkerStep ((Sweep.new planner).withBatchSize (batchSizes w)) w s t →
      t.db = s.db ∧
      (t.workers w
          = some (.processing rows todo { report with conflicts := report.conflicts + 1 }) ∨
        (∃ error, t.workers w = some (.finished (.error (.store error)))) ∨ t.workers w = none) ∧
      ∀ u, Relation.ReflTransGen
          (Continues (fun w => (Sweep.new planner).withBatchSize (batchSizes w))
            (fun x v => v.columns = columnsOf x) w) t u →
        ∀ rows' row' replacement' state' todo' report',
          u.workers w = some (.updating rows' row' replacement' state' todo' report') →
            row.cursor < row'.cursor) ∧
    (∀ x, s.db.table x = none ↔ s.origin x = none) ∧
    (∀ x v, s.db.table x = some v → ∃ o, s.origin x = some o ∧
      Relation.ReflTransGen planner.PlanStep o v) := by
  have hInit : Holds (fun w => (Sweep.new planner).withBatchSize (batchSizes w))
      (fun x r => r = columnsOf x) (init table : System C R E W) := holds_init hTable
  have hPlanner : ∀ w, ((Sweep.new planner).withBatchSize (batchSizes w)).planner = planner :=
    fun _ => rfl
  obtain ⟨hHolds, hShared⟩ := shared_run hPlanner (fun _ _ h => h) hInit hRun
  have hTraced := (Traced.init table).run hShared
  refine ⟨fun w t hStep => ?_, fun w t rows row todo report hLost hStep => ?_, hTraced.absent,
    fun x v hStored => ?_⟩
  · have hChange := workerStep_table hHolds hStep
    refine ⟨hChange, fun x => ?_⟩
    rcases hChange with hSame | ⟨y, v, v', hOld, -, hNew⟩
    · rw [hSame]
    · rw [hNew, Function.update_apply]
      split
      · next hx => simp [hx, hOld]
      · rfl
  · obtain ⟨hDb, hNext⟩ := lost_step hLost hStep
    refine ⟨hDb, hNext,
      fun u hContinues rows' row' replacement' state' todo' report' hUpdating => ?_⟩
    obtain ⟨replacement, state, hState⟩ := hLost.waits
    have hBatch : Batch (fun x r => r = columnsOf x) rows (row :: todo) :=
      (hHolds.workers w _ hState).1
    have hBeyond : ∀ state, t.workers w = some state → state.Beyond row.cursor := by
      rcases hNext with hNext | ⟨error, hNext⟩ | hNext
      · rintro _ h
        cases hNext.symm.trans h
        exact hBatch.beyond _
      · rintro _ h
        cases hNext.symm.trans h
        trivial
      · rintro _ h
        cases hNext.symm.trans h
    exact (beyond_run hBeyond hContinues _ hUpdating).2 row' List.mem_cons_self
  · obtain ⟨o, hOrigin, hChain⟩ := hTraced.chain x v hStored
    exact ⟨o, hOrigin, PlannedRewrite.chain hChain (hHolds.table x v hStored)⟩

open Vectors in
/-- The worker that the writer overtakes changes nothing, and the row that the other seals
comes from the legacy row that was stored before it. -/
theorem no_lost_update_vector :
    (∀ t, WorkerStep (sweepers false) false raced t → t.db = raced.db) ∧
    ∃ o, swept.origin 9 = some o ∧ Relation.ReflTransGen planner.PlanStep o sealedRow := by
  have hLoses : LosesComparison raced false loaded (.ofEntry (7, legacyRow))
      [.ofEntry (9, legacyRow)] {} := ⟨⟨_, _, rfl⟩, raced_changed⟩
  obtain ⟨-, hLost, -, -⟩ := no_lost_update planner (fun _ => 2) (fun _ => ())
    (twoRows legacyRow legacyRow) (fun _ _ _ => rfl) (raced_run rfl)
  obtain ⟨-, -, -, hChain⟩ := no_lost_update planner (fun _ => 2) (fun _ => ())
    (twoRows legacyRow legacyRow) (fun _ _ _ => rfl) (sweep_run rfl)
  exact ⟨fun t hStep => (hLost false t _ _ _ _ hLoses hStep).1, hChain 9 sealedRow rfl⟩

end System

end Cryptbox

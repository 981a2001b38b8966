import Cryptbox.Migrate.Sweep

/-!
# Sweeps beside writers

The system a sweep runs in: one store, any number of workers in `Sweep::run` over it, and the
application's writers. Writers insert, replace and delete rows between any two calls of the
store. A worker may crash at any call and be started again, and a call may fail with or
without having taken effect. Which rows writers store is a parameter (`Allowed`), and so is
which columns a row may carry (`columns`).

The state remembers what a writer stored last under each cursor (`System.origin`), which no
transition reads.

* `WorkerStep.inversion`: what a step of a worker does, in terms of `Sweep.Moves`.
* `System.Holds.step`: a batch stays in order, and a replacement is the plan of its row.
* `System.shared_step`, `System.shared_run`: the system refines `Base.Shared`, whose rewrites
  are the plans.
-/

namespace Cryptbox

open Base

variable {prim : Primitives} {F : Seal} {R C E W : Type}

structure System (C R E W : Type) where
  db : Database C R
  workers : W → Option (RunState C R E)
  /-- What a writer stored last under a cursor, or the initial row. -/
  origin : C → Option (StoredRow R)

/-- No worker runs yet and no checkpoint was saved. -/
def System.init (table : C → Option (StoredRow R)) : System C R E W :=
  ⟨⟨table, none⟩, fun _ => none, table⟩

def System.shared (s : System C R E W) : Shared C (StoredRow R) := ⟨s.db.table, s.origin⟩

variable [LinearOrder C] [DecidableEq W]

/-- What a call that did not return may have done. -/
def Effect (call : Call C R) (before after : Database C R) : Prop :=
  after = before ∨ ∃ answer, Exec call before answer after

/-- The call a worker waits for in `state`, and what it does with the result. -/
def Sweep.Awaits (sweep : Sweep prim F R) (state : RunState C R E) (call : Call C R)
    (resume : Except E call.Answer → RunState C R E) : Prop :=
  ∃ draw, sweep.pollRun draw state = .pending call resume

/-- A writer of the application replaces a whole row. -/
inductive WriterStep (Allowed : C → StoredRow R → Prop) :
    System C R E W → System C R E W → Prop
  | put (s : System C R E W) (x : C) (v : StoredRow R) (hAllowed : Allowed x v) :
      WriterStep Allowed s
        ⟨⟨Function.update s.db.table x (some v), s.db.checkpoint⟩, s.workers,
          Function.update s.origin x (some v)⟩
  | erase (s : System C R E W) (x : C) :
      WriterStep Allowed s
        ⟨⟨Function.update s.db.table x none, s.db.checkpoint⟩, s.workers,
          Function.update s.origin x none⟩

/-- One step of worker `w`. -/
inductive WorkerStep (sweep : Sweep prim F R) (w : W) : System C R E W → System C R E W → Prop
  | start (s : System C R E W) (hIdle : s.workers w = none) :
      WorkerStep sweep w s
        ⟨s.db, Function.update s.workers w (some .loadingCheckpoint), s.origin⟩
  /-- It goes on by itself; `draw` is what the random source returned. -/
  | advance (s : System C R E W) (state next : RunState C R E) (draw : Option Nonce)
      (hState : s.workers w = some state) (hPoll : sweep.pollRun draw state = .running next) :
      WorkerStep sweep w s ⟨s.db, Function.update s.workers w (some next), s.origin⟩
  | call (s : System C R E W) (state : RunState C R E) (call : Call C R)
      (resume : Except E call.Answer → RunState C R E) (answer : call.Answer) (db : Database C R)
      (hState : s.workers w = some state) (hAwaits : sweep.Awaits state call resume)
      (hExec : Exec call s.db answer db) :
      WorkerStep sweep w s
        ⟨db, Function.update s.workers w (some (resume (.ok answer))), s.origin⟩
  /-- The store reports an error. -/
  | fail (s : System C R E W) (state : RunState C R E) (call : Call C R)
      (resume : Except E call.Answer → RunState C R E) (error : E) (db : Database C R)
      (hState : s.workers w = some state) (hAwaits : sweep.Awaits state call resume)
      (hEffect : Effect call s.db db) :
      WorkerStep sweep w s
        ⟨db, Function.update s.workers w (some (resume (.error error))), s.origin⟩
  /-- The worker is lost while it waits for a call. -/
  | crash (s : System C R E W) (state : RunState C R E) (call : Call C R)
      (resume : Except E call.Answer → RunState C R E) (db : Database C R)
      (hState : s.workers w = some state) (hAwaits : sweep.Awaits state call resume)
      (hEffect : Effect call s.db db) :
      WorkerStep sweep w s ⟨db, Function.update s.workers w none, s.origin⟩
  /-- The worker is lost anywhere else, or its result was taken. -/
  | stop (s : System C R E W) :
      WorkerStep sweep w s ⟨s.db, Function.update s.workers w none, s.origin⟩

/-- One step of anyone. -/
inductive System.Step (sweeps : W → Sweep prim F R) (Allowed : C → StoredRow R → Prop)
    (s t : System C R E W) : Prop
  | writer (h : WriterStep Allowed s t)
  | worker (w : W) (h : WorkerStep (sweeps w) w s t)

abbrev System.Run (sweeps : W → Sweep prim F R) (Allowed : C → StoredRow R → Prop) :
    System C R E W → System C R E W → Prop :=
  Relation.ReflTransGen (System.Step sweeps Allowed)

/-! ## What a step of a worker does -/

/-- What the call that a worker waits for may do to the store. -/
inductive RunState.Effects : RunState C R E → Database C R → Database C R → Prop
  | nothing (state : RunState C R E) (db : Database C R) : Effects state db db
  | update (db : Database C R) {rows : List (SweepRow C R)} {row : SweepRow C R}
      {replacement : RowWrite} {state : RowState} {todo : List (SweepRow C R)}
      {report : SweepReport} (v : StoredRow R) (hMatches : db.Matches row v) :
      Effects (.updating rows row replacement state todo report) db
        ⟨Function.update db.table row.cursor (some (replacement.apply v)), db.checkpoint⟩
  | save (db : Database C R) (cursor : C) (report : SweepReport) :
      Effects (.savingCheckpoint cursor report) db ⟨db.table, some cursor⟩

/-- How a worker goes on, and what happens to the store with it. -/
inductive Sweep.Moves (sweep : Sweep prim F R) :
    Database C R → RunState C R E → Database C R → RunState C R E → Prop
  | loadCheckpoint (db : Database C R) :
      Moves sweep db .loadingCheckpoint db (.loadingBatch db.checkpoint {})
  | loadBatch (db : Database C R) (after : Option C) (report : SweepReport)
      (rows : List (SweepRow C R))
      (hPage : Page db.table after sweep.batchSize (rows.map SweepRow.entry)) :
      Moves sweep db (.loadingBatch after report) db (.processing rows rows report)
  | finish (db : Database C R) (report : SweepReport) :
      Moves sweep db (.processing [] [] report) db (.finished (.ok report))
  | leave (db : Database C R) (rows : List (SweepRow C R)) (row : SweepRow C R)
      (report : SweepReport) (hLast : rows.getLast? = some row) :
      Moves sweep db (.processing rows [] report) db (.savingCheckpoint row.cursor report)
  | skip (db : Database C R) (rows : List (SweepRow C R)) (row : SweepRow C R)
      (todo : List (SweepRow C R)) (report : SweepReport) (state : RowState)
      (draw : Option Nonce)
      (hPlan : sweep.planner.planRow row.columns row.ciphertext row.indexes draw
        = .ok ⟨state, none⟩) :
      Moves sweep db (.processing rows (row :: todo) report) db
        (.processing rows todo (report.record state))
  | plan (db : Database C R) (rows : List (SweepRow C R)) (row : SweepRow C R)
      (todo : List (SweepRow C R)) (report : SweepReport) (state : RowState)
      (replacement : RowWrite) (draw : Option Nonce)
      (hPlan : sweep.planner.planRow row.columns row.ciphertext row.indexes draw
        = .ok ⟨state, some replacement⟩) :
      Moves sweep db (.processing rows (row :: todo) report) db
        (.updating rows row replacement state todo report)
  | update (db : Database C R) (rows : List (SweepRow C R)) (row : SweepRow C R)
      (replacement : RowWrite) (state : RowState) (todo : List (SweepRow C R))
      (report : SweepReport) (v : StoredRow R) (hMatches : db.Matches row v) :
      Moves sweep db (.updating rows row replacement state todo report)
        ⟨Function.update db.table row.cursor (some (replacement.apply v)), db.checkpoint⟩
        (.processing rows todo (report.record state))
  | lose (db : Database C R) (rows : List (SweepRow C R)) (row : SweepRow C R)
      (replacement : RowWrite) (state : RowState) (todo : List (SweepRow C R))
      (report : SweepReport) (hChanged : ∀ v, ¬ db.Matches row v) :
      Moves sweep db (.updating rows row replacement state todo report) db
        (.processing rows todo { report with conflicts := report.conflicts + 1 })
  | saveCheckpoint (db : Database C R) (cursor : C) (report : SweepReport) :
      Moves sweep db (.savingCheckpoint cursor report) ⟨db.table, some cursor⟩
        (.loadingBatch (some cursor) report)
  | fail (db db' : Database C R) (state : RunState C R E) (error : E)
      (hEffects : state.Effects db db') :
      Moves sweep db state db' (.finished (.error (.store error)))
  | reject (db : Database C R) (rows : List (SweepRow C R)) (row : SweepRow C R)
      (todo : List (SweepRow C R)) (report : SweepReport) (error : Error) :
      Moves sweep db (.processing rows (row :: todo) report) db (.finished (.error (.row error)))
  | panic (db : Database C R) (rows : List (SweepRow C R)) (row : SweepRow C R)
      (todo : List (SweepRow C R)) (report : SweepReport) :
      Moves sweep db (.processing rows (row :: todo) report) db .panicked

/-- The four calls of `run`, with what it does with their results. -/
inductive Sweep.Waits (sweep : Sweep prim F R) :
    RunState C R E → (call : Call C R) → (Except E call.Answer → RunState C R E) → Prop
  | loadCheckpoint : Waits sweep .loadingCheckpoint .loadCheckpoint
      (.onStore fun cursor => .loadingBatch cursor {})
  | loadBatch (after : Option C) (report : SweepReport) :
      Waits sweep (.loadingBatch after report) (.loadBatch after sweep.batchSize)
        (.onStore fun rows => .processing rows rows report)
  | update (rows : List (SweepRow C R)) (row : SweepRow C R) (replacement : RowWrite)
      (state : RowState) (todo : List (SweepRow C R)) (report : SweepReport) :
      Waits sweep (.updating rows row replacement state todo report) (.update row replacement)
        (.onStore fun updated => .processing rows todo
          (if updated then report.record state
          else { report with conflicts := report.conflicts + 1 }))
  | saveCheckpoint (cursor : C) (report : SweepReport) :
      Waits sweep (.savingCheckpoint cursor report) (.saveCheckpoint cursor)
        (.onStore fun _ => .loadingBatch (some cursor) report)

section

variable {sweep : Sweep prim F R} {state next : RunState C R E} {call : Call C R}
  {resume : Except E call.Answer → RunState C R E} {db db' : Database C R}

omit [LinearOrder C] in
theorem Sweep.Awaits.waits (h : sweep.Awaits state call resume) :
    sweep.Waits state call resume := by
  obtain ⟨draw, hPoll⟩ := h
  unfold Sweep.pollRun at hPoll
  split at hPoll
  · cases hPoll
    exact .loadCheckpoint
  · cases hPoll
    exact .loadBatch ..
  · split at hPoll <;> cases hPoll
  · cases hPoll
  · cases hPoll
    exact .update ..
  · cases hPoll
    exact .saveCheckpoint ..
  · cases hPoll
  · cases hPoll

theorem Effect.effects (h : Effect call db db') (hAwaits : sweep.Awaits state call resume) :
    state.Effects db db' := by
  rcases h with rfl | ⟨answer, hExec⟩
  · exact .nothing ..
  · cases hAwaits.waits with
    | loadCheckpoint =>
      cases hExec
      exact .nothing ..
    | loadBatch =>
      cases hExec
      exact .nothing ..
    | update =>
      cases hExec with
      | updated _ _ _ v hMatches => exact .update _ v hMatches
      | lost => exact .nothing ..
    | saveCheckpoint =>
      cases hExec
      exact .save ..

/-- What a worker does with an answer. -/
theorem Exec.moves {answer : call.Answer} (h : Exec call db answer db')
    (hAwaits : sweep.Awaits state call resume) :
    sweep.Moves db state db' (resume (.ok answer)) := by
  cases hAwaits.waits with
  | loadCheckpoint =>
    cases h
    exact .loadCheckpoint _
  | loadBatch =>
    cases h with
    | loadBatch _ _ _ _ hPage => exact .loadBatch _ _ _ _ hPage
  | update =>
    cases h with
    | updated _ _ _ v hMatches => exact .update _ _ _ _ _ _ _ v hMatches
    | lost _ _ _ hChanged => exact .lose _ _ _ _ _ _ _ hChanged
  | saveCheckpoint =>
    cases h
    exact .saveCheckpoint ..

/-- What a worker does when the store reports an error. -/
theorem Effect.moves (h : Effect call db db') (hAwaits : sweep.Awaits state call resume)
    (error : E) : sweep.Moves db state db' (resume (.error error)) := by
  have hFail : resume (.error error) = .finished (.error (.store error)) := by
    cases hAwaits.waits <;> rfl
  rw [hFail]
  exact .fail _ _ _ _ (h.effects hAwaits)

omit [LinearOrder C] in
theorem Sweep.processRow_skip {sweep : Sweep prim F R} {draw : Option Nonce}
    {rows todo : List (SweepRow C R)} {row : SweepRow C R} {report : SweepReport} {state : RowState}
    (hPlan : sweep.planner.planRow row.columns row.ciphertext row.indexes draw
      = .ok ⟨state, none⟩) :
    sweep.processRow draw rows row todo report
      = (.processing rows todo (report.record state) : RunState C R E) := by
  unfold processRow
  rw [hPlan]

omit [LinearOrder C] in
theorem Sweep.processRow_write {draw : Option Nonce} {rows todo : List (SweepRow C R)}
    {row : SweepRow C R} {report : SweepReport} {state : RowState} {replacement : RowWrite}
    (hPlan : sweep.planner.planRow row.columns row.ciphertext row.indexes draw
      = .ok ⟨state, some replacement⟩) :
    sweep.processRow draw rows row todo report
      = (.updating rows row replacement state todo report : RunState C R E) := by
  unfold processRow
  rw [hPlan]

/-- What a worker does between two calls. -/
theorem Sweep.moves_of_running {draw : Option Nonce}
    (hPoll : sweep.pollRun draw state = .running next) (db : Database C R) :
    sweep.Moves db state db next := by
  unfold Sweep.pollRun at hPoll
  split at hPoll
  · cases hPoll
  · cases hPoll
  · next rows report =>
    split at hPoll
    · next hLast =>
      cases hPoll
      rw [List.getLast?_eq_none_iff.mp hLast]
      exact .finish ..
    · next row hLast =>
      cases hPoll
      exact .leave _ _ _ _ hLast
  · next rows row todo report =>
    cases hPoll
    unfold Sweep.processRow
    split
    · exact .reject ..
    · exact .panic ..
    · next hPlan => exact .skip _ _ _ _ _ _ draw hPlan
    · next hPlan => exact .plan _ _ _ _ _ _ _ draw hPlan
  · cases hPoll
  · cases hPoll
  · cases hPoll
  · cases hPoll

end

/-- **What a step of a worker does**: it starts, it moves on, or it is lost. -/
theorem WorkerStep.inversion {sweep : Sweep prim F R} {w : W} {s t : System C R E W}
    (h : WorkerStep sweep w s t) :
    t.origin = s.origin ∧ ∃ next, t.workers = Function.update s.workers w next ∧
      ((s.workers w = none ∧ t.db = s.db ∧ next = some .loadingCheckpoint) ∨
        (next = none ∧ (t.db = s.db ∨
          ∃ state, s.workers w = some state ∧ state.Effects s.db t.db)) ∨
        ∃ state state', s.workers w = some state ∧ next = some state' ∧
          sweep.Moves s.db state t.db state') := by
  cases h with
  | start hIdle => exact ⟨rfl, _, rfl, Or.inl ⟨hIdle, rfl, rfl⟩⟩
  | advance state next draw hState hPoll =>
    exact ⟨rfl, _, rfl, Or.inr (Or.inr ⟨state, next, hState, rfl,
      Sweep.moves_of_running hPoll s.db⟩)⟩
  | call state call resume answer db hState hAwaits hExec =>
    exact ⟨rfl, _, rfl, Or.inr (Or.inr ⟨state, _, hState, rfl, hExec.moves hAwaits⟩)⟩
  | fail state call resume error db hState hAwaits hEffect =>
    exact ⟨rfl, _, rfl, Or.inr (Or.inr ⟨state, _, hState, rfl, hEffect.moves hAwaits error⟩)⟩
  | crash state call resume db hState hAwaits hEffect =>
    exact ⟨rfl, _, rfl, Or.inr (Or.inl ⟨rfl, Or.inr ⟨state, hState, hEffect.effects hAwaits⟩⟩)⟩
  | stop => exact ⟨rfl, _, rfl, Or.inr (Or.inl ⟨rfl, Or.inl rfl⟩)⟩

/-- What holds of the workers after a step of one of them: of the others what held before, and
of that one what holds at its start and wherever it moves on. -/
theorem WorkerStep.forall_workers {sweep : Sweep prim F R} {w : W} {s t : System C R E W}
    (h : WorkerStep sweep w s t) {P : W → RunState C R E → Prop}
    (hOthers : ∀ w' state, s.workers w' = some state → P w' state)
    (hStart : P w .loadingCheckpoint)
    (hMoves : ∀ state state', s.workers w = some state → sweep.Moves s.db state t.db state' →
      P w state') :
    ∀ w' state, t.workers w' = some state → P w' state := by
  obtain ⟨-, next, hWorkers, hNext⟩ := h.inversion
  rw [hWorkers]
  apply forall_update hOthers
  rintro state rfl
  rcases hNext with ⟨-, -, hSome⟩ | ⟨hNone, -⟩ | ⟨before, after, hState, hSome, hStep⟩
  · cases hSome
    exact hStart
  · cases hNone
  · cases hSome
    exact hMoves before state hState hStep

/-! ## What a worker holds -/

/-- What a plan puts in the place of a row, read with columns that the row may carry. -/
def PlannedRewrite (planner : RowPlanner prim F R) (columns : C → R → Prop) (x : C)
    (v v' : StoredRow R) : Prop :=
  ∃ read draw state write, columns x read ∧
    planner.planRow read v.ciphertext v.indexes draw = .ok ⟨state, some write⟩ ∧
    v' = write.apply v

/-- The rows of a batch are in order, and those `todo` are its last ones. -/
structure Batch (columns : C → R → Prop) (rows todo : List (SweepRow C R)) : Prop where
  ascending : Ascending (rows.map SweepRow.entry)
  suffix : todo <:+ rows
  columns : ∀ row ∈ rows, columns row.cursor row.columns

/-- What holds of a worker by itself: its batch is one, and the replacement it waits for is
the plan of its row. -/
def Sweep.Holds (sweep : Sweep prim F R) (columns : C → R → Prop) : RunState C R E → Prop
  | .processing rows todo _ => Batch columns rows todo
  | .updating rows row replacement state todo _ => Batch columns rows (row :: todo) ∧
      ∃ draw, sweep.planner.planRow row.columns row.ciphertext row.indexes draw
        = .ok ⟨state, some replacement⟩
  | _ => True

/-- What holds of the system: rows carry columns they may carry, and so do workers. -/
structure System.Holds (sweeps : W → Sweep prim F R) (columns : C → R → Prop)
    (s : System C R E W) : Prop where
  table : ∀ x v, s.db.table x = some v → columns x v.columns
  workers : ∀ w state, s.workers w = some state → (sweeps w).Holds columns state

section

variable {sweep : Sweep prim F R} {columns : C → R → Prop} {state next : RunState C R E}
  {db db' : Database C R}

theorem Batch.rest {rows todo : List (SweepRow C R)} {row : SweepRow C R}
    (h : Batch columns rows (row :: todo)) : Batch columns rows todo :=
  ⟨h.ascending, (List.suffix_cons row todo).trans h.suffix, h.columns⟩

theorem Batch.head_columns {rows todo : List (SweepRow C R)} {row : SweepRow C R}
    (h : Batch columns rows (row :: todo)) : columns row.cursor row.columns :=
  h.columns row (h.suffix.subset List.mem_cons_self)

/-- A worker's batch stays in order, whatever it does. -/
theorem Sweep.Holds.moves (h : sweep.Holds columns state)
    (hTable : ∀ x v, db.table x = some v → columns x v.columns)
    (hMoves : sweep.Moves db state db' next) : sweep.Holds columns next := by
  cases hMoves with
  | loadBatch after report rows hPage =>
    refine ⟨hPage.ascending, List.suffix_rfl, fun row hRow => ?_⟩
    exact hTable _ _ (hPage.stored row.entry (List.mem_map_of_mem hRow)).1
  | skip rows row todo report state draw hPlan => exact h.rest
  | plan rows row todo report state replacement draw hPlan => exact ⟨h, draw, hPlan⟩
  | update rows row replacement state todo report v hMatches => exact h.1.rest
  | lose rows row replacement state todo report hChanged => exact h.1.rest
  | loadCheckpoint => trivial
  | finish => trivial
  | leave => trivial
  | saveCheckpoint => trivial
  | fail => trivial
  | reject => trivial
  | panic => trivial

/-- A rewrite keeps a row's columns. -/
theorem RunState.Effects.keeps_columns (h : state.Effects db db')
    (hTable : ∀ x v, db.table x = some v → columns x v.columns) :
    ∀ x v, db'.table x = some v → columns x v.columns := by
  cases h with
  | nothing => exact hTable
  | update _ v hMatches =>
    apply forall_update hTable
    rintro _ ⟨⟩
    exact hTable _ v hMatches.1
  | save => exact hTable

/-- What a worker does to the rows: nothing, or a planned rewrite of one. -/
theorem RunState.Effects.table (h : state.Effects db db') (hHolds : sweep.Holds columns state) :
    db'.table = db.table ∨ ∃ x v v', db.table x = some v ∧
      PlannedRewrite sweep.planner columns x v v' ∧
      db'.table = Function.update db.table x (some v') := by
  cases h with
  | nothing => exact Or.inl rfl
  | @update _ rows row replacement state todo report v hMatches =>
    obtain ⟨hBatch, draw, hPlan⟩ := hHolds
    obtain ⟨hStored, hCiphertext, hIndexes⟩ := hMatches
    refine Or.inr ⟨row.cursor, v, replacement.apply v, hStored, ?_, rfl⟩
    exact ⟨row.columns, draw, state, replacement, hBatch.head_columns,
      hCiphertext ▸ hIndexes ▸ hPlan, rfl⟩
  | save => exact Or.inl rfl

theorem Sweep.Moves.effects (h : sweep.Moves db state db' next) : state.Effects db db' := by
  cases h with
  | update _ _ _ _ _ _ v hMatches => exact .update _ v hMatches
  | saveCheckpoint => exact .save ..
  | fail _ _ _ hEffects => exact hEffects
  | loadCheckpoint => exact .nothing ..
  | loadBatch => exact .nothing ..
  | finish => exact .nothing ..
  | leave => exact .nothing ..
  | skip => exact .nothing ..
  | plan => exact .nothing ..
  | lose => exact .nothing ..
  | reject => exact .nothing ..
  | panic => exact .nothing ..

end

namespace System

variable {sweeps : W → Sweep prim F R} {columns : C → R → Prop} {Allowed : C → StoredRow R → Prop}
  {s t : System C R E W}

/-- A step of a worker does to the store what its call may do. -/
theorem effects_of_workerStep {w : W} (h : WorkerStep (sweeps w) w s t) :
    t.db = s.db ∨ ∃ state, s.workers w = some state ∧ state.Effects s.db t.db := by
  obtain ⟨-, next, -, ⟨-, hDb, -⟩ | ⟨-, hEffects⟩ | ⟨state, state', hState, -, hMoves⟩⟩ :=
    h.inversion
  · exact Or.inl hDb
  · exact hEffects
  · exact Or.inr ⟨state, hState, hMoves.effects⟩

omit [DecidableEq W] in
theorem holds_init {table : C → Option (StoredRow R)}
    (hTable : ∀ x v, table x = some v → columns x v.columns) :
    Holds sweeps columns (init table : System C R E W) :=
  ⟨hTable, fun _ _ h => nomatch h⟩

theorem Holds.workerStep {w : W} (h : Holds sweeps columns s)
    (hStep : WorkerStep (sweeps w) w s t) : Holds sweeps columns t := by
  refine ⟨?_, hStep.forall_workers h.workers trivial fun state state' hState hMoves => ?_⟩
  · rcases effects_of_workerStep hStep with hDb | ⟨state, hState, hEffects⟩
    · rw [hDb]
      exact h.table
    · exact hEffects.keeps_columns h.table
  · exact (h.workers w state hState).moves h.table hMoves

omit [DecidableEq W] in
theorem Holds.writerStep (hAllowed : ∀ x v, Allowed x v → columns x v.columns)
    (h : Holds sweeps columns s) (hStep : WriterStep Allowed s t) : Holds sweeps columns t := by
  cases hStep with
  | put x v hv =>
    refine ⟨forall_update h.table ?_, h.workers⟩
    rintro _ ⟨⟩
    exact hAllowed x v hv
  | erase x =>
    refine ⟨forall_update h.table ?_, h.workers⟩
    rintro _ ⟨⟩

theorem Holds.step (hAllowed : ∀ x v, Allowed x v → columns x v.columns)
    (h : Holds sweeps columns s) (hStep : Step sweeps Allowed s t) : Holds sweeps columns t := by
  cases hStep with
  | writer hWriter => exact h.writerStep hAllowed hWriter
  | worker w hWorker => exact h.workerStep hWorker

/-! ## The abstract store -/

/-- Writers store what is allowed, and plans rewrite rows. -/
def rules (planner : RowPlanner prim F R) (columns : C → R → Prop)
    (Allowed : C → StoredRow R → Prop) : RewriteRules C (StoredRow R) :=
  ⟨Allowed, PlannedRewrite planner columns⟩

variable {planner : RowPlanner prim F R}

/-- **The system refines the abstract store**: a step is one step there, or none. -/
theorem shared_step (hPlanner : ∀ w, (sweeps w).planner = planner) (h : Holds sweeps columns s)
    (hStep : Step sweeps Allowed s t) :
    t.shared = s.shared ∨ (rules planner columns Allowed).Step s.shared t.shared := by
  cases hStep with
  | writer hWriter =>
    cases hWriter with
    | put x v hAllowed => exact Or.inr (.put _ x v hAllowed)
    | erase x => exact Or.inr (.erase _ x)
  | worker w hWorker =>
    have hOrigin : t.origin = s.origin := hWorker.inversion.1
    unfold shared
    rw [hOrigin]
    rcases effects_of_workerStep hWorker with hDb | ⟨state, hState, hEffects⟩
    · rw [hDb]
      exact Or.inl rfl
    · rcases hEffects.table (h.workers w state hState) with hTable | ⟨x, v, v', hOld, hPlan, hTable⟩
      · rw [hTable]
        exact Or.inl rfl
      · rw [hTable]
        exact Or.inr (.rewrite ⟨s.db.table, s.origin⟩ x v v' hOld (hPlanner w ▸ hPlan))

/-- **Runs of the system are runs of the abstract store.** -/
theorem shared_run (hPlanner : ∀ w, (sweeps w).planner = planner)
    (hAllowed : ∀ x v, Allowed x v → columns x v.columns) (h : Holds sweeps columns s)
    (hRun : Run sweeps Allowed s t) :
    Holds sweeps columns t ∧ (rules planner columns Allowed).Run s.shared t.shared := by
  induction hRun with
  | refl => exact ⟨h, .refl⟩
  | tail _ hLast ih =>
    obtain ⟨hHolds, hShared⟩ := ih
    refine ⟨hHolds.step hAllowed hLast, ?_⟩
    rcases shared_step hPlanner hHolds hLast with hSame | hStep
    · rw [hSame]
      exact hShared
    · exact hShared.tail hStep

end System

/-! ## A run

Two workers and a writer over two legacy rows. The writer takes the first row after a worker
has loaded it, so that its update is lost; the second worker crashes. -/

namespace Vectors

/-- Sweeps with batches of one row. -/
def sweeps (_ : Unit) : Sweep Vectors.prim vectorSeal Unit := (Sweep.new planner).withBatchSize 0

/-- Two workers, with batches of two rows. -/
def sweepers (_ : Bool) : Sweep Vectors.prim vectorSeal Unit :=
  (Sweep.new planner).withBatchSize 2

/-- One row under the cursor 7 and one under 9. -/
def twoRows (seven nine : StoredRow Unit) : Nat → Option (StoredRow Unit) :=
  tableOf [(7, seven), (9, nine)]

theorem twoRows_apply (seven nine : StoredRow Unit) (x : Nat) :
    twoRows seven nine x = if x = 7 then some seven else if x = 9 then some nine else none := by
  unfold twoRows
  rw [tableOf_cons, tableOf_cons, Function.update_apply, Function.update_apply]
  rfl

theorem twoRows_cases {seven nine v : StoredRow Unit} {x : Nat}
    (hStored : twoRows seven nine x = some v) : v = seven ∨ v = nine := by
  rw [twoRows_apply] at hStored
  split at hStored
  · exact Or.inl (Option.some.inj hStored).symm
  · split at hStored
    · exact Or.inr (Option.some.inj hStored).symm
    · cases hStored

theorem update_seven (seven nine v : StoredRow Unit) :
    Function.update (twoRows seven nine) 7 (some v) = twoRows v nine := by
  funext x
  rw [Function.update_apply, twoRows_apply, twoRows_apply]
  split <;> rfl

theorem update_nine (seven nine v : StoredRow Unit) :
    Function.update (twoRows seven nine) 9 (some v) = twoRows seven v := by
  funext x
  rw [Function.update_apply, twoRows_apply, twoRows_apply]
  split
  · next hx => simp [hx]
  · rfl

theorem twoRows_page (seven nine : StoredRow Unit) (after : Option Nat) :
    Page (twoRows seven nine) after 2 (remaining [(7, seven), (9, nine)] after) := by
  have hAscending : Ascending [(7, seven), (9, nine)] := by simp
  have hShort : (remaining [(7, seven), (9, nine)] after).length ≤ 2 := List.length_filter_le ..
  have hPage := hAscending.enumerates.page_take after 2
  rwa [List.take_of_length_le hShort] at hPage

/-- Where the two workers stand. -/
def both (first second : Option (RunState Nat Unit Empty)) (w : Bool) :
    Option (RunState Nat Unit Empty) :=
  bif w then second else first

theorem both_first (first second changed : Option (RunState Nat Unit Empty)) :
    Function.update (both first second) false changed = both changed second := by
  funext w
  cases w <;> rfl

theorem both_second (first second changed : Option (RunState Nat Unit Empty)) :
    Function.update (both first second) true changed = both first changed := by
  funext w
  cases w <;> rfl

variable {Allowed : Nat → StoredRow Unit → Prop}
  {table table' origin : Nat → Option (StoredRow Unit)} {checkpoint checkpoint' : Option Nat}
  {workers workers' : Bool → Option (RunState Nat Unit Empty)}
  {state next : RunState Nat Unit Empty} {w : Bool}

theorem step_start (hIdle : workers w = none)
    (hWorkers : Function.update workers w (some .loadingCheckpoint) = workers') :
    System.Step sweepers Allowed ⟨⟨table, checkpoint⟩, workers, origin⟩
      ⟨⟨table, checkpoint⟩, workers', origin⟩ := by
  rw [← hWorkers]
  exact .worker w (.start _ hIdle)

theorem step_advance (draw : Option Nonce) (hState : workers w = some state)
    (hPoll : (sweepers w).pollRun draw state = .running next)
    (hWorkers : Function.update workers w (some next) = workers') :
    System.Step sweepers Allowed ⟨⟨table, checkpoint⟩, workers, origin⟩
      ⟨⟨table, checkpoint⟩, workers', origin⟩ := by
  rw [← hWorkers]
  exact .worker w (.advance _ state next draw hState hPoll)

theorem step_call {call : Call Nat Unit}
    {resume : Except Empty call.Answer → RunState Nat Unit Empty} {answer : call.Answer}
    (hState : workers w = some state) (hAwaits : (sweepers w).Awaits state call resume)
    (hExec : Exec call ⟨table, checkpoint⟩ answer ⟨table', checkpoint'⟩)
    (hWorkers : Function.update workers w (some (resume (.ok answer))) = workers') :
    System.Step sweepers Allowed ⟨⟨table, checkpoint⟩, workers, origin⟩
      ⟨⟨table', checkpoint'⟩, workers', origin⟩ := by
  rw [← hWorkers]
  exact .worker w (.call _ state call resume answer _ hState hAwaits hExec)

/-- What the first worker loads. -/
def loaded : List (SweepRow Nat Unit) := [.ofEntry (7, legacyRow), .ofEntry (9, legacyRow)]

/-- What the second worker loads, after the writer. -/
def reloaded : List (SweepRow Nat Unit) := [.ofEntry (7, sealedRow), .ofEntry (9, legacyRow)]

/-- A worker that waits for the update of a row of legacy bytes. -/
def replacing (rows : List (SweepRow Nat Unit)) (cursor : Nat) (todo : List (SweepRow Nat Unit))
    (report : SweepReport) : RunState Nat Unit Empty :=
  .updating rows (.ofEntry (cursor, legacyRow)) ⟨envelope, [index]⟩ .legacy todo report

theorem replacing_poll (rows : List (SweepRow Nat Unit)) (cursor : Nat)
    (todo : List (SweepRow Nat Unit)) (report : SweepReport) :
    (sweepers w).pollRun (some nonce)
        (.processing rows (.ofEntry (cursor, legacyRow) :: todo) report)
      = .running (replacing rows cursor todo report) :=
  congrArg Poll.running (Sweep.processRow_write (planRow_plaintext []))

/-- The writer has sealed the row under 7, and the first worker is about to replace it. -/
def raced : System Nat Unit Empty Bool :=
  ⟨⟨twoRows sealedRow legacyRow, none⟩,
    both (some (replacing loaded 7 [.ofEntry (9, legacyRow)] {})) none,
    twoRows sealedRow legacyRow⟩

/-- The first worker has returned. The second, which loaded the rows in between, is about to
replace the row under 9. -/
def swept : System Nat Unit Empty Bool :=
  ⟨⟨twoRows sealedRow sealedRow, some 9⟩,
    both (some (.finished (.ok { legacy := 1, conflicts := 1 })))
      (some (replacing reloaded 9 [] { current := 1 })),
    twoRows sealedRow legacyRow⟩

/-- The writer comes between the load and the update. -/
theorem raced_run (hAllowed : Allowed 7 sealedRow) :
    System.Run sweepers Allowed (System.init (twoRows legacyRow legacyRow)) raced := by
  have hStart : System.Step sweepers Allowed (System.init (twoRows legacyRow legacyRow))
      ⟨⟨twoRows legacyRow legacyRow, none⟩, both (some .loadingCheckpoint) none,
        twoRows legacyRow legacyRow⟩ := by
    refine step_start (w := false) rfl ?_
    funext w
    cases w <;> rfl
  have hBatch : Exec (.loadBatch none 2) ⟨twoRows legacyRow legacyRow, none⟩ loaded
      ⟨twoRows legacyRow legacyRow, none⟩ :=
    .loadBatch _ none 2 _ (twoRows_page legacyRow legacyRow none)
  have hPut (workers : Bool → Option (RunState Nat Unit Empty)) : System.Step sweepers Allowed
      ⟨⟨twoRows legacyRow legacyRow, none⟩, workers, twoRows legacyRow legacyRow⟩
      ⟨⟨twoRows sealedRow legacyRow, none⟩, workers, twoRows sealedRow legacyRow⟩ := by
    rw [← update_seven legacyRow legacyRow sealedRow]
    exact .writer (.put _ 7 sealedRow hAllowed)
  exact Relation.ReflTransGen.refl.tail hStart
    |>.tail (step_call rfl ⟨none, rfl⟩ (.loadCheckpoint _) (both_first ..))
    |>.tail (step_call rfl ⟨none, rfl⟩ hBatch (both_first ..))
    |>.tail (hPut _)
    |>.tail (step_advance (some nonce) rfl (replacing_poll ..) (both_first ..))

/-- The bytes the first worker planned from are no longer there. -/
theorem raced_changed (v : StoredRow Unit) :
    ¬ raced.db.Matches (.ofEntry (7, legacyRow)) v := by
  rintro ⟨hStored, hCiphertext, -⟩
  cases hStored
  revert hCiphertext
  decide +kernel

/-- Both workers and the writer: the first worker loses the row under 7 and seals the other. -/
theorem sweep_run (hAllowed : Allowed 7 sealedRow) :
    System.Run sweepers Allowed (System.init (twoRows legacyRow legacyRow)) swept := by
  have hLost : Exec (.update (.ofEntry (7, legacyRow)) ⟨envelope, [index]⟩)
      ⟨twoRows sealedRow legacyRow, none⟩ false ⟨twoRows sealedRow legacyRow, none⟩ :=
    .lost _ _ _ raced_changed
  have hBatch : Exec (.loadBatch none 2) ⟨twoRows sealedRow legacyRow, none⟩ reloaded
      ⟨twoRows sealedRow legacyRow, none⟩ :=
    .loadBatch _ none 2 _ (twoRows_page sealedRow legacyRow none)
  have hCurrent : (sweepers true).planner.planRow () envelope [index] none
      = .ok ⟨.current, none⟩ :=
    RowPlanner.planRow_current (RowPlanner.classifyRow_write (planRow_plaintext []) rfl ()) none
  have hSkip : (sweepers true).pollRun none (.processing reloaded reloaded {})
      = Poll.running (C := Nat) (E := Empty)
        (.processing reloaded [.ofEntry (9, legacyRow)] (SweepReport.record {} .current)) :=
    congrArg Poll.running (Sweep.processRow_skip hCurrent)
  have hUpdate : Exec (.update (.ofEntry (9, legacyRow)) ⟨envelope, [index]⟩)
      ⟨twoRows sealedRow legacyRow, none⟩ true ⟨twoRows sealedRow sealedRow, none⟩ := by
    rw [← update_nine sealedRow legacyRow sealedRow]
    exact .updated _ _ _ legacyRow ⟨rfl, rfl, rfl⟩
  have hEnd : Exec (.loadBatch (some 9) 2) ⟨twoRows sealedRow sealedRow, some 9⟩ []
      ⟨twoRows sealedRow sealedRow, some 9⟩ :=
    .loadBatch _ (some 9) 2 _ (twoRows_page sealedRow sealedRow (some 9))
  exact (raced_run hAllowed)
    |>.tail (step_call rfl ⟨none, rfl⟩ hLost (both_first ..))
    |>.tail (step_start rfl (both_second ..))
    |>.tail (step_call rfl ⟨none, rfl⟩ (.loadCheckpoint _) (both_second ..))
    |>.tail (step_call rfl ⟨none, rfl⟩ hBatch (both_second ..))
    |>.tail (step_advance none rfl hSkip (both_second ..))
    |>.tail (step_advance (some nonce) rfl (replacing_poll ..) (both_second ..))
    |>.tail (step_advance (some nonce) rfl (replacing_poll ..) (both_first ..))
    |>.tail (step_call rfl ⟨none, rfl⟩ hUpdate (both_first ..))
    |>.tail (step_advance none rfl rfl (both_first ..))
    |>.tail (step_call rfl ⟨none, rfl⟩ (.saveCheckpoint _ 9) (both_first ..))
    |>.tail (step_call rfl ⟨none, rfl⟩ hEnd (both_first ..))
    |>.tail (step_advance none rfl rfl (both_first ..))

end Vectors

end Cryptbox

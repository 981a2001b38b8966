import Cryptbox.Migrate.Progress

/-!
# Checkpoints of different columns

Two sweeps with the default progress table share a checkpoint when their columns have the same
dotted name. Then each resumes after rows that the other passed.

* `Deployment.reads_step`: a sweep reads what it saved last, as long as its name is its own.
* `Deployment.checkpoints_apart`: which columns may be swept side by side;
  `checkpoints_mix` are two that may not.
-/

namespace Cryptbox

open Base

variable {prim : Primitives} {D E W : Type} [DecidableEq W]

namespace Deployment

variable {d : Deployment prim D W} {w : W} {s t : SharedSweeps D E W}

/-! ## Checkpoints of different columns -/

omit [DecidableEq W] in
theorem table_migrationName (d : Deployment prim D W) (w w' : W) :
    (d.table w).migrationName = (d.table w').migrationName ↔ d.columns w = d.columns w' ∨
      SweepTable.Splits (d.columns w) (d.columns w') ∨
      SweepTable.Splits (d.columns w') (d.columns w) := by
  unfold table
  rw [SweepTable.foldl_withIndexColumn, SweepTable.foldl_withIndexColumn]
  exact SweepTable.migrationName_new _ _ (d.cursorColumns w) (d.cursorColumns w')

/-- The sweep reads no cursor but the one it saved last, and loads no batch after any other. -/
structure ReadsOwn (d : Deployment prim D W) (w : W) (s : SharedSweeps D E W) : Prop where
  checkpoint : ∀ answer db, d.Exec w .loadCheckpoint s.db answer db →
    answer = none ∨ answer = s.saved w
  batch : ∀ after report, s.workers w = some (.loadingBatch after report) →
    after = none ∨ after = s.saved w

/-- A batch is loaded after the checkpoint that was just read or written. -/
theorem checkpoint_of_moves {F : Seal} {sweep : Sweep prim F Unit} {db db' : Database Int Unit}
    {state : RunState Int Unit E} {after : Option Int} {report : SweepReport}
    (h : sweep.Moves db state db' (.loadingBatch after report)) : after = db'.checkpoint := by
  cases h with
  | loadCheckpoint => rfl
  | saveCheckpoint => rfl

omit [DecidableEq W] in
theorem Owns.answer {answer : Option Int} {db db' : SqlDatabase D} {saved : W → Option Int}
    (h : d.Owns w db saved) (hExec : d.Exec w .loadCheckpoint db answer db') :
    answer = none ∨ answer = saved w := by
  cases hExec with
  | loadCheckpoint _ _ hSql =>
    obtain ⟨rfl, -⟩ := hSql.of_loadCheckpoint
    generalize hAnswer : db.progress (d.table w).progressTable _ = answer
    cases answer with
    | none => exact Or.inl rfl
    | some cursor => exact Or.inr (h cursor hAnswer).symm

/-- One step, of the sweep or of others. -/
theorem reads_step (hNames : ∀ w', w ≠ w' → (d.table w).migrationName ≠ (d.table w').migrationName)
    {actor : Option W} (hStep : d.Step actor s t)
    (h : d.Owns w s.db s.saved ∧ d.ReadsOwn w s) : d.Owns w t.db t.saved ∧ d.ReadsOwn w t := by
  obtain ⟨hOwns, hReads⟩ := h
  by_cases hActor : actor = some w
  · subst hActor
    have hOwns' := hOwns.own hStep
    refine ⟨hOwns', fun answer db hExec => hOwns'.answer hExec, fun after report hWorker => ?_⟩
    obtain ⟨-, next, hWorkers, hNext⟩ := hStep.solo.inversion
    have hSelf : t.workers w = next := by
      have hUnit := congrFun hWorkers ()
      rwa [Function.update_self] at hUnit
    rw [hSelf] at hWorker
    subst hWorker
    rcases hNext with ⟨-, -, hStart⟩ | ⟨hLost, -⟩ | ⟨state, state', -, hSome, hMoves⟩
    · cases hStart
    · cases hLost
    · cases hSome
      rw [checkpoint_of_moves hMoves]
      cases hCheckpoint : (d.view w t).checkpoint with
      | none => exact Or.inl hCheckpoint
      | some cursor => exact Or.inr (hCheckpoint.trans (hOwns' cursor hCheckpoint).symm)
  · obtain ⟨hWorker, hSaved, hCheckpoint⟩ := hStep.frame hActor hNames
    have hOwns' : d.Owns w t.db t.saved := by
      intro cursor hCursor
      rw [hSaved]
      rcases hCheckpoint with hSame | hNone
      · exact hOwns cursor (hSame ▸ hCursor)
      · cases hNone.symm.trans hCursor
    refine ⟨hOwns', fun answer db hExec => hOwns'.answer hExec, fun after report hBatch => ?_⟩
    rw [hSaved]
    exact hReads.batch after report (hWorker ▸ hBatch)

/-! ## Rows of different columns -/

/-- What is known of a sweep by itself: its worker is at work on its own rows, and the rows up to
its checkpoint are current. -/
structure Sound (d : Deployment prim D W) (w : W) (s : SharedSweeps D E W) : Prop where
  rows : System.Sound (d.sweeps w).planner (d.solo w s)
  worker : System.Holds (fun _ => d.sweeps w) (fun _ _ => True) (d.solo w s)

/-- The rows that a sweep sees stay as they are or become current. -/
def Improves (d : Deployment prim D W) (w : W) (s t : SharedSweeps D E W) : Prop :=
  Base.Improves (fun _ => (d.sweeps w).planner.IsCurrent) (d.view w s).table (d.view w t).table

omit [DecidableEq W] in
theorem sound_init (d : Deployment prim D W) (w : W) (data : D) :
    d.Sound w (.init data : SharedSweeps D E W) := by
  refine ⟨⟨fun x hx => absurd (after_none x) hx, ?_⟩, ⟨fun _ _ _ => trivial, ?_⟩⟩
  · intro _ _ hWorker
    cases hWorker
  · intro _ _ hWorker
    cases hWorker

theorem Sound.step (hNames : ∀ w', w ≠ w' → (d.table w).migrationName ≠ (d.table w').migrationName)
    {actor : Option W} (hStep : d.Step actor s t) (hOthers : actor ≠ some w → d.Improves w s t)
    (h : d.Sound w s) : d.Sound w t := by
  by_cases hActor : actor = some w
  · subst hActor
    have hWorker : System.Step (fun _ => d.sweeps w) (fun _ => (d.sweeps w).planner.IsCurrent)
        (d.solo w s) (d.solo w t) := .worker () hStep.solo
    exact ⟨h.rows.step (fun _ => rfl) h.worker hWorker,
      h.worker.step (fun _ _ _ => trivial) hWorker⟩
  · obtain ⟨hWorker, -, hCheckpoint⟩ := hStep.frame hActor hNames
    have hImproves := hOthers hActor
    refine ⟨⟨fun x hx => ?_, fun u state hState => ?_⟩,
      ⟨fun _ _ _ => trivial, fun u state hState => ?_⟩⟩
    · rcases hCheckpoint with hSame | hNone
      · exact hImproves.clean (h.rows.db x (hSame ▸ hx))
      · exact absurd (hNone ▸ after_none x) hx
    · exact (h.rows.workers u state (hWorker.symm.trans hState)).mono hImproves
    · exact h.worker.workers u state (hWorker.symm.trans hState)

/-! ## A run over one of the columns -/

end Deployment

namespace Vectors

/-- The rows of every column. -/
abbrev ColumnRows : Type := String × String → Int → Option (StoredRow Unit)

/-- Columns swept with the planner of the vectors, one row to a batch. -/
def deployment (columns : W → String × String) : Deployment Vectors.prim ColumnRows W where
  style := .question
  rows t data := data (t.table, t.ciphertextColumn)
  columns := columns
  cursorColumns _ := "id"
  indexColumns _ := ["value_bidx"]
  seals _ := vectorSeal
  sweeps := fun _ => sweeps ()

/-- One row, under the cursor 7. -/
def oneRow (row : StoredRow Unit) : Int → Option (StoredRow Unit) := tableOf [(7, row)]

variable {columns : W → String × String} {data data' : ColumnRows} {progress progress' : Progress}
  {workers : W → Option (RunState Int Unit Empty)} {saved : W → Option Int} {w : W}
  {state next : RunState Int Unit Empty}

theorem deployment_call {call : Call Int Unit}
    {resume : Except Empty call.Answer → RunState Int Unit Empty} {answer : call.Answer}
    (hAwaits : (sweeps ()).Awaits state call resume)
    (hExec : (deployment columns).Exec w call ⟨data, progress⟩ answer ⟨data', progress'⟩) :
    (deployment columns).Step (some w)
      ⟨⟨data, progress⟩, Function.update workers w (some state), saved⟩
      ⟨⟨data', progress'⟩, Function.update workers w (some (resume (.ok answer))),
        call.savedBy saved w⟩ := by
  have hStep := Deployment.Step.call (d := deployment columns)
    ⟨⟨data, progress⟩, Function.update workers w (some state), saved⟩ w state call resume answer _
    (Function.update_self ..) hAwaits hExec
  rwa [Function.update_idem] at hStep

theorem deployment_advance (draw : Option Nonce)
    (hPoll : (sweeps ()).pollRun draw state = .running next) :
    (deployment columns).Step (some w)
      ⟨⟨data, progress⟩, Function.update workers w (some state), saved⟩
      ⟨⟨data, progress⟩, Function.update workers w (some next), saved⟩ := by
  have hStep := Deployment.Step.advance (d := deployment columns)
    ⟨⟨data, progress⟩, Function.update workers w (some state), saved⟩ w state next draw
    (Function.update_self ..) hPoll
  rwa [Function.update_idem] at hStep

/-- The state after `w` passed its row. -/
def passed (columns : W → String × String) (w : W) (data : ColumnRows) :
    SharedSweeps ColumnRows Empty W :=
  ⟨⟨data, Progress.upsert (fun _ _ => none) ((deployment columns).table w).progressTable
      ((deployment columns).table w).migrationName 7⟩,
    Function.update (fun _ => none) w (some (.loadingBatch (some 7) { current := 1 })),
    Function.update (fun _ => none) w (some 7)⟩

/-- A sweep whose one row is current saves the cursor of that row. -/
theorem passed_run (columns : W → String × String) (w : W) (data : ColumnRows)
    (hRows : data (columns w) = oneRow sealedRow) :
    (deployment columns).Run (.init data) (passed columns w data) := by
  have hEntries : Ascending [((7 : Int), sealedRow)] := List.pairwise_singleton ..
  have hBatch : (deployment columns).Exec w (.loadBatch none 1) ⟨data, fun _ _ => none⟩
      [SweepRow.ofEntry (7, sealedRow)] ⟨data, fun _ _ => none⟩ := by
    refine .loadBatch _ none 1 _ (.loadBatch _ none 1 _ ?_)
    have hPage := hEntries.enumerates.page_take none 1
    rw [remaining_none] at hPage
    show Page (data (columns w)) none 1 _
    rw [hRows]
    exact hPage
  have hSave : (deployment columns).Exec w (.saveCheckpoint 7) ⟨data, fun _ _ => none⟩ ()
      (passed columns w data).db := SqlExec.write _ _ 7
  have hSaves : (sweeps ()).Awaits
      (.savingCheckpoint 7 { current := 1 } : RunState Int Unit Empty) (.saveCheckpoint 7)
      (.onStore fun _ => .loadingBatch (some 7) { current := 1 }) := ⟨none, rfl⟩
  have hPlan : (sweeps ()).planner.planRow () envelope [index] none = .ok ⟨.current, none⟩ :=
    RowPlanner.planRow_current
      (RowPlanner.classifyRow_write (planRow_plaintext []) rfl ()) none
  exact Relation.ReflTransGen.refl
    |>.tail ⟨_, .start (.init data) w rfl⟩
    |>.tail ⟨_, deployment_call ⟨none, rfl⟩ (SqlExec.answer _ _)⟩
    |>.tail ⟨_, deployment_call ⟨none, rfl⟩ hBatch⟩
    |>.tail ⟨_, deployment_advance none (congrArg Poll.running (Sweep.processRow_skip hPlan))⟩
    |>.tail ⟨_, deployment_advance none rfl⟩
    |>.tail ⟨_, deployment_call hSaves hSave⟩

/-- No other sweep saved one. -/
theorem passed_saved {w' : W} (hOther : w' ≠ w) : (passed columns w data).saved w' = none := by
  unfold passed
  dsimp only
  exact Function.update_of_ne hOther ..

/-- A sweep with the same name reads that cursor. -/
theorem passed_read {w' : W} (hName : ((deployment columns).table w').migrationName
    = ((deployment columns).table w).migrationName) (data : ColumnRows) :
    (deployment columns).Exec w' .loadCheckpoint (passed columns w data).db (some 7)
      (passed columns w data).db := by
  have hRead : (deployment columns).Exec w' .loadCheckpoint (passed columns w data).db _
      (passed columns w data).db := SqlExec.answer ((deployment columns).table w') _
  have hRow : (passed columns w data).db.progress ((deployment columns).table w).progressTable
      ((deployment columns).table w).migrationName = some 7 := by
    unfold passed
    dsimp only
    exact Progress.upsert_self ..
  rw [← hName] at hRow
  have hCheckpoint : (((deployment columns).table w').view (deployment columns).rows
      (passed columns w data).db).checkpoint = some 7 := hRow
  rwa [hCheckpoint] at hRead

end Vectors

namespace Deployment

variable {d : Deployment prim D W} {w : W} {s t : SharedSweeps D E W}

omit [DecidableEq W] in
/-- Different columns have different names when no two split one dotted text. -/
theorem names_apart (hColumns : Function.Injective d.columns)
    (hApart : ∀ w w', ¬ SweepTable.Splits (d.columns w) (d.columns w')) (w w' : W)
    (hOther : w ≠ w') : (d.table w).migrationName ≠ (d.table w').migrationName := by
  intro hSame
  rcases (d.table_migrationName w w').mp hSame with hColumn | hSplits | hSplits
  · exact hOther (hColumns hColumn)
  · exact hApart w w' hSplits
  · exact hApart w' w hSplits

/-- **Every run keeps a checkpoint under a name of its own apart.** -/
theorem reads_run (hNames : ∀ w', w ≠ w' → (d.table w).migrationName ≠ (d.table w').migrationName)
    {data : D} (hRun : d.Run (.init data) s) : d.ReadsOwn w s := by
  have hInit : d.Owns w (SharedSweeps.init data : SharedSweeps D E W).db fun _ => none := by
    intro cursor hCursor
    cases hCursor
  have hBoth : d.Owns w s.db s.saved ∧ d.ReadsOwn w s := by
    refine invariant_run (P := fun s => d.Owns w s.db s.saved ∧ d.ReadsOwn w s) ?_ hRun ?_
    · rintro a b h ⟨actor, hStep⟩
      exact reads_step hNames hStep h
    · refine ⟨hInit, fun answer db hExec => hInit.answer hExec, fun after report hWorker => ?_⟩
      cases hWorker
  exact hBoth.2

/-- Two sweeps of columns that split one dotted text: in some run of some deployment, one reads
what the other saved. -/
theorem exists_read {columns : W → String × String} {w w' : W}
    (hSplits : SweepTable.Splits (columns w) (columns w')) :
    ∃ s : SharedSweeps Vectors.ColumnRows Empty W,
      (Vectors.deployment columns).Run (.init fun _ => Vectors.oneRow Vectors.sealedRow) s ∧
      ¬ (Vectors.deployment columns).ReadsOwn w' s := by
  have hOther : w' ≠ w := fun hSame => SweepTable.not_splits_of_table rfl (hSame ▸ hSplits)
  have hName := ((Vectors.deployment columns).table_migrationName w' w).mpr
    (Or.inr (Or.inr hSplits))
  refine ⟨_, Vectors.passed_run columns w _ rfl, fun hReads => ?_⟩
  rcases hReads.checkpoint _ _ (Vectors.passed_read hName _) with hNone | hOwn
  · cases hNone
  · cases hOwn.trans (Vectors.passed_saved hOther)

/-- **Which sweeps keep their checkpoints apart.** The sweeps of different columns read only what
they saved themselves, in every run of every deployment, exactly when no two of them split one
dotted text. While none do, and others leave a sweep's rows as they are or make them current, the
rows up to the checkpoint it reads are current, and after a run that returned `Ok` so are all
rows. -/
theorem checkpoints_apart {columns : W → String × String} (hColumns : Function.Injective columns) :
    ((∀ w w', ¬ SweepTable.Splits (columns w) (columns w')) ↔
      ∀ (prim : Primitives) (D E : Type) (d : Deployment prim D W), d.columns = columns →
        ∀ (data : D) (s : SharedSweeps D E W), d.Run (.init data) s → ∀ w, d.ReadsOwn w s) ∧
    ((∀ w w', ¬ SweepTable.Splits (columns w) (columns w')) →
      ∀ (prim : Primitives) (D E : Type) (d : Deployment prim D W), d.columns = columns →
        ∀ (data : D) (w : W) (s : SharedSweeps D E W),
          Relation.ReflTransGen (fun s t => ∃ actor, d.Step actor s t ∧
            (actor ≠ some w → d.Improves w s t)) (.init data) s →
          (∀ cursor, (d.view w s).checkpoint = some cursor →
            ∀ x v, x ≤ cursor → (d.view w s).table x = some v →
              (d.sweeps w).planner.classifyRow v.columns v.ciphertext v.indexes = .ok .current) ∧
          (∀ report, s.workers w = some (.finished (.ok report)) →
            ∀ x v, (d.view w s).table x = some v →
              (d.sweeps w).planner.classifyRow v.columns v.ciphertext v.indexes = .ok .current)) := by
  refine ⟨⟨fun hApart prim D E d hDeployed data s hRun w => ?_, fun h w w' hSplits => ?_⟩,
    fun hApart prim D E d hDeployed data w s hRun => ?_⟩
  · subst hDeployed
    exact reads_run (names_apart hColumns hApart w) hRun
  · obtain ⟨s, hRun, hReads⟩ := exists_read hSplits
    exact hReads (h _ _ Empty (Vectors.deployment columns) rfl _ s hRun w')
  · subst hDeployed
    have hSound : d.Sound w s := by
      refine invariant_run (P := d.Sound w) ?_ hRun (d.sound_init w data)
      rintro a b h ⟨actor, hStep, hOthers⟩
      exact h.step (names_apart hColumns hApart w) hStep hOthers
    refine ⟨fun cursor hCheckpoint x v hx hStored => ?_, fun report hFinished x v hStored => ?_⟩
    · refine hSound.rows.db x (fun hAfter => ?_) v hStored
      exact absurd (hAfter cursor hCheckpoint) (not_lt.mpr hx)
    · exact hSound.rows.workers () _ hFinished x v hStored

end Deployment

namespace Vectors

/-- Two columns of one table. -/
def usersColumns : Bool → String × String
  | true => ("users", "email_ciphertext")
  | false => ("users", "phone_ciphertext")

/-- Two columns with one dotted name. -/
def dottedColumns : Bool → String × String
  | true => ("a.b", "c")
  | false => ("a", "b.c")

theorem usersColumns_injective : Function.Injective usersColumns := by
  rintro (_ | _) (_ | _) h <;> first | rfl | exact absurd h (by decide)

theorem dottedColumns_injective : Function.Injective dottedColumns := by
  rintro (_ | _) (_ | _) h <;> first | rfl | exact absurd h (by decide)

/-- The row of the first column is current, that of the second legacy. -/
def dottedRows : ColumnRows :=
  fun p => oneRow (if p = dottedColumns true then sealedRow else legacyRow)

end Vectors

namespace Deployment

/-- The sweep of one column of a table reads nothing of what that of another saved. -/
theorem checkpoints_apart_vector :
    (Vectors.deployment Vectors.usersColumns).ReadsOwn false
      (Vectors.passed Vectors.usersColumns true fun _ => Vectors.oneRow Vectors.sealedRow) := by
  obtain ⟨hReads, -⟩ := checkpoints_apart Vectors.usersColumns_injective
  have hApart : ∀ w w',
      ¬ SweepTable.Splits (Vectors.usersColumns w) (Vectors.usersColumns w') := by
    intro w w'
    cases w <;> cases w' <;> exact SweepTable.not_splits_of_table rfl
  have hRun := Vectors.passed_run Vectors.usersColumns true
    (fun _ => Vectors.oneRow Vectors.sealedRow) rfl
  exact hReads.mp hApart _ _ Empty (Vectors.deployment Vectors.usersColumns) rfl _ _ hRun false

/-- **Columns with one dotted name mix their checkpoints.** After the sweep of the first saved
the cursor of its row, the sweep of the second resumes there and returns, with no row counted. Its
row under that cursor is legacy. -/
theorem checkpoints_mix : Function.Injective Vectors.dottedColumns ∧
    ∃ s t : SharedSweeps Vectors.ColumnRows Empty Bool,
      (Vectors.deployment Vectors.dottedColumns).Run (.init Vectors.dottedRows) s ∧
      s.saved false = none ∧
      (Vectors.deployment Vectors.dottedColumns).Exec false .loadCheckpoint s.db (some 7) s.db ∧
      (Vectors.deployment Vectors.dottedColumns).Run s t ∧
      t.workers false = some (.finished (.ok {})) ∧
      ((Vectors.deployment Vectors.dottedColumns).view false t).table 7 = some Vectors.legacyRow ∧
      Vectors.planner.classifyRow () Vectors.legacyRow.ciphertext Vectors.legacyRow.indexes
        = .ok .legacy := by
  have hOther : false ≠ true := by decide
  have hName : ((Vectors.deployment Vectors.dottedColumns).table false).migrationName
      = ((Vectors.deployment Vectors.dottedColumns).table true).migrationName := by
    decide +kernel
  have hRead := Vectors.passed_read hName Vectors.dottedRows
  let s := Vectors.passed Vectors.dottedColumns true Vectors.dottedRows
  let stands (state : RunState Int Unit Empty) : SharedSweeps Vectors.ColumnRows Empty Bool :=
    ⟨s.db, Function.update s.workers false (some state), s.saved⟩
  have hIdle : s.workers false = none := rfl
  have hBatch : (Vectors.deployment Vectors.dottedColumns).Exec false (.loadBatch (some 7) 1) s.db
      [] s.db := by
    refine .loadBatch _ (some 7) 1 _ (.loadBatch _ (some 7) 1 _ ?_)
    have hEntries : Ascending [((7 : Int), Vectors.legacyRow)] := List.pairwise_singleton ..
    exact hEntries.enumerates.page_take (some 7) 1
  have hRest : (Vectors.deployment Vectors.dottedColumns).Run s (stands (.finished (.ok {}))) :=
    Relation.ReflTransGen.refl
      |>.tail ⟨_, .start s false hIdle⟩
      |>.tail ⟨_, Vectors.deployment_call ⟨none, rfl⟩ hRead⟩
      |>.tail ⟨_, Vectors.deployment_call ⟨none, rfl⟩ hBatch⟩
      |>.tail ⟨_, Vectors.deployment_advance none rfl⟩
  exact ⟨Vectors.dottedColumns_injective, s, _, Vectors.passed_run _ true _ rfl,
    Vectors.passed_saved hOther, hRead, hRest, rfl, rfl,
    RowPlanner.classifyRow_legacy Vectors.planner () rfl (by decide +kernel)⟩

end Deployment

end Cryptbox

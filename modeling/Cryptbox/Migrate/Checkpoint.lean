import Cryptbox.Migrate.System

/-!
# The checkpoint of a sweep

While writers store current rows only, a row that is current stays current, and a row that
changes becomes current. So what a worker has learnt about the rows it passed stays true:
every row of its region is current, or is still the row it loaded and has yet to process
(`RunState.Sound`). The durable checkpoint is saved after such a region was emptied.

* `System.checkpoint_sound`: at every state that can be reached, the rows up to the
  checkpoint are current, and after a run that returned `Ok` so are all rows.
-/

namespace Cryptbox

open Base

variable {prim : Primitives} {F : Seal} {R C E W : Type} [LinearOrder C]

/-- The row classifies as current. -/
def RowPlanner.IsCurrent (planner : RowPlanner prim F R) (v : StoredRow R) : Prop :=
  planner.classifyRow v.columns v.ciphertext v.indexes = .ok .current

/-- What a worker knows of the rows it has passed. -/
def RunState.Sound (Good : C → StoredRow R → Prop) (table : C → Option (StoredRow R)) :
    RunState C R E → Prop
  | .loadingCheckpoint => True
  | .loadingBatch after _ => ∀ x, ¬ After after x → Clean Good table x
  | .processing rows todo _ =>
    Covers Good table (Reached (rows.map SweepRow.entry)) (todo.map SweepRow.entry)
  | .updating rows row _ _ todo _ =>
    Covers Good table (Reached (rows.map SweepRow.entry)) ((row :: todo).map SweepRow.entry)
  | .savingCheckpoint cursor _ => ∀ x, x ≤ cursor → Clean Good table x
  | .finished (.ok _) => ∀ x, Clean Good table x
  | .finished (.error _) => True
  | .panicked => True

/-- The rows up to the checkpoint are good. -/
def Database.Sound (Good : C → StoredRow R → Prop) (db : Database C R) : Prop :=
  ∀ x, ¬ After db.checkpoint x → Clean Good db.table x

theorem RunState.Sound.mono {Good : C → StoredRow R → Prop}
    {table table' : C → Option (StoredRow R)} {state : RunState C R E}
    (h : state.Sound Good table) (hImproves : Improves Good table table') :
    state.Sound Good table' := by
  cases state with
  | loadingCheckpoint => trivial
  | loadingBatch after report => exact fun x hx => hImproves.clean (h x hx)
  | processing rows todo report => exact Covers.mono h hImproves
  | updating rows row replacement state todo report => exact Covers.mono h hImproves
  | savingCheckpoint cursor report => exact fun x hx => hImproves.clean (h x hx)
  | finished result =>
    cases result with
    | error e => trivial
    | ok report => exact fun x => hImproves.clean (h x)
  | panicked => trivial

section

variable {sweep : Sweep prim F R} {state next : RunState C R E} {db db' : Database C R}

omit [LinearOrder C] in
/-- What a plan writes is current, whatever the columns of the row it is written to. -/
theorem RowWrite.isCurrent_apply {planner : RowPlanner prim F R} {row : SweepRow C R}
    {draw : Option Nonce} {state : RowState} {write : RowWrite}
    (hPlan : planner.planRow row.columns row.ciphertext row.indexes draw
      = .ok ⟨state, some write⟩) (v : StoredRow R) : planner.IsCurrent (write.apply v) :=
  RowPlanner.classifyRow_write hPlan rfl v.columns

/-- A saved checkpoint is sound, since the worker that saves it is. -/
theorem RunState.Effects.sound {Good : C → StoredRow R → Prop} (h : state.Effects db db')
    (hImproves : Improves Good db.table db'.table) (hDb : db.Sound Good)
    (hSound : state.Sound Good db.table) : db'.Sound Good := by
  cases h with
  | nothing => exact hDb
  | update => exact fun x hx => hImproves.clean (hDb x hx)
  | save _ cursor =>
    intro x hx
    exact hSound x (not_lt.mp fun hlt => hx (after_some.mpr hlt))

/-- A worker that moves on knows what it should of the rows it has passed by then. -/
theorem Sweep.Moves.sound (h : sweep.Moves db state db' next)
    (hDb : db.Sound fun _ => sweep.planner.IsCurrent)
    (hHolds : sweep.Holds (fun _ _ => True) state)
    (hImproves : Improves (fun _ => sweep.planner.IsCurrent) db.table db'.table)
    (hSound : state.Sound (fun _ => sweep.planner.IsCurrent) db.table) :
    next.Sound (fun _ => sweep.planner.IsCurrent) db'.table := by
  cases h with
  | loadCheckpoint => exact hDb
  | loadBatch after report rows hPage => exact hPage.covers sweep.positive hSound
  | finish => exact fun x => Covers.clean hSound fun _ hLast => nomatch hLast
  | leave rows row report hLast =>
    intro x hx
    apply Covers.clean hSound
    intro e he
    rw [List.getLast?_map, hLast] at he
    cases he
    exact hx
  | skip rows row todo report state draw hPlan =>
    -- A row that needs no write is current as it was loaded.
    exact Covers.skip hSound fun _ => RowPlanner.classifyRow_unchanged hPlan rfl
  | plan => exact hSound
  | update rows row replacement state todo report v hMatches =>
    obtain ⟨-, draw, hPlan⟩ := hHolds
    apply Covers.skip (Covers.mono hSound hImproves)
    intro hStored
    dsimp only at hStored
    rw [Function.update_self] at hStored
    exact Option.some.inj hStored ▸ RowWrite.isCurrent_apply hPlan v
  | lose rows row replacement state todo report hChanged =>
    -- Were the loaded row still there, the comparison would have succeeded.
    exact Covers.skip hSound fun hStored => absurd ⟨hStored, rfl, rfl⟩ (hChanged row.stored)
  | saveCheckpoint =>
    intro x hx
    exact hSound x (not_lt.mp fun hlt => hx (after_some.mpr hlt))
  | fail => trivial
  | reject => trivial
  | panic => trivial

end

/-! ## The system -/

namespace System

variable [DecidableEq W] {sweeps : W → Sweep prim F R} {planner : RowPlanner prim F R}
  {s t : System C R E W}

/-- The rows up to the checkpoint are current, and every worker knows what it should. -/
structure Sound (planner : RowPlanner prim F R) (s : System C R E W) : Prop where
  db : s.db.Sound fun _ => planner.IsCurrent
  workers : ∀ w state, s.workers w = some state →
    state.Sound (fun _ => planner.IsCurrent) s.db.table

omit [DecidableEq W] in
theorem sound_init (table : C → Option (StoredRow R)) :
    Sound planner (init table : System C R E W) :=
  ⟨fun x hx => absurd (after_none x) hx, fun _ _ h => nomatch h⟩

/-- Rows only become current. -/
theorem improves_step (hPlanner : ∀ w, (sweeps w).planner = planner)
    (hHolds : Holds sweeps (fun _ _ => True) s)
    (hStep : Step sweeps (fun _ => planner.IsCurrent) s t) :
    Improves (fun _ => planner.IsCurrent) s.db.table t.db.table := by
  rcases shared_step hPlanner hHolds hStep with hSame | hShared
  · have hTable : t.db.table = s.db.table := congrArg Shared.table hSame
    rw [hTable]
    exact .refl _
  · refine Improves.step (fun _ _ h => h) ?_ hShared
    rintro x v _ ⟨read, draw, state, write, -, hPlan, rfl⟩
    exact RowPlanner.classifyRow_write hPlan rfl v.columns

theorem Sound.step (hPlanner : ∀ w, (sweeps w).planner = planner)
    (hHolds : Holds sweeps (fun _ _ => True) s) (h : Sound planner s)
    (hStep : Step sweeps (fun _ => planner.IsCurrent) s t) : Sound planner t := by
  have hImproves := improves_step hPlanner hHolds hStep
  cases hStep with
  | writer hWriter =>
    cases hWriter with
    | put x v =>
      exact ⟨fun y hy => hImproves.clean (h.db y hy), fun w state hw =>
        (h.workers w state hw).mono hImproves⟩
    | erase x =>
      exact ⟨fun y hy => hImproves.clean (h.db y hy), fun w state hw =>
        (h.workers w state hw).mono hImproves⟩
  | worker w hWorker =>
    refine ⟨?_, hWorker.forall_workers
      (fun w' state hState => (h.workers w' state hState).mono hImproves) trivial
      fun state state' hState hMoves => ?_⟩
    · rcases effects_of_workerStep hWorker with hDb | ⟨state, hState, hEffects⟩
      · rw [hDb]
        exact h.db
      · exact hEffects.sound hImproves h.db (h.workers w state hState)
    · obtain rfl := hPlanner w
      exact hMoves.sound h.db (hHolds.workers _ _ hState) hImproves (h.workers _ _ hState)

theorem Sound.run (hPlanner : ∀ w, (sweeps w).planner = planner)
    (hHolds : Holds sweeps (fun _ _ => True) s) (h : Sound planner s)
    (hRun : Run sweeps (fun _ => planner.IsCurrent) s t) : Sound planner t := by
  have hBoth : Holds sweeps (fun _ _ => True) t ∧ Sound planner t := by
    refine invariant_run (P := fun s => Holds sweeps (fun _ _ => True) s ∧ Sound planner s)
      ?_ hRun ⟨hHolds, h⟩
    rintro a b ⟨ha, hSound⟩ hStep
    exact ⟨ha.step (fun _ _ _ => trivial) hStep, hSound.step hPlanner ha hStep⟩
  exact hBoth.2

/-- **The checkpoint is sound and a sweep converges.** From any store without a checkpoint,
while writers store current rows only: every row up to the durable checkpoint is current, and
once a run has returned `Ok` every row is. -/
theorem checkpoint_sound (planner : RowPlanner prim F R) (batchSizes : W → Nat)
    (table : C → Option (StoredRow R)) {s : System C R E W}
    (hRun : Run (fun w => (Sweep.new planner).withBatchSize (batchSizes w))
      (fun _ => planner.IsCurrent) (init table) s) :
    (∀ c, s.db.checkpoint = some c → ∀ x v, x ≤ c → s.db.table x = some v →
      planner.classifyRow v.columns v.ciphertext v.indexes = .ok .current) ∧
    (∀ w report, s.workers w = some (.finished (.ok report)) → ∀ x v, s.db.table x = some v →
      planner.classifyRow v.columns v.ciphertext v.indexes = .ok .current) := by
  have hSound : Sound planner s := Sound.run (fun _ => rfl)
    (holds_init fun _ _ _ => trivial) (sound_init table) hRun
  refine ⟨fun c hCheckpoint x v hx hStored => ?_, fun w report hFinished x v hStored => ?_⟩
  · refine hSound.db x (fun hAfter => ?_) v hStored
    exact absurd (hAfter c hCheckpoint) (not_lt.mpr hx)
  · exact hSound.workers w _ hFinished x v hStored

/-- After the run over the vectors, every row the checkpoint covers is current, and so is every
row of the pass that returned. -/
theorem checkpoint_sound_vector :
    (∀ x v, x ≤ 9 → Vectors.swept.db.table x = some v →
      Vectors.planner.classifyRow v.columns v.ciphertext v.indexes = .ok .current) ∧
    (∀ x v, Vectors.swept.db.table x = some v →
      Vectors.planner.classifyRow v.columns v.ciphertext v.indexes = .ok .current) := by
  have hCurrent : Vectors.planner.IsCurrent Vectors.sealedRow :=
    RowPlanner.classifyRow_write (Vectors.planRow_plaintext []) rfl ()
  obtain ⟨hCheckpoint, hFinished⟩ := checkpoint_sound Vectors.planner (fun _ => 2)
    (Vectors.twoRows Vectors.legacyRow Vectors.legacyRow) (Vectors.sweep_run hCurrent)
  exact ⟨hCheckpoint 9 rfl, hFinished false _ rfl⟩

end System

end Cryptbox

import Cryptbox.Migrate.Run
import Cryptbox.Migrate.Verify

/-!
# Sweeps with nothing to write

A row that no plan rewrites is current, or refused. Over a store of such rows a worker never
comes to an update, so it changes no row, whatever the order of its steps and those of others.

* `RowPlanner.untouched_iff`: no plan rewrites a row when it is current or no plan succeeds.
* `Sweep.Moves.quiet`: what one step preserves.
* `System.quiet_run`, `Sweep.run_quiet`: in the system, and alone.
-/

namespace Cryptbox

open Base

variable {prim : Primitives} {F : Seal} {R C E S W : Type}

namespace RowPlanner

/-- No plan of the row has a write. -/
def Untouched (planner : RowPlanner prim F R) (v : StoredRow R) : Prop :=
  ∀ draw outcome, planner.planRow v.columns v.ciphertext v.indexes draw = .ok outcome →
    outcome.write = none

variable {planner : RowPlanner prim F R}

/-- No plan rewrites a row exactly when it is current or no plan of it succeeds. -/
theorem untouched_iff {v : StoredRow R} :
    planner.Untouched v ↔ planner.verdict v = .ok .current ∨
      ∀ draw outcome, planner.planRow v.columns v.ciphertext v.indexes draw ≠ .ok outcome := by
  constructor
  · intro h
    by_cases hPlans : ∃ draw outcome,
        planner.planRow v.columns v.ciphertext v.indexes draw = .ok outcome
    · obtain ⟨draw, outcome, hPlan⟩ := hPlans
      exact Or.inl (classifyRow_unchanged hPlan (h draw outcome hPlan))
    · push Not at hPlans
      exact Or.inr hPlans
  · intro h draw outcome hPlan
    rcases h with hCurrent | hNever
    · cases (planRow_current hCurrent draw).symm.trans hPlan
      rfl
    · exact absurd hPlan (hNever draw outcome)

end RowPlanner

/-- The worker has no update to make. -/
def RunState.Quiet (planner : RowPlanner prim F R) : RunState C R E → Prop
  | .processing _ todo _ => ∀ row ∈ todo, planner.Untouched row.stored
  | .updating .. => False
  | _ => True

/-- Whatever a call of such a worker does, it changes no row. -/
theorem RunState.Effects.quiet [LinearOrder C] {planner : RowPlanner prim F R}
    {state : RunState C R E} {db db' : Database C R} (h : state.Effects db db')
    (hQuiet : state.Quiet planner) : db'.table = db.table := by
  cases h with
  | nothing => rfl
  | update => exact hQuiet.elim
  | save => rfl

namespace Sweep

variable {sweep : Sweep prim F R} {state next : RunState C R E} {call : Call C R}
  {resume : Except E call.Answer → RunState C R E} {db db' : Database C R}

/-- A worker with nothing to write waits for no update. -/
theorem Awaits.not_update (h : sweep.Awaits state call resume) (hQuiet : state.Quiet sweep.planner)
    (row : SweepRow C R) (replacement : RowWrite) : call ≠ .update row replacement := by
  intro hUpdate
  cases h.waits with
  | update => exact hQuiet
  | loadCheckpoint => cases hUpdate
  | loadBatch => cases hUpdate
  | saveCheckpoint => cases hUpdate

variable [LinearOrder C]

/-- What a worker with nothing to write does: no row changes, and it still has nothing. -/
theorem Moves.quiet (h : sweep.Moves db state db' next)
    (hTable : ∀ x v, db.table x = some v → sweep.planner.Untouched v)
    (hQuiet : state.Quiet sweep.planner) : next.Quiet sweep.planner ∧ db'.table = db.table := by
  cases h with
  | loadBatch after report rows hPage =>
    refine ⟨fun row hRow => ?_, rfl⟩
    exact hTable _ _ (hPage.stored row.entry (List.mem_map_of_mem hRow)).1
  | skip rows row todo report state draw hPlan =>
    exact ⟨fun row hRow => hQuiet row (List.mem_cons_of_mem _ hRow), rfl⟩
  | plan rows row todo report state replacement draw hPlan =>
    -- The row at hand would be rewritten.
    cases hQuiet row List.mem_cons_self draw _ hPlan
  | update => exact hQuiet.elim
  | lose => exact hQuiet.elim
  | fail _ _ _ hEffects => exact ⟨trivial, hEffects.quiet hQuiet⟩
  | loadCheckpoint => exact ⟨trivial, rfl⟩
  | finish => exact ⟨trivial, rfl⟩
  | leave => exact ⟨trivial, rfl⟩
  | saveCheckpoint => exact ⟨trivial, rfl⟩
  | reject => exact ⟨trivial, rfl⟩
  | panic => exact ⟨trivial, rfl⟩

end Sweep

/-! ## The system -/

namespace System

variable [LinearOrder C] [DecidableEq W] {sweeps : W → Sweep prim F R}
  {planner : RowPlanner prim F R} {Allowed : C → StoredRow R → Prop} {s t : System C R E W}

/-- No row of the store is rewritten by a plan, none was rewritten, and no worker has an update
to make. -/
structure Quiet (planner : RowPlanner prim F R) (s : System C R E W) : Prop where
  table : ∀ x v, s.db.table x = some v → planner.Untouched v
  origin : s.db.table = s.origin
  workers : ∀ w state, s.workers w = some state → state.Quiet planner

theorem Quiet.step (hPlanner : ∀ w, (sweeps w).planner = planner)
    (hAllowed : ∀ x v, Allowed x v → planner.Untouched v) (h : Quiet planner s)
    (hStep : Step sweeps Allowed s t) : Quiet planner t := by
  cases hStep with
  | writer hWriter =>
    cases hWriter with
    | put x v hv =>
      refine ⟨forall_update h.table ?_, congrArg (Function.update · x (some v)) h.origin, h.workers⟩
      rintro _ ⟨⟩
      exact hAllowed x v hv
    | erase x =>
      refine ⟨forall_update h.table ?_, congrArg (Function.update · x none) h.origin, h.workers⟩
      rintro _ ⟨⟩
  | worker w hWorker =>
    obtain rfl := hPlanner w
    have hTable : t.db.table = s.db.table := by
      rcases effects_of_workerStep hWorker with hDb | ⟨state, hState, hEffects⟩
      · rw [hDb]
      · exact hEffects.quiet (h.workers w state hState)
    have hOrigin : t.origin = s.origin := hWorker.inversion.1
    refine ⟨hTable ▸ h.table, hTable.trans (h.origin.trans hOrigin.symm),
      hWorker.forall_workers h.workers trivial fun state state' hState hMoves => ?_⟩
    exact (hMoves.quiet h.table (h.workers w state hState)).1

/-- **A sweep over rows that no plan rewrites changes none of them**, in every run. -/
theorem quiet_run (hPlanner : ∀ w, (sweeps w).planner = planner)
    (hAllowed : ∀ x v, Allowed x v → planner.Untouched v) {table : C → Option (StoredRow R)}
    (hTable : ∀ x v, table x = some v → planner.Untouched v)
    (hRun : Run sweeps Allowed (init table) s) : Quiet planner s := by
  have hInit : Quiet planner (init table : System C R E W) := by
    refine ⟨hTable, rfl, ?_⟩
    intro w state hState
    cases hState
  exact invariant_run (fun h hStep => Quiet.step hPlanner hAllowed h hStep) hRun hInit

end System

/-! ## Alone -/

section

variable [LinearOrder C] {sweep : Sweep prim F R} {store : Store S C R E}
  {view : S → Database C R}

/-- **A sweep alone over rows that no plan rewrites makes no update.** It leaves every row as it
is, unless the store reported an error. -/
theorem Sweep.run_quiet (hMeets : store.Meets view) (draws : List (Option Nonce))
    {state state' : RunState C R E} {s s' : S} {calls : List (Call C R)}
    (hTable : ∀ x v, (view s).table x = some v → sweep.planner.Untouched v)
    (hQuiet : state.Quiet sweep.planner)
    (hRun : sweep.run store draws state s = (calls, state', s')) :
    (∀ call ∈ calls, ∀ row replacement, call ≠ .update row replacement) ∧
      ((view s').table = (view s).table ∨ ∃ error, state' = .finished (.error (.store error))) := by
  induction draws generalizing state s calls with
  | nil =>
    cases hRun
    exact ⟨fun _ h => absurd h List.not_mem_nil, Or.inl rfl⟩
  | cons draw draws ih =>
    cases hPoll : sweep.pollRun draw state with
    | ready =>
      unfold run at hRun
      simp only [hPoll] at hRun
      cases hRun
      exact ⟨fun _ h => absurd h List.not_mem_nil, Or.inl rfl⟩
    | running next =>
      rw [run_running hPoll] at hRun
      obtain ⟨hNext, -⟩ := (moves_of_running hPoll (view s)).quiet hTable hQuiet
      exact ih hTable hNext hRun
    | pending call resume =>
      have hAwaits : sweep.Awaits state call resume := ⟨draw, hPoll⟩
      rw [run_pending hPoll] at hRun
      obtain ⟨rfl, hRest⟩ := Prod.mk.inj hRun
      have hCall := hAwaits.not_update hQuiet
      cases hAnswer : (store.exec call s).1 with
      | error error =>
        rw [hAnswer, hAwaits.resume_error, run_finished] at hRest
        rw [hAwaits.resume_error, run_finished]
        cases hRest
        exact ⟨List.forall_mem_singleton.mpr hCall, Or.inr ⟨error, rfl⟩⟩
      | ok answer =>
        rw [hAnswer] at hRest
        obtain ⟨hNext, hSame⟩ :=
          ((hMeets call s answer hAnswer).moves hAwaits).quiet hTable hQuiet
        obtain ⟨hCalls, hRest⟩ := ih (hSame ▸ hTable) hNext (Prod.ext rfl hRest)
        rw [hSame] at hRest
        exact ⟨List.forall_mem_cons.mpr ⟨hCall, hCalls⟩, hRest⟩

end

end Cryptbox

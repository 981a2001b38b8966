import Cryptbox.Migrate.System

/-!
# A sweep that runs alone

`Sweep::run` over an implementation of `SweepStore` that nobody else touches, call after call.
Such a run is a run of the system with one worker and without writers, as long as the store
reports no error.

* `Sweep.run_system`: a run alone is a run of the system.
* `MemoryStore.meets`: a store in memory meets the contract, updates included.
* `MemoryStore.run_single`: a run over one row that is rewritten.
-/

namespace Cryptbox

open Base

variable {prim : Primitives} {F : Seal} {R C E S : Type}

/-- Runs `run` for as many steps as `draws` has entries, which are what the random source
returns: the calls it made, where it stands and the store after them. -/
def Sweep.run (sweep : Sweep prim F R) (store : Store S C R E) :
    List (Option Nonce) → RunState C R E → S → List (Call C R) × RunState C R E × S
  | [], state, s => ([], state, s)
  | draw :: draws, state, s =>
    match sweep.pollRun draw state with
    | .ready => ([], state, s)
    | .running next => run sweep store draws next s
    | .pending call resume =>
      let (result, s') := store.exec call s
      let (calls, rest) := run sweep store draws (resume result) s'
      (call :: calls, rest)

/-! ## One step -/

namespace Sweep

variable {sweep : Sweep prim F R} {store : Store S C R E} {draw : Option Nonce}
  {draws : List (Option Nonce)} {state next : RunState C R E} {s : S}

theorem run_running (hPoll : sweep.pollRun draw state = .running next) :
    sweep.run store (draw :: draws) state s = sweep.run store draws next s := by
  conv_lhs => unfold run
  simp only [hPoll]

theorem run_pending {call : Call C R} {resume : Except E call.Answer → RunState C R E}
    (hPoll : sweep.pollRun draw state = .pending call resume) :
    sweep.run store (draw :: draws) state s =
      (call :: (sweep.run store draws (resume (store.exec call s).1) (store.exec call s).2).1,
        (sweep.run store draws (resume (store.exec call s).1) (store.exec call s).2).2) := by
  conv_lhs => unfold run
  simp only [hPoll]

theorem run_finished (sweep : Sweep prim F R) (store : Store S C R E)
    (draws : List (Option Nonce)) (result : Except (SweepError E) SweepReport) (s : S) :
    sweep.run store draws (.finished result) s = ([], .finished result, s) := by
  cases draws <;> rfl

/-- A run stops at the first error of the store. -/
theorem Awaits.resume_error {call : Call C R} {resume : Except E call.Answer → RunState C R E}
    (h : sweep.Awaits state call resume) (error : E) :
    resume (.error error) = .finished (.error (.store error)) := by
  cases h.waits <;> rfl

/-- After the rows of a batch, `run` saves the cursor of the last. -/
theorem pollRun_leave (draw : Option Nonce) {rows : List (SweepRow C R)} {last : SweepRow C R}
    {report : SweepReport} (hLast : rows.getLast? = some last) :
    sweep.pollRun draw (.processing rows [] report)
      = (.running (.savingCheckpoint last.cursor report) : Poll C R E (RunState C R E)) := by
  unfold pollRun
  simp only [hLast]

end Sweep

/-! ## Runs of the system -/

section

variable [LinearOrder C]

theorem update_unit {α : Type} (f : Unit → α) (a : α) : Function.update f () a = fun _ => a := by
  funext u
  exact Function.update_self ..

/-- The system in which one worker runs `run` over `db`, whose rows were `origin`. -/
def System.alone (origin : C → Option (StoredRow R)) (db : Database C R)
    (state : RunState C R E) : System C R E Unit :=
  ⟨db, fun _ => some state, origin⟩

variable {sweep : Sweep prim F R} {store : Store S C R E} {view : S → Database C R}

/-- **A run alone is a run of the system**, unless the store reported an error. -/
theorem Sweep.run_system (hMeets : store.Meets view) (Allowed : C → StoredRow R → Prop)
    (origin : C → Option (StoredRow R)) (draws : List (Option Nonce)) {state state' : RunState C R E}
    {s s' : S} {calls : List (Call C R)}
    (hRun : sweep.run store draws state s = (calls, state', s')) :
    (∃ error, state' = .finished (.error (.store error))) ∨
      System.Run (fun _ : Unit => sweep) Allowed (.alone origin (view s) state)
        (.alone origin (view s') state') := by
  induction draws generalizing state s calls with
  | nil =>
    cases hRun
    exact Or.inr .refl
  | cons draw draws ih =>
    cases hPoll : sweep.pollRun draw state with
    | ready =>
      unfold run at hRun
      simp only [hPoll] at hRun
      cases hRun
      exact Or.inr .refl
    | running next =>
      rw [run_running hPoll] at hRun
      have hStep : System.Step (fun _ : Unit => sweep) Allowed (.alone origin (view s) state)
          (.alone origin (view s) next) := by
        refine .worker () ?_
        have hAdvance : WorkerStep sweep () _ _ := .advance
          (.alone origin (view s) state) state next draw rfl hPoll
        rwa [System.alone, update_unit] at hAdvance
      rcases ih hRun with hError | hRest
      · exact Or.inl hError
      · exact Or.inr (hRest.head hStep)
    | pending call resume =>
      have hAwaits : sweep.Awaits state call resume := ⟨draw, hPoll⟩
      rw [run_pending hPoll] at hRun
      obtain ⟨-, hRest⟩ := Prod.mk.inj hRun
      cases hAnswer : (store.exec call s).1 with
      | error error =>
        rw [hAnswer, hAwaits.resume_error, run_finished] at hRest
        cases hRest
        exact Or.inl ⟨error, rfl⟩
      | ok answer =>
        rw [hAnswer] at hRest
        have hStep : System.Step (fun _ : Unit => sweep) Allowed (.alone origin (view s) state)
            (.alone origin (view (store.exec call s).2) (resume (.ok answer))) := by
          refine .worker () ?_
          have hCall : WorkerStep sweep () _ _ := .call (.alone origin (view s) state)
            state call resume answer _ rfl hAwaits (hMeets call s answer hAnswer)
          rwa [System.alone, update_unit] at hCall
        rcases ih (Prod.ext rfl hRest) with hError | hRest
        · exact Or.inl hError
        · exact Or.inr (hRest.head hStep)

/-- **A run alone from no checkpoint is a run of the system from its start.** -/
theorem Sweep.run_init (hMeets : store.Meets view) (Allowed : C → StoredRow R → Prop)
    {draws : List (Option Nonce)} {s s' : S} {calls : List (Call C R)} {report : SweepReport}
    (hCheckpoint : (view s).checkpoint = none)
    (hRun : sweep.run store draws .loadingCheckpoint s = (calls, .finished (.ok report), s')) :
    System.Run (fun _ : Unit => sweep) Allowed (.init (view s).table)
      (.alone (view s).table (view s') (.finished (.ok report)) : System C R E Unit) := by
  have hStart : System.Step (fun _ : Unit => sweep) Allowed (.init (view s).table)
      (.alone (view s).table (view s) .loadingCheckpoint : System C R E Unit) := by
    refine .worker () ?_
    have hStep : WorkerStep sweep () _ _ := .start
      (.init (view s).table : System C R E Unit) rfl
    have hDb : (⟨(view s).table, none⟩ : Database C R) = view s := by rw [← hCheckpoint]
    rw [System.init, hDb, update_unit] at hStep
    rwa [System.init, hDb]
  rcases run_system hMeets Allowed (view s).table draws hRun with ⟨error, hError⟩ | hRest
  · cases hError
  · exact hRest.head hStart

end

/-! ## A store in memory -/

/-- Rows in the order of their cursors, and the checkpoint. -/
structure MemoryStore (C R : Type) [LinearOrder C] where
  rows : List (C × StoredRow R)
  checkpoint : Option C
  ascending : Ascending rows

namespace MemoryStore

variable [LinearOrder C] (m : MemoryStore C R)

/-- What the store holds. -/
def database : Database C R := ⟨tableOf m.rows, m.checkpoint⟩

/-- The row is stored with every byte as it was read. -/
def find? (row : SweepRow C R) : Option (C × StoredRow R) :=
  m.rows.find? fun e =>
    decide (e.1 = row.cursor ∧ e.2.ciphertext = row.ciphertext ∧ e.2.indexes = row.indexes)

/-- Writes the replacement under a cursor. -/
def replace (cursor : C) (replacement : RowWrite) : MemoryStore C R where
  rows := m.rows.map fun e => (e.1, if e.1 = cursor then replacement.apply e.2 else e.2)
  checkpoint := m.checkpoint
  ascending := List.pairwise_map.mpr m.ascending

/-- The calls of the store. None of them fails. -/
def store : Store (MemoryStore C R) C R Empty where
  exec
    | .loadCheckpoint, m => (.ok m.checkpoint, m)
    | .saveCheckpoint cursor, m => (.ok (), ⟨m.rows, some cursor, m.ascending⟩)
    | .loadBatch after limit, m =>
      (.ok (((remaining m.rows after).take limit).map .ofEntry), m)
    | .update row replacement, m =>
      match m.find? row with
      | some _ => (.ok true, m.replace row.cursor replacement)
      | none => (.ok false, m)

variable {m}

theorem find?_eq_some {row : SweepRow C R} {e : C × StoredRow R} (h : m.find? row = some e) :
    e.1 = row.cursor ∧ m.database.Matches row e.2 := by
  unfold find? at h
  have hMem : e ∈ m.rows := List.mem_of_find?_eq_some h
  have hStored : tableOf m.rows e.1 = some e.2 := (m.ascending.enumerates.mem_iff e).mp hMem
  have hFound := List.find?_some h
  obtain ⟨hCursor, hCiphertext, hIndexes⟩ := of_decide_eq_true hFound
  exact ⟨hCursor, hCursor ▸ hStored, hCiphertext, hIndexes⟩

theorem find?_eq_none {row : SweepRow C R} (h : m.find? row = none) (v : StoredRow R) :
    ¬ m.database.Matches row v := by
  intro hMatches
  obtain ⟨hStored, hCiphertext, hIndexes⟩ := hMatches
  have hMem : (row.cursor, v) ∈ m.rows := (m.ascending.enumerates.mem_iff _).mpr hStored
  exact List.find?_eq_none.mp h _ hMem (decide_eq_true ⟨rfl, hCiphertext, hIndexes⟩)

/-- Replacing a row changes the entry of its cursor. -/
theorem database_replace {cursor : C} {v : StoredRow R} (hStored : m.database.table cursor = some v)
    (replacement : RowWrite) :
    (m.replace cursor replacement).database
      = ⟨Function.update m.database.table cursor (some (replacement.apply v)), m.checkpoint⟩ := by
  have hRows := m.ascending.enumerates.modify hStored replacement.apply
  have hTable := (m.replace cursor replacement).ascending.enumerates.unique hRows
  unfold database
  rw [hTable]
  rfl

/-- **The store in memory meets the contract.** -/
theorem meets : (store (C := C) (R := R)).Meets database := by
  intro call m answer hAnswer
  cases call with
  | loadCheckpoint =>
    cases hAnswer
    exact .loadCheckpoint _
  | saveCheckpoint cursor =>
    cases hAnswer
    exact .saveCheckpoint _ cursor
  | loadBatch after limit =>
    cases hAnswer
    apply Exec.loadBatch _ after limit _
    rw [List.map_map, show SweepRow.entry ∘ SweepRow.ofEntry = id from rfl, List.map_id]
    exact m.ascending.enumerates.page_take after limit
  | update row replacement =>
    have hExec : store.exec (.update row replacement) m = match m.find? row with
      | some _ => (.ok true, m.replace row.cursor replacement)
      | none => (.ok false, m) := rfl
    cases hFind : m.find? row with
    | some e =>
      rw [hExec, hFind] at hAnswer ⊢
      cases hAnswer
      obtain ⟨-, hMatches⟩ := find?_eq_some hFind
      rw [database_replace hMatches.1]
      exact .updated _ row replacement e.2 hMatches
    | none =>
      rw [hExec, hFind] at hAnswer ⊢
      cases hAnswer
      exact .lost _ row replacement (find?_eq_none hFind)

/-- A store of one row. -/
def single (cursor : C) (row : StoredRow R) (checkpoint : Option C) : MemoryStore C R :=
  ⟨[(cursor, row)], checkpoint, List.pairwise_singleton ..⟩

/-- A run over a row that is rewritten: the row is replaced, and the run returns. -/
theorem run_single {planner : RowPlanner prim F R} (cursor : C) (row : StoredRow R)
    {state : RowState} {write : RowWrite} {draw : Option Nonce}
    (hPlan : planner.planRow row.columns row.ciphertext row.indexes draw
      = .ok ⟨state, some write⟩) :
    (((Sweep.new planner).withBatchSize 0).run store (List.replicate 8 draw) .loadingCheckpoint
      (single cursor row none)).2
      = (.finished (.ok (SweepReport.record {} state)),
        single cursor (write.apply row) (some cursor)) := by
  let sweep := (Sweep.new planner).withBatchSize 0
  let rows : List (SweepRow C R) := [.ofEntry (cursor, row)]
  have hLoads : (sweep.run store (List.replicate 8 draw) .loadingCheckpoint
      (single cursor row none)).2
      = (sweep.run store (draw :: List.replicate 5 draw) (.processing rows rows {})
        (single cursor row none)).2 := rfl
  have hPoll : sweep.pollRun draw (.processing rows rows {})
      = Poll.running (E := Empty)
        (.updating rows (.ofEntry (cursor, row)) write state [] {}) :=
    congrArg Poll.running (Sweep.processRow_write hPlan)
  have hUpdate : store.exec (.update (.ofEntry (cursor, row)) write) (single cursor row none)
      = (.ok true, single cursor (write.apply row) none) := by
    simp [store, find?, single, replace, SweepRow.ofEntry]
  have hDone : store.exec (.loadBatch (some cursor) sweep.batchSize)
      (single cursor (write.apply row) (some cursor))
      = (.ok [], single cursor (write.apply row) (some cursor)) := by
    simp [store, single, remaining]
  have hLast (report : SweepReport) : sweep.run store (List.replicate 2 draw)
      (.loadingBatch (some cursor) report) (single cursor (write.apply row) (some cursor))
      = ([.loadBatch (some cursor) sweep.batchSize], .finished (.ok report),
        single cursor (write.apply row) (some cursor)) := by
    rw [List.replicate_succ, Sweep.run_pending rfl, hDone]
    rfl
  show (sweep.run store _ _ _).2 = _
  rw [hLoads, Sweep.run_running hPoll, List.replicate_succ, Sweep.run_pending rfl, hUpdate]
  exact congrArg Prod.snd (hLast (SweepReport.record {} state))

end MemoryStore

end Cryptbox

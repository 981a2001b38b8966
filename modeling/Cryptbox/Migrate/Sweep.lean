import Cryptbox.Base.Paging
import Cryptbox.Migrate.Rewrite

/-!
# Sweeps

`migrate/sweep.rs` and `migrate/report.rs`. `run` and `verify` are asynchronous: between two
calls of the store, anything may happen to it. Each is a state that says which call it waits
for and what it holds meanwhile, and a function (`Sweep.pollRun`, `Sweep.pollVerify`) from that
state to the call and to what it does with the answer. The loop of `run` over the rows of a
batch is a state of its own, so that every row is planned with its own nonce.

`Exec` is the contract of `SweepStore` over what the store holds.

Counters are natural numbers. Those of the source are `u64`, so what is said of a count holds
of the code while a pass meets fewer than 2^64 rows.
-/

namespace Cryptbox

open Base

/-! ## Rows and reports -/

/-- One loaded row: its cursor and the exact bytes read. -/
structure SweepRow (C R : Type) where
  cursor : C
  columns : R
  ciphertext : Bytes
  indexes : List Bytes
  deriving DecidableEq

/-- What a store keeps under a cursor. -/
structure StoredRow (R : Type) where
  columns : R
  ciphertext : Bytes
  indexes : List Bytes
  deriving DecidableEq

namespace SweepRow

variable {C R : Type}

def stored (row : SweepRow C R) : StoredRow R := ⟨row.columns, row.ciphertext, row.indexes⟩

def entry (row : SweepRow C R) : C × StoredRow R := (row.cursor, row.stored)

/-- The row read from an entry of the store. -/
def ofEntry (entry : C × StoredRow R) : SweepRow C R :=
  ⟨entry.1, entry.2.columns, entry.2.ciphertext, entry.2.indexes⟩

@[simp] theorem ofEntry_entry (row : SweepRow C R) : ofEntry row.entry = row := rfl

end SweepRow

/-- Row tallies from one pass, of fewer than 2^64 rows: the source counts in `u64`. -/
structure SweepReport where
  current : Nat := 0
  stale : Nat := 0
  legacy : Nat := 0
  malformed : Nat := 0
  conflicts : Nat := 0
  deriving DecidableEq, Repr

namespace SweepReport

def record (report : SweepReport) : RowState → SweepReport
  | .current => { report with current := report.current + 1 }
  | .stale => { report with stale := report.stale + 1 }
  | .legacy => { report with legacy := report.legacy + 1 }

/-- Whether the legacy, stale and malformed counts are all zero. -/
def isTerminal (report : SweepReport) : Bool :=
  report.legacy == 0 && report.stale == 0 && report.malformed == 0

end SweepReport

/-- Why a pass stopped; `E` is the store's error type. -/
inductive SweepError (E : Type) where
  | store (error : E)
  | row (error : Error)
  deriving DecidableEq

/-- Whether an error describes one row's stored bytes, rather than the configuration or the
environment. -/
def isRowDataFailure : Error → Bool
  | .notCiphertext | .invalidEnvelope | .unsupportedFormatVersion _ | .unsupportedSuite _
  | .unsupportedFlags _ | .unknownEncryptionKey _ | .unknownBlindIndexKey _
  | .authenticationFailed | .contextMismatch | .codecFailed _ | .blindIndexNormalizationFailed _
  | .messageTooLong | .paddingOverflow | .invalidPadding | .invalidBlindIndex
  | .unsupportedBlindIndexVersion _ | .unexpectedRecord | .legacyRecoveryFailed _ => true
  | .blindIndexKeysNotConfigured | .duplicateEncryptionKey _ | .duplicateBlindIndexKey _
  | .randomnessUnavailable | .invalidKeyEncoding | .internal | .indexColumnMismatch .. => false

/-! ## The store -/

/-- The calls of the trait `SweepStore`. -/
inductive Call (C R : Type) where
  | loadCheckpoint
  | saveCheckpoint (cursor : C)
  | loadBatch (after : Option C) (limit : Nat)
  | update (row : SweepRow C R) (replacement : RowWrite)

/-- What a call returns when it succeeds. -/
abbrev Call.Answer {C R : Type} : Call C R → Type
  | .loadCheckpoint => Option C
  | .saveCheckpoint _ => Unit
  | .loadBatch .. => List (SweepRow C R)
  | .update .. => Bool

/-- The rows a store holds and the durable checkpoint. -/
structure Database (C R : Type) where
  table : C → Option (StoredRow R)
  checkpoint : Option C

/-- Every read byte is still as it was read. -/
def Database.Matches {C R : Type} (db : Database C R) (row : SweepRow C R) (v : StoredRow R) :
    Prop :=
  db.table row.cursor = some v ∧ v.ciphertext = row.ciphertext ∧ v.indexes = row.indexes

def RowWrite.apply {R : Type} (write : RowWrite) (v : StoredRow R) : StoredRow R :=
  ⟨v.columns, write.ciphertext, write.indexes⟩

/-- **The contract of `SweepStore`**: what a call answers and does. -/
inductive Exec {C R : Type} [LinearOrder C] :
    (call : Call C R) → Database C R → call.Answer → Database C R → Prop
  | loadCheckpoint (db : Database C R) : Exec .loadCheckpoint db db.checkpoint db
  | saveCheckpoint (db : Database C R) (cursor : C) :
      Exec (.saveCheckpoint cursor) db () ⟨db.table, some cursor⟩
  | loadBatch (db : Database C R) (after : Option C) (limit : Nat) (rows : List (SweepRow C R))
      (hPage : Page db.table after limit (rows.map SweepRow.entry)) :
      Exec (.loadBatch after limit) db rows db
  | updated (db : Database C R) (row : SweepRow C R) (replacement : RowWrite) (v : StoredRow R)
      (hMatches : db.Matches row v) :
      Exec (.update row replacement) db true
        ⟨Function.update db.table row.cursor (some (replacement.apply v)), db.checkpoint⟩
  | lost (db : Database C R) (row : SweepRow C R) (replacement : RowWrite)
      (hChanged : ∀ v, ¬ db.Matches row v) : Exec (.update row replacement) db false db

/-! ## The driver -/

/-- Drives a migration over one column family. -/
structure Sweep (prim : Primitives) (F : Seal) (R : Type) where
  planner : RowPlanner prim F R
  batchSize : Nat
  positive : 0 < batchSize

namespace Sweep

variable {prim : Primitives} {F : Seal} {R C E : Type}

def new (planner : RowPlanner prim F R) : Sweep prim F R := ⟨planner, 100, by decide⟩

/-- Sets the batch size; values below one are treated as one. -/
def withBatchSize (sweep : Sweep prim F R) (batchSize : Nat) : Sweep prim F R :=
  { sweep with batchSize := max batchSize 1, positive := by omega }

end Sweep

/-- Where an asynchronous function stands: it waits for a call, goes on by itself, or has
returned. -/
inductive Poll (C R E S : Type) where
  | pending (call : Call C R) (resume : Except E call.Answer → S)
  | running (next : S)
  | ready

/-- Where `run` stands. -/
inductive RunState (C R E : Type) where
  | loadingCheckpoint
  | loadingBatch (after : Option C) (report : SweepReport)
  /-- The loop of `process_batch` over `rows` has `todo` left. -/
  | processing (rows todo : List (SweepRow C R)) (report : SweepReport)
  | updating (rows : List (SweepRow C R)) (row : SweepRow C R) (replacement : RowWrite)
      (state : RowState) (todo : List (SweepRow C R)) (report : SweepReport)
  | savingCheckpoint (cursor : C) (report : SweepReport)
  | finished (result : Except (SweepError E) SweepReport)
  | panicked

/-- `.map_err(SweepError::Store)?` -/
def RunState.onStore {C R E α : Type} (next : α → RunState C R E) :
    Except E α → RunState C R E
  | .ok a => next a
  | .error e => .finished (.error (.store e))

/-- Where `verify` stands. -/
inductive VerifyState (C E : Type) where
  | loadingBatch (after : Option C) (report : SweepReport)
  | finished (result : Except (SweepError E) SweepReport)
  | panicked

namespace Sweep

variable {prim : Primitives} {F : Seal} {R C E : Type} (sweep : Sweep prim F R)

/-- The body of the loop of `process_batch`. -/
def processRow (draw : Option Nonce) (rows : List (SweepRow C R)) (row : SweepRow C R)
    (todo : List (SweepRow C R)) (report : SweepReport) : RunState C R E :=
  match sweep.planner.planRow row.columns row.ciphertext row.indexes draw with
  | .error (.err e) => .finished (.error (.row e))
  | .error .panic => .panicked
  | .ok ⟨state, none⟩ => .processing rows todo (report.record state)
  | .ok ⟨state, some replacement⟩ => .updating rows row replacement state todo report

/-- `run` and `process_batch`, from one call of the store to the next. -/
def pollRun (draw : Option Nonce) : RunState C R E → Poll C R E (RunState C R E)
  | .loadingCheckpoint =>
    .pending .loadCheckpoint (.onStore fun cursor => .loadingBatch cursor {})
  | .loadingBatch after report =>
    .pending (.loadBatch after sweep.batchSize) (.onStore fun rows => .processing rows rows report)
  | .processing rows [] report =>
    match rows.getLast? with
    | none => .running (.finished (.ok report))
    | some row => .running (.savingCheckpoint row.cursor report)
  | .processing rows (row :: todo) report => .running (sweep.processRow draw rows row todo report)
  | .updating rows row replacement state todo report =>
    .pending (.update row replacement) (.onStore fun updated =>
      .processing rows todo
        (if updated then report.record state
        else { report with conflicts := report.conflicts + 1 }))
  | .savingCheckpoint cursor report =>
    .pending (.saveCheckpoint cursor) (.onStore fun _ => .loadingBatch (some cursor) report)
  | .finished _ => .ready
  | .panicked => .ready

/-- The body of the loop of `verify_batch`. -/
def verifyRow (report : SweepReport) (row : SweepRow C R) : Result SweepReport :=
  match sweep.planner.classifyRow row.columns row.ciphertext row.indexes with
  | .ok state => .ok (report.record state)
  | .error (.err e) =>
    if isRowDataFailure e then .ok { report with malformed := report.malformed + 1 } else err e
  | .error .panic => panics

/-- The loop of `verify_batch` over the rows of a batch. -/
def verifyRows (report : SweepReport) (rows : List (SweepRow C R)) : Result SweepReport :=
  rows.foldlM sweep.verifyRow report

/-- What `verify` does with a batch. -/
def verifyBatch (report : SweepReport) (rows : List (SweepRow C R)) : VerifyState C E :=
  match sweep.verifyRows report rows with
  | .error (.err e) => .finished (.error (.row e))
  | .error .panic => .panicked
  | .ok report =>
    match rows.getLast? with
    | none => .finished (.ok report)
    | some row => .loadingBatch (some row.cursor) report

/-- `verify` and `verify_batch`, from one call of the store to the next. -/
def pollVerify : VerifyState C E → Poll C R E (VerifyState C E)
  | .loadingBatch after report =>
    .pending (.loadBatch after sweep.batchSize) fun
      | .ok rows => sweep.verifyBatch report rows
      | .error e => .finished (.error (.store e))
  | .finished _ => .ready
  | .panicked => .ready

end Sweep

/-! ## Running against an implementation -/

/-- An implementation of `SweepStore` with states `S`. -/
structure Store (S C R E : Type) where
  exec : (call : Call C R) → S → Except E call.Answer × S

/-- The implementation meets the contract, where `view` is what a state of it holds. -/
def Store.Meets {S C R E : Type} [LinearOrder C] (store : Store S C R E)
    (view : S → Database C R) : Prop :=
  ∀ call s answer, (store.exec call s).1 = .ok answer →
    Exec call (view s) answer (view (store.exec call s).2)

/-- Loading a batch changes nothing and returns a page. -/
theorem Store.Meets.loadBatch {S C R E : Type} [LinearOrder C] {store : Store S C R E}
    {view : S → Database C R} (hMeets : store.Meets view) {after : Option C} {limit : Nat} {s : S}
    {rows : List (SweepRow C R)} (hLoad : (store.exec (.loadBatch after limit) s).1 = .ok rows) :
    view (store.exec (.loadBatch after limit) s).2 = view s ∧
      Page (view s).table after limit (rows.map SweepRow.entry) := by
  have hExec := hMeets (.loadBatch after limit) s rows hLoad
  generalize view (store.exec (.loadBatch after limit) s).2 = db at hExec
  cases hExec with
  | loadBatch _ _ _ _ hPage => exact ⟨rfl, hPage⟩

/-- A store that only reads, over fixed rows. -/
def Store.snapshot {C R : Type} [LinearOrder C] (entries : List (C × StoredRow R)) :
    Store Unit C R Unit where
  exec
    | .loadCheckpoint, s => (.ok none, s)
    | .loadBatch after limit, s => (.ok (((remaining entries after).take limit).map .ofEntry), s)
    | .saveCheckpoint _, s => (.error (), s)
    | .update .., s => (.error (), s)

theorem Store.snapshot_meets {C R : Type} [LinearOrder C] {entries : List (C × StoredRow R)}
    (hAscending : Ascending entries) :
    (snapshot entries).Meets fun _ => ⟨tableOf entries, none⟩ := by
  intro call s answer hAnswer
  cases call with
  | loadCheckpoint =>
    cases hAnswer
    exact .loadCheckpoint _
  | loadBatch after limit =>
    cases hAnswer
    apply Exec.loadBatch _ after limit _
    rw [List.map_map, show SweepRow.entry ∘ SweepRow.ofEntry = id from rfl, List.map_id]
    exact hAscending.enumerates.page_take after limit
  | saveCheckpoint => cases hAnswer
  | update => cases hAnswer

/-- The plaintext of the vectors as a legacy row. -/
def Vectors.legacyRow : StoredRow Unit := ⟨(), plaintext.val, [[]]⟩

/-- The row with the envelope and the index of the vectors. -/
def Vectors.sealedRow : StoredRow Unit := ⟨(), envelope, [index]⟩

/-- The row whose index names another key. -/
def Vectors.staleRow : StoredRow Unit :=
  ⟨(), envelope, [be 19 0x0299999999888847778666555555555555000d ++ [0xb5, 0xe8]]⟩

/-- Bytes with the magic and nothing else of an envelope. -/
def Vectors.garbageRow : StoredRow Unit :=
  ⟨(), [0x43, 0x42, 0x58, 0x00, 0x02, 0x67, 0x61, 0x72, 0x62, 0x61, 0x67, 0x65], [[]]⟩

/-- Runs `verify` for `fuel` steps: the calls it made, where it stands and the store after
them. -/
def Sweep.verify {prim : Primitives} {F : Seal} {S C R E : Type} (sweep : Sweep prim F R)
    (store : Store S C R E) : Nat → VerifyState C E → S → List (Call C R) × VerifyState C E × S
  | 0, state, s => ([], state, s)
  | fuel + 1, state, s =>
    match sweep.pollVerify state with
    | .ready => ([], state, s)
    | .running next => verify sweep store fuel next s
    | .pending call resume =>
      let (result, s') := store.exec call s
      let (calls, rest) := verify sweep store fuel (resume result) s'
      (call :: calls, rest)

end Cryptbox

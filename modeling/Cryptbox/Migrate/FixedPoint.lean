import Cryptbox.Migrate.Checkpoint
import Cryptbox.Migrate.Quiet

/-!
# A rewrite is a fixed point

What a plan writes is current, and what is current is planned without a write. After a run
that returned `Ok` and that no writer disturbed, every row is current; another run then reads
every page and returns.

* `Sweep.returns_current`: a run over current rows returns, and counts them.
* `Sweep.rewrite_fixed_point`: one rewrite, and a whole run, leave nothing to rewrite.
-/

namespace Cryptbox

open Base

variable {prim : Primitives} {F : Seal} {R C E S : Type}

/-- The report after `n` more current rows. -/
def SweepReport.addCurrent (report : SweepReport) (n : Nat) : SweepReport :=
  { report with current := report.current + n }

/-- The store answers every call that is not an update. -/
def Store.Answers (store : Store S C R E) : Prop :=
  ∀ call s, (∀ row replacement, call ≠ .update row replacement) →
    ∃ answer, (store.exec call s).1 = .ok answer

namespace Sweep

variable {sweep : Sweep prim F R} {store : Store S C R E} {state next : RunState C R E} {s : S}
  {report : SweepReport}

/-! ## Runs that return -/

/-- Whatever the random source returns, the run returns `report` after some number of steps. -/
def Returns (sweep : Sweep prim F R) (store : Store S C R E) (state : RunState C R E) (s : S)
    (report : SweepReport) : Prop :=
  ∃ steps, ∀ draws : List (Option Nonce), steps ≤ draws.length →
    ∃ calls s', sweep.run store draws state s = (calls, .finished (.ok report), s')

theorem Returns.finished (sweep : Sweep prim F R) (store : Store S C R E) (report : SweepReport)
    (s : S) : sweep.Returns store (.finished (.ok report)) s report :=
  ⟨0, fun draws _ => ⟨_, _, run_finished sweep store draws (.ok report) s⟩⟩

theorem Returns.running (h : sweep.Returns store next s report)
    (hPoll : ∀ draw, sweep.pollRun draw state = .running next) :
    sweep.Returns store state s report := by
  obtain ⟨steps, hRest⟩ := h
  refine ⟨steps + 1, fun draws hSteps => ?_⟩
  cases draws with
  | nil => cases hSteps
  | cons draw draws =>
    rw [run_running (hPoll draw)]
    exact hRest draws (Nat.le_of_succ_le_succ hSteps)

theorem Returns.pending {call : Call C R} {resume : Except E call.Answer → RunState C R E}
    (h : sweep.Returns store (resume (store.exec call s).1) (store.exec call s).2 report)
    (hPoll : ∀ draw, sweep.pollRun draw state = .pending call resume) :
    sweep.Returns store state s report := by
  obtain ⟨steps, hRest⟩ := h
  refine ⟨steps + 1, fun draws hSteps => ?_⟩
  cases draws with
  | nil => cases hSteps
  | cons draw draws =>
    obtain ⟨calls, s', hRun⟩ := hRest draws (Nat.le_of_succ_le_succ hSteps)
    rw [run_pending (hPoll draw), hRun]
    exact ⟨call :: calls, s', rfl⟩

/-- A call that the store answers. -/
theorem Returns.call {call : Call C R} {next : call.Answer → RunState C R E}
    {answer : call.Answer} (hAnswer : (store.exec call s).1 = .ok answer)
    (h : sweep.Returns store (next answer) (store.exec call s).2 report)
    (hPoll : ∀ draw, sweep.pollRun draw state = .pending call (.onStore next)) :
    sweep.Returns store state s report := by
  refine Returns.pending ?_ hPoll
  rw [hAnswer]
  exact h

/-! ## Over current rows -/

/-- The loop of `process_batch` over current rows counts them. -/
theorem returns_processing {rows todo : List (SweepRow C R)}
    (hCurrent : ∀ row ∈ todo, sweep.planner.IsCurrent row.stored) {s : S}
    {report report' : SweepReport}
    (h : sweep.Returns store (.processing rows [] (report.addCurrent todo.length)) s report') :
    sweep.Returns store (.processing rows todo report) s report' := by
  induction todo generalizing report with
  | nil => exact h
  | cons row todo ih =>
    obtain ⟨hRow, hRest⟩ := List.forall_mem_cons.mp hCurrent
    have hCount : (report.record .current).addCurrent todo.length
        = report.addCurrent (row :: todo).length := by
      unfold SweepReport.addCurrent SweepReport.record
      rw [List.length_cons, Nat.add_assoc, Nat.add_comm 1]
    rw [← hCount] at h
    apply (ih hRest h).running
    intro draw
    exact congrArg Poll.running (processRow_skip (RowPlanner.planRow_current hRow draw))

variable [LinearOrder C] {view : S → Database C R}

/-- **A run over current rows reads every page, counts the rows and returns.** -/
theorem returns_pages (sweep : Sweep prim F R) (hMeets : store.Meets view)
    (hAnswers : store.Answers) {entries : List (C × StoredRow R)}
    (hCurrent : ∀ e ∈ entries, sweep.planner.IsCurrent e.2) (after : Option C)
    (report : SweepReport) (s : S) (hEntries : Enumerates (view s).table entries) :
    sweep.Returns store (.loadingBatch after report) s
      (report.addCurrent (remaining entries after).length) := by
  induction hLength : (remaining entries after).length using Nat.strongRecOn
    generalizing after report s with
  | ind n ih =>
    obtain ⟨rows, hLoad⟩ := hAnswers (.loadBatch after sweep.batchSize) s (by intro _ _ h; cases h)
    obtain ⟨hView, hPage⟩ := hMeets.loadBatch hLoad
    have hRows : ∀ row ∈ rows, sweep.planner.IsCurrent row.stored := by
      intro row hRow
      have hStored := (hPage.stored row.entry (List.mem_map_of_mem hRow)).1
      exact hCurrent row.entry ((hEntries.mem_iff row.entry).mpr hStored)
    refine Returns.call hLoad (returns_processing hRows ?_) fun _ => rfl
    generalize store.exec (.loadBatch after sweep.batchSize) s = loaded at hView
    cases hLast : rows.getLast? with
    | none =>
      obtain rfl := List.getLast?_eq_none_iff.mp hLast
      rw [hEntries.page_nil hPage sweep.positive] at hLength
      subst hLength
      exact (Returns.finished sweep store _ _).running fun _ => rfl
    | some last =>
      have hLastEntry : (rows.map SweepRow.entry).getLast? = some last.entry := by
        rw [List.getLast?_map, hLast]
        rfl
      have hPages := hEntries.page_append hPage sweep.positive hLastEntry
      have hSplit : n = rows.length + (remaining entries (some last.cursor)).length := by
        rw [← hLength, hPages, List.length_append, List.length_map]
        rfl
      have hPos : 0 < rows.length := List.length_pos_of_mem (List.mem_of_getLast? hLast)
      refine Returns.running ?_ fun draw => pollRun_leave draw hLast
      obtain ⟨_, hSave⟩ := hAnswers (.saveCheckpoint last.cursor) loaded.2
        (by intro _ _ h; cases h)
      refine Returns.call hSave ?_ fun _ => rfl
      have hExec := hMeets _ _ _ hSave
      generalize store.exec (.saveCheckpoint last.cursor) loaded.2 = saved at hExec
      have hTable : (view saved.2).table = (view s).table := by
        rw [← hView]
        generalize view saved.2 = db at hExec
        cases hExec
        rfl
      have hRest := ih _ (by omega : (remaining entries (some last.cursor)).length < n)
        (some last.cursor) (report.addCurrent rows.length) saved.2 (hTable ▸ hEntries) rfl
      have hCount : (report.addCurrent rows.length).addCurrent
          (remaining entries (some last.cursor)).length = report.addCurrent n := by
        unfold SweepReport.addCurrent
        rw [hSplit, Nat.add_assoc]
      rwa [hCount] at hRest

/-- A run from no checkpoint over current rows reports them, and nothing else. -/
theorem returns_current (sweep : Sweep prim F R) (hMeets : store.Meets view)
    (hAnswers : store.Answers) {entries : List (C × StoredRow R)}
    (hCurrent : ∀ e ∈ entries, sweep.planner.IsCurrent e.2) {s : S}
    (hEntries : Enumerates (view s).table entries) (hCheckpoint : (view s).checkpoint = none) :
    sweep.Returns store .loadingCheckpoint s { current := entries.length } := by
  obtain ⟨checkpoint, hLoad⟩ := hAnswers .loadCheckpoint s (by intro _ _ h; cases h)
  refine Returns.call hLoad ?_ fun _ => rfl
  have hExec := hMeets _ _ _ hLoad
  generalize store.exec .loadCheckpoint s = loaded at hExec
  obtain ⟨hNone, hSame⟩ : checkpoint = none ∧ view loaded.2 = view s := by
    generalize view loaded.2 = db at hExec
    cases hExec
    exact ⟨hCheckpoint, rfl⟩
  subst hNone
  have hPages := returns_pages sweep hMeets hAnswers hCurrent none {} loaded.2 (hSame ▸ hEntries)
  rw [remaining_none] at hPages
  have hCount : SweepReport.addCurrent {} entries.length = { current := entries.length } := by
    unfold SweepReport.addCurrent
    rw [Nat.zero_add]
  rwa [hCount] at hPages

/-! ## After a run -/

/-- After a run alone from no checkpoint that returned `Ok`, every row is current, and there
are as many as before. -/
theorem run_converges (hMeets : store.Meets view) {planner : RowPlanner prim F R}
    {batchSize : Nat} {draws : List (Option Nonce)} {s s' : S} {calls : List (Call C R)}
    {report : SweepReport} (hCheckpoint : (view s).checkpoint = none)
    (hRun : ((Sweep.new planner).withBatchSize batchSize).run store draws .loadingCheckpoint s
      = (calls, .finished (.ok report), s')) :
    (∀ x v, (view s').table x = some v → planner.IsCurrent v) ∧
      ∀ x, (view s').table x = none ↔ (view s).table x = none := by
  have hSystem := run_init hMeets (fun _ => planner.IsCurrent) hCheckpoint hRun
  have hHolds : System.Holds (fun _ : Unit => (Sweep.new planner).withBatchSize batchSize)
      (fun _ _ => True) (.init (view s).table : System C R E Unit) :=
    System.holds_init fun _ _ _ => trivial
  have hSound := System.Sound.run (fun _ => rfl) hHolds (System.sound_init _) hSystem
  obtain ⟨-, hShared⟩ := System.shared_run (fun _ => rfl) (fun _ _ _ => trivial) hHolds hSystem
  have hTraced := (Traced.init (view s).table).run hShared
  refine ⟨fun x v hStored => ?_, hTraced.absent⟩
  exact hSound.workers () _ rfl x v hStored

/-- **A rewrite is a fixed point.** What a plan writes is current and is planned without a
write. So after a run from no checkpoint that returned `Ok`, with no writer active, any other
run from no checkpoint makes no update and leaves every row as it is; it returns, when the
store answers, and reports every row as current (fewer than 2^64, which the counter holds). -/
theorem rewrite_fixed_point (planner : RowPlanner prim F R) :
    (∀ row ciphertext indexes draw outcome write,
      planner.planRow row ciphertext indexes draw = .ok outcome → outcome.write = some write →
      planner.classifyRow row write.ciphertext write.indexes = .ok .current ∧
      ∀ draw', planner.planRow row write.ciphertext write.indexes draw'
        = .ok ⟨.current, none⟩) ∧
    ∀ (batchSize batchSize' : Nat) (S : Type) (store : Store S C R E) (view : S → Database C R)
      (entries : List (C × StoredRow R)) (draws : List (Option Nonce)) (calls : List (Call C R))
      (report : SweepReport) (s s' t : S), store.Meets view → Enumerates (view s).table entries →
      (view s).checkpoint = none →
      ((Sweep.new planner).withBatchSize batchSize).run store draws .loadingCheckpoint s
        = (calls, .finished (.ok report), s') →
      view t = ⟨(view s').table, none⟩ →
      (∀ draws' calls' state t',
        ((Sweep.new planner).withBatchSize batchSize').run store draws' .loadingCheckpoint t
          = (calls', state, t') →
        (∀ call ∈ calls', ∀ row replacement, call ≠ .update row replacement) ∧
        ((view t').table = (view s').table ∨
          ∃ error, state = .finished (.error (.store error)))) ∧
      (store.Answers → ∃ steps, ∀ draws' : List (Option Nonce), steps ≤ draws'.length →
        ∃ calls' t',
          ((Sweep.new planner).withBatchSize batchSize').run store draws' .loadingCheckpoint t
            = (calls', .finished (.ok { current := entries.length }), t') ∧
          (view t').table = (view s').table) := by
  constructor
  · intro row ciphertext indexes draw outcome write hPlan hWrite
    have hCurrent := RowPlanner.classifyRow_write hPlan hWrite row
    exact ⟨hCurrent, RowPlanner.planRow_current hCurrent⟩
  · intro batchSize batchSize' S store view entries draws calls report s s' t hMeets hEntries
      hCheckpoint hFirst hView
    obtain ⟨hCurrent, hKeys⟩ := run_converges hMeets hCheckpoint hFirst
    have hTable : (view t).table = (view s').table := by rw [hView]
    have hUntouched : ∀ x v, (view t).table x = some v → planner.Untouched v := by
      intro x v hStored
      exact RowPlanner.untouched_iff.mpr (Or.inl (hCurrent x v (hTable ▸ hStored)))
    have hQuiet : ∀ draws' calls' state t',
        ((Sweep.new planner).withBatchSize batchSize').run store draws' .loadingCheckpoint t
          = (calls', state, t') →
        (∀ call ∈ calls', ∀ row replacement, call ≠ .update row replacement) ∧
        ((view t').table = (view s').table ∨
          ∃ error, state = .finished (.error (.store error))) := by
      intro draws' calls' state t' hRun
      rw [← hTable]
      refine run_quiet hMeets draws' hUntouched ?_ hRun
      trivial
    refine ⟨hQuiet, fun hAnswers => ?_⟩
    obtain ⟨entries', hEntries', hLength⟩ := hEntries.of_keys hKeys
    have hEvery : ∀ e ∈ entries', planner.IsCurrent e.2 :=
      fun e he => hCurrent e.1 e.2 ((hEntries'.mem_iff e).mp he)
    obtain ⟨steps, hReturns⟩ := returns_current ((Sweep.new planner).withBatchSize batchSize')
      hMeets hAnswers hEvery (hTable ▸ hEntries') (by rw [hView])
    refine ⟨steps, fun draws' hSteps => ?_⟩
    obtain ⟨calls', t', hRun⟩ := hReturns draws' hSteps
    rw [hLength] at hRun
    refine ⟨calls', t', hRun, ?_⟩
    obtain ⟨-, hSame | ⟨error, hError⟩⟩ := hQuiet draws' calls' _ t' hRun
    · exact hSame
    · cases hError

end Sweep

namespace Sweep

/-- Once the legacy row of the vectors is sealed, a run from no checkpoint finds one current
row. -/
theorem rewrite_fixed_point_vector : ∃ steps, ∀ draws : List (Option Nonce), steps ≤ draws.length →
    ∃ calls m, (Vectors.sweeps ()).run MemoryStore.store draws .loadingCheckpoint
      (.single 7 Vectors.sealedRow none) = (calls, .finished (.ok { current := 1 }), m) := by
  have hFirst := MemoryStore.run_single 7 Vectors.legacyRow (Vectors.planRow_plaintext [])
  have hAnswers : (MemoryStore.store (C := Nat) (R := Unit)).Answers := by
    intro call m hCall
    cases call with
    | update row replacement => exact absurd rfl (hCall row replacement)
    | loadCheckpoint => exact ⟨_, rfl⟩
    | saveCheckpoint cursor => exact ⟨_, rfl⟩
    | loadBatch after limit => exact ⟨_, rfl⟩
  obtain ⟨-, hSecond⟩ := (rewrite_fixed_point Vectors.planner).2 0 0 _ _ _ _ _ _ _ _ _
    (.single 7 Vectors.sealedRow none) MemoryStore.meets
    (MemoryStore.single 7 Vectors.legacyRow none).ascending.enumerates rfl (Prod.ext rfl hFirst) rfl
  obtain ⟨steps, hSteps⟩ := hSecond hAnswers
  refine ⟨steps, fun draws hLength => ?_⟩
  obtain ⟨calls', m, hSecondRun, -⟩ := hSteps draws hLength
  exact ⟨calls', m, hSecondRun⟩

end Sweep

end Cryptbox

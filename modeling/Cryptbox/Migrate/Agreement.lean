import Cryptbox.Migrate.Rewrite

/-!
# The classifier and the planner agree

`classify_row` and `plan_row` decide the same thing twice: the classifier stops at the first
component that is stale, the planner examines all of them before it decides. Where the
classifier fails it has found every component before the failing one fresh, so the planner
fails there too; a component that the classifier never reached can only fail the planner.

* `RowPlanner.planRow_error`: an error of the classifier is the planner's.
* `RowPlanner.planRow_written`: which plans write.
* `RowPlanner.classification_agrees`: the two functions together.
-/

namespace Cryptbox

open Base Envelope

namespace RowPlanner

variable {prim : Primitives} {F : Seal} {R : Type} {planner : RowPlanner prim F R} {row : R}
  {context : SealContext} {ciphertext : Bytes} {indexes : List Bytes} {outcome : RowOutcome}
  {f : Failure}

/-- The planner's loop over the columns fails as the classifier's does. -/
theorem staleColumns_error {columns : List (IndexColumn prim F × Bytes)}
    (h : anyStale columns = .error f) :
    columns.mapM (fun column => column.1.isStale column.2) = .error f := by
  obtain ⟨before, c, after, rfl, hBefore, hc⟩ := anyStale_eq_error.mp h
  apply mapM_append_error
  · intro b hb
    exact ⟨false, hBefore b hb⟩
  · exact hc

/-- **An error of the classifier is the planner's**, whatever nonce the planner draws. -/
theorem planRow_error (h : planner.classifyRow row ciphertext indexes = .error f)
    (draw : Option Nonce) : planner.planRow row ciphertext indexes draw = .error f := by
  rcases bind_eq_error.mp h with hArity | ⟨_, hArity, h⟩
  · exact bind_eq_error.mpr (Or.inl hArity)
  have hArity : indexes.length = planner.indexes.length := ensure_eq_ok.mp hArity
  rcases inspectCiphertext_cases ciphertext with ⟨-, l, hFits, rfl, hInspect⟩ | ⟨-, hInspect⟩ |
    ⟨-, e, hBad, hInspect⟩
  · rw [hInspect] at h
    rw [planRow_bytes planner row hArity hFits]
    rcases bind_eq_error.mp h with hReseal | ⟨stale, hReseal, h⟩
    · exact bind_eq_error.mpr (Or.inl hReseal)
    cases stale with
    | true => cases h
    | false =>
      -- The envelope is fresh, so both functions go on to the columns.
      rcases bind_eq_error.mp h with hColumns | ⟨stale, hColumns, h⟩
      · have hPlan := staleColumns_error hColumns
        exact bind_eq_error.mpr (Or.inr ⟨false, hReseal, bind_eq_error.mpr (Or.inl hPlan)⟩)
      · cases stale <;> cases h
  · rw [hInspect] at h
    cases h
  · rw [hInspect] at h
    have hFailure : f = .err e := by
      cases e <;> first | exact hBad.elim | exact (Except.error.inj h).symm
    rw [hFailure]
    exact planRow_malformed planner row hArity hBad hInspect draw

variable {draw : Option Nonce}

/-- A plan writes exactly when it does not find the row current. -/
theorem planRow_written (h : planner.planRow row ciphertext indexes draw = .ok outcome) :
    outcome.write.isSome ↔ outcome.state ≠ .current := by
  obtain ⟨-, ⟨rfl, -⟩ | ⟨write, plaintext, rfl, -⟩ | ⟨write, plaintext, value, encoded, rfl, -⟩⟩ :=
    planRow_cases h
  · simp [RowOutcome.unchanged]
  · simp
  · simp

/-- A row is classified as current exactly when it is planned without a write. -/
theorem classifyRow_current_iff (draw : Option Nonce) :
    planner.classifyRow row ciphertext indexes = .ok .current ↔
      ∃ outcome, planner.planRow row ciphertext indexes draw = .ok outcome ∧
        outcome.write = none := by
  constructor
  · intro h
    exact ⟨_, planRow_current h draw, rfl⟩
  · intro h
    obtain ⟨outcome, hPlan, hWrite⟩ := h
    exact classifyRow_unchanged hPlan hWrite

/-- The rows that the two functions tell apart: the classifier calls them legacy or stale, and
the planner fails on them. -/
theorem differs_iff (planner : RowPlanner prim F R) (row : R) (ciphertext : Bytes)
    (indexes : List Bytes) (draw : Option Nonce) :
    planner.classifyRow row ciphertext indexes
        ≠ RowOutcome.state <$> planner.planRow row ciphertext indexes draw ↔
      (planner.classifyRow row ciphertext indexes = .ok .legacy ∨
        planner.classifyRow row ciphertext indexes = .ok .stale) ∧
      ∃ f, planner.planRow row ciphertext indexes draw = .error f := by
  cases hPlan : planner.planRow row ciphertext indexes draw with
  | ok outcome =>
    rw [planRow_state hPlan]
    simp
  | error f =>
    cases hClassify : planner.classifyRow row ciphertext indexes with
    | error g =>
      have hSame := (planRow_error hClassify draw).symm.trans hPlan
      rw [Except.error.inj hSame]
      simp
    | ok state =>
      cases state with
      | current =>
        cases hPlan.symm.trans (planRow_current hClassify draw)
      | stale => simp
      | legacy => simp

/-- **The classifier and the planner agree** on every row, for every nonce that the planner may
draw: on states, on errors, on which rows need a write, and on every row but those that are
classified as legacy or stale and cannot be rewritten. -/
theorem classification_agrees (planner : RowPlanner prim F R) (row : R) (ciphertext : Bytes)
    (indexes : List Bytes) (draw : Option Nonce) :
    (∀ outcome, planner.planRow row ciphertext indexes draw = .ok outcome →
      planner.classifyRow row ciphertext indexes = .ok outcome.state) ∧
    (∀ f, planner.classifyRow row ciphertext indexes = .error f →
      planner.planRow row ciphertext indexes draw = .error f) ∧
    (planner.classifyRow row ciphertext indexes = .ok .current ↔
      ∃ outcome, planner.planRow row ciphertext indexes draw = .ok outcome ∧
        outcome.write = none) ∧
    (∀ outcome, planner.planRow row ciphertext indexes draw = .ok outcome →
      (outcome.write.isSome ↔ outcome.state ≠ .current)) ∧
    (planner.classifyRow row ciphertext indexes
        ≠ RowOutcome.state <$> planner.planRow row ciphertext indexes draw ↔
      (planner.classifyRow row ciphertext indexes = .ok .legacy ∨
        planner.classifyRow row ciphertext indexes = .ok .stale) ∧
      ∃ f, planner.planRow row ciphertext indexes draw = .error f) := by
  refine ⟨?_, ?_, classifyRow_current_iff draw, ?_, differs_iff planner row ciphertext indexes draw⟩
  · intro outcome hPlan
    exact planRow_state hPlan
  · intro f hClassify
    exact planRow_error hClassify draw
  · intro outcome hPlan
    exact planRow_written hPlan

end RowPlanner

end Cryptbox

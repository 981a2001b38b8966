import Mathlib.Tactic.Common

/-!
# Code that keeps a log

Code appends events to a log, and fails or returns; the log stays as it is when the code fails.
What is known of every event, of the last event before a failure and of the value is put
together along the code.

* `Runs`: what a piece of code appends, and how it ends, from every log.
* `Runs.bind`: one piece after the other.
* `Outcome.value`, `Outcome.last`, `Outcome.forall_mem`: what follows for a run.
-/

namespace Cryptbox.Base

variable {E F α β : Type}

/-- Code that appends to a log of `E`, and may fail with an `F`. -/
abbrev Logged (E F : Type) := ExceptT F (StateM (List E))

def emit (event : E) : Logged E F Unit := modify (· ++ [event])

/-- The run of code from a log: how it ends, and the log it leaves. -/
def Logged.from (m : Logged E F α) (log : List E) : Except F α × List E := m.run.run log

/-- How a run ends: with a value, or with a failure after one last event. -/
inductive Outcome (G : E → Prop) (R : F → E → Prop) (P : α → Prop) (log : List E) :
    Except F α × List E → Prop
  | returned {value : α} {events : List E} (hEvents : ∀ event ∈ events, G event)
      (hValue : P value) : Outcome G R P log (.ok value, log ++ events)
  | failed {failure : F} {events : List E} {event : E} (hEvents : ∀ event ∈ events, G event)
      (hLast : R failure event) :
      Outcome G R P log (.error failure, log ++ (events ++ [event]))

/-- From every log, the code appends events with `G`, and returns a value with `P`, or fails
after an event as `R` says. -/
def Runs (G : E → Prop) (R : F → E → Prop) (m : Logged E F α) (P : α → Prop) : Prop :=
  ∀ log, Outcome G R P log (m.from log)

variable {G : E → Prop} {R : F → E → Prop} {P : α → Prop} {Q : β → Prop}

theorem outcome_returned {log : List E} {value : α} {event : E} (hEvent : G event)
    (hValue : P value) : Outcome G R P log (.ok value, log ++ [event]) :=
  .returned (List.forall_mem_singleton.mpr hEvent) hValue

theorem outcome_failed {log : List E} {failure : F} {event : E} (h : R failure event) :
    Outcome G R P log (.error failure, log ++ [event]) :=
  .failed (List.forall_mem_nil _) h

section

variable {log : List E} {result : Except F α × List E} {a : α} {failure : F}

theorem Outcome.value (h : Outcome G R P log result) (hOk : result.1 = .ok a) : P a := by
  cases h with
  | returned hEvents hValue =>
    cases hOk
    exact hValue
  | failed hEvents hLast => cases hOk

/-- A failure has its last event. -/
theorem Outcome.last (h : Outcome G R P log result) (hError : result.1 = .error failure) :
    ∃ event ∈ result.2, R failure event := by
  cases h with
  | returned hEvents hValue => cases hError
  | @failed failure events event hEvents hLast =>
    cases hError
    exact ⟨event, by simp, hLast⟩

/-- The events of code that returns. -/
theorem Outcome.events (h : Outcome G R P [] result) (hOk : result.1 = .ok a) :
    ∀ event ∈ result.2, G event := by
  cases h with
  | returned hEvents hValue => exact hEvents
  | failed hEvents hLast => cases hOk

/-- What is known of every event, whether or not the code returns. -/
theorem Outcome.forall_mem {H : E → Prop} (h : Outcome G R P [] result)
    (hG : ∀ event, G event → H event) (hR : ∀ failure event, R failure event → H event) :
    ∀ event ∈ result.2, H event := by
  cases h with
  | returned hEvents hValue => exact fun event hMem => hG event (hEvents event hMem)
  | @failed failure events last hEvents hLast =>
    intro event hMem
    rw [List.nil_append] at hMem
    rcases List.mem_append.mp hMem with hEvent | hEvent
    · exact hG event (hEvents event hEvent)
    · rw [List.mem_singleton.mp hEvent]
      exact hR failure last hLast

end

theorem from_bind (m : Logged E F α) (f : α → Logged E F β) (log : List E) :
    (m >>= f).from log = (match m.from log with
      | (.ok value, log') => (f value).from log'
      | (.error failure, log') => (.error failure, log')) := by
  unfold Logged.from
  rw [ExceptT.run_bind, StateT.run_bind]
  obtain ⟨result, log'⟩ := m.run.run log
  cases result <;> rfl

theorem runs_pure {value : α} (h : P value) : Runs G R (pure value) P := by
  intro log
  have hReturned : Outcome G R P log (.ok value, log ++ []) := .returned (List.forall_mem_nil _) h
  rwa [List.append_nil] at hReturned

theorem runs_emit {event : E} (h : G event) : Runs G R (emit event) fun _ => True :=
  fun _ => outcome_returned h trivial

/-- **One piece** after the other. -/
theorem Runs.bind {m : Logged E F α} {f : α → Logged E F β} (h : Runs G R m P)
    (hf : ∀ value, P value → Runs G R (f value) Q) : Runs G R (m >>= f) Q := by
  intro log
  have hOutcome := h log
  rw [from_bind]
  generalize m.from log = result at hOutcome ⊢
  cases hOutcome with
  | failed hEvents hLast => exact .failed hEvents hLast
  | @returned value events hEvents hValue =>
    have hNext := hf value hValue (log ++ events)
    dsimp only
    generalize (f value).from (log ++ events) = result at hNext ⊢
    cases hNext with
    | returned hEvents' hValue' =>
      rw [List.append_assoc]
      exact .returned (List.forall_mem_append.mpr ⟨hEvents, hEvents'⟩) hValue'
    | failed hEvents' hLast =>
      rw [List.append_assoc, ← List.append_assoc events]
      exact .failed (List.forall_mem_append.mpr ⟨hEvents, hEvents'⟩) hLast

end Cryptbox.Base

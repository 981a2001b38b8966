import Cryptbox.Base.Rewriting

/-!
# Rolling out generations behind a gate

Agents share items. Each holds some generations, which it can read, and writes with one of
them. A generation passes the gate when every running agent holds it; an agent starts only if it
holds whatever has passed the gate and writes with a generation that has. Generations retire when
no agent writes with them and no item is left under them.

* `Fleet.Safe.step`, `Fleet.Safe.run`: the gate keeps the fleet safe.
* `Fleet.Safe.reads`: every agent reads every item.
-/

namespace Cryptbox.Base

universe u v w

variable {P : Type u} {G : Type v} {X : Type w}

/-- What an agent can read, and what it writes with. -/
structure Agent (G : Type v) where
  holds : G → Prop
  writes : G

structure Fleet (P : Type u) (G : Type v) (X : Type w) where
  agents : P → Option (Agent G)
  /-- The generations that passed the gate. -/
  accepted : G → Prop
  /-- The generation of every item. -/
  items : X → Option G

namespace Fleet

/-- No agent runs, and there is no item. -/
def init : Fleet P G X := ⟨fun _ => none, fun _ => False, fun _ => none⟩

/-- Every agent reads every generation that passed the gate, and nothing else is written. -/
structure Safe (s : Fleet P G X) : Prop where
  holds : ∀ p a, s.agents p = some a → ∀ g, s.accepted g → a.holds g
  writes : ∀ p a, s.agents p = some a → s.accepted a.writes
  items : ∀ x g, s.items x = some g → s.accepted g

theorem safe_init : (init : Fleet P G X).Safe := by
  constructor
  · rintro _ _ ⟨⟩
  · rintro _ _ ⟨⟩
  · rintro _ _ ⟨⟩

/-- **Every agent reads every item.** -/
theorem Safe.reads {s : Fleet P G X} (h : s.Safe) {p : P} {a : Agent G} {x : X} {g : G}
    (hAgent : s.agents p = some a) (hItem : s.items x = some g) : a.holds g :=
  h.holds p a hAgent g (h.items x g hItem)

variable [DecidableEq P] [DecidableEq X]

inductive Step : Fleet P G X → Fleet P G X → Prop
  /-- The gate: every agent that runs holds the generation. -/
  | accept (s : Fleet P G X) (g : G) (hReady : ∀ p a, s.agents p = some a → a.holds g) :
      Step s ⟨s.agents, fun g' => g' = g ∨ s.accepted g', s.items⟩
  | deploy (s : Fleet P G X) (p : P) (a : Agent G) (hHolds : ∀ g, s.accepted g → a.holds g)
      (hWrites : s.accepted a.writes) :
      Step s ⟨Function.update s.agents p (some a), s.accepted, s.items⟩
  | stop (s : Fleet P G X) (p : P) :
      Step s ⟨Function.update s.agents p none, s.accepted, s.items⟩
  | write (s : Fleet P G X) (p : P) (a : Agent G) (x : X) (hAgent : s.agents p = some a) :
      Step s ⟨s.agents, s.accepted, Function.update s.items x (some a.writes)⟩
  | erase (s : Fleet P G X) (x : X) :
      Step s ⟨s.agents, s.accepted, Function.update s.items x none⟩
  | retire (s : Fleet P G X) (kept : G → Prop) (hKept : ∀ g, kept g → s.accepted g)
      (hWriters : ∀ p a, s.agents p = some a → kept a.writes)
      (hItems : ∀ x g, s.items x = some g → kept g) :
      Step s ⟨s.agents, kept, s.items⟩

abbrev Run : Fleet P G X → Fleet P G X → Prop := Relation.ReflTransGen Step

theorem Safe.step {s t : Fleet P G X} (h : s.Safe) (hStep : Step s t) : t.Safe := by
  cases hStep with
  | accept g hReady =>
    refine ⟨fun p a hAgent g' hAccepted => ?_, fun p a hAgent => Or.inr (h.writes p a hAgent),
      fun x g' hItem => Or.inr (h.items x g' hItem)⟩
    rcases hAccepted with rfl | hAccepted
    · exact hReady p a hAgent
    · exact h.holds p a hAgent g' hAccepted
  | deploy p a hHolds hWrites =>
    refine ⟨?_, ?_, h.items⟩
    · apply forall_update h.holds
      rintro _ ⟨⟩
      exact hHolds
    · apply forall_update h.writes
      rintro _ ⟨⟩
      exact hWrites
  | stop p =>
    refine ⟨?_, ?_, h.items⟩
    · apply forall_update h.holds
      rintro _ ⟨⟩
    · apply forall_update h.writes
      rintro _ ⟨⟩
  | write p a x hAgent =>
    refine ⟨h.holds, h.writes, ?_⟩
    apply forall_update h.items
    rintro _ ⟨⟩
    exact h.writes p a hAgent
  | erase x =>
    refine ⟨h.holds, h.writes, ?_⟩
    apply forall_update h.items
    rintro _ ⟨⟩
  | retire kept hKept hWriters hItems =>
    exact ⟨fun p a hAgent g hGeneration => h.holds p a hAgent g (hKept g hGeneration), hWriters,
      hItems⟩

/-- **The gate keeps the fleet safe.** -/
theorem Safe.run {s t : Fleet P G X} (h : s.Safe) (hRun : Run s t) : t.Safe :=
  invariant_run (fun hSafe hStep => Safe.step hSafe hStep) hRun h

end Fleet

end Cryptbox.Base

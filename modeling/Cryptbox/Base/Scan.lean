import Cryptbox.Base.Except

/-!
# Index loops

Two loops over an index that may stop early: upwards, until a test holds, and downwards, to the
last index at which it does. A test may fail, as one that reads out of range does; where no test
fails, neither does the loop.

* `scan_decides`: whether the test holds at some index.
* `scanBack_spec`: the last index at which it holds, or zero.
-/

namespace Cryptbox.Base

universe u

variable {ε : Type u}

/-- A fallible test succeeds, and says whether `P` holds. -/
def Decides (test : Except ε Bool) (P : Prop) : Prop := ∃ b, test = .ok b ∧ (b = true ↔ P)

namespace Decides

variable {test : Except ε Bool} {P Q : Prop}

theorem ok (b : Bool) : Decides (.ok b : Except ε Bool) (b = true) := ⟨b, rfl, Iff.rfl⟩

theorem congr (h : Decides test P) (hIff : P ↔ Q) : Decides test Q := by
  obtain ⟨b, hTest, hb⟩ := h
  exact ⟨b, hTest, hb.trans hIff⟩

theorem eq [Decidable P] (h : Decides test P) : test = .ok (decide P) := by
  obtain ⟨b, rfl, hb⟩ := h
  exact congrArg Except.ok (Bool.eq_iff_iff.mpr (hb.trans decide_eq_true_iff.symm))

theorem eq_ok_true (h : Decides test P) : test = .ok true ↔ P := by
  obtain ⟨b, rfl, hb⟩ := h
  rw [← hb]
  exact ⟨Except.ok.inj, congrArg Except.ok⟩

theorem not (h : Decides test P) : Decides (do return !(← test)) ¬ P := by
  obtain ⟨b, rfl, hb⟩ := h
  refine ⟨!b, rfl, ?_⟩
  rw [← hb]
  cases b <;> simp

end Decides

/-- `while index < stop { if test(index) { return true; } index += 1; } false`. -/
def scan (test : Nat → Except ε Bool) (index stop : Nat) : Except ε Bool :=
  if index < stop then do
    if ← test index then return true
    scan test (index + 1) stop
  else return false
termination_by stop - index

/-- `while index > 0 { index -= 1; if test(index) { break; } } index`. -/
def scanBack (test : Nat → Except ε Bool) : Nat → Except ε Nat
  | 0 => return 0
  | index + 1 => do
    if ← test index then return index
    scanBack test index

variable {test : Nat → Except ε Bool} {P : Nat → Prop}

/-- **The loop upwards**, when no test fails. -/
theorem scan_decides {index stop : Nat}
    (hTest : ∀ i, index ≤ i → i < stop → Decides (test i) (P i)) :
    Decides (scan test index stop) (∃ i, index ≤ i ∧ i < stop ∧ P i) := by
  induction hPasses : stop - index generalizing index with
  | zero =>
    refine ⟨false, ?_, iff_of_false Bool.false_ne_true ?_⟩
    · rw [scan, if_neg (by omega)]
      rfl
    · rintro ⟨i, hIndex, hStop, -⟩
      omega
  | succ passes ih =>
    obtain ⟨first, hFirst, hHolds⟩ := hTest index (Nat.le_refl index) (by omega)
    rw [scan, if_pos (by omega), hFirst, ok_bind]
    cases first with
    | true => exact ⟨true, rfl, iff_of_true rfl ⟨index, by omega, by omega, hHolds.mp rfl⟩⟩
    | false =>
      have hRest := ih (fun i (hIndex : index + 1 ≤ i) hStop => hTest i (by omega) hStop)
        (by omega)
      refine hRest.congr ⟨?_, ?_⟩
      · rintro ⟨i, hIndex, hStop, hi⟩
        exact ⟨i, by omega, hStop, hi⟩
      · rintro ⟨i, hIndex, hStop, hi⟩
        have hNe : i ≠ index := by
          rintro rfl
          exact Bool.false_ne_true (hHolds.mpr hi)
        exact ⟨i, by omega, hStop, hi⟩

/-- **The loop downwards**, when no test fails. -/
theorem scanBack_spec {index : Nat} (hTest : ∀ i, i < index → Decides (test i) (P i)) :
    ∃ last, scanBack test index = .ok last ∧
      ((last < index ∧ P last ∧ ∀ i, last < i → i < index → ¬ P i) ∨
        (last = 0 ∧ ∀ i, i < index → ¬ P i)) := by
  induction index with
  | zero => exact ⟨0, rfl, Or.inr ⟨rfl, fun i hi => absurd hi (Nat.not_lt_zero i)⟩⟩
  | succ index ih =>
    obtain ⟨first, hFirst, hHolds⟩ := hTest index (Nat.lt_succ_self index)
    rw [scanBack, hFirst, ok_bind]
    cases first with
    | true => exact ⟨index, rfl, Or.inl ⟨Nat.lt_succ_self index, hHolds.mp rfl, by omega⟩⟩
    | false =>
      have hNot : ¬ P index := fun h => Bool.false_ne_true (hHolds.mpr h)
      obtain ⟨last, hScan, hLast⟩ := ih fun i hi => hTest i (by omega)
      refine ⟨last, hScan, ?_⟩
      rcases hLast with ⟨hLt, hp, hAll⟩ | ⟨rfl, hNone⟩
      · refine Or.inl ⟨by omega, hp, fun i hLast hi => ?_⟩
        rcases Nat.lt_succ_iff_lt_or_eq.mp hi with hBelow | rfl
        · exact hAll i hLast hBelow
        · exact hNot
      · refine Or.inr ⟨rfl, fun i hi => ?_⟩
        rcases Nat.lt_succ_iff_lt_or_eq.mp hi with hBelow | rfl
        · exact hNone i hBelow
        · exact hNot

end Cryptbox.Base

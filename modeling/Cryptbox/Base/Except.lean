import Mathlib.Data.List.Forall2
import Mathlib.Tactic.Common

/-!
# Inversion of fallible computations

`Except` programs are read back from their results: a successful `x >>= f` had a
successful `x`, and a failed one failed in `x` or after it. Every proof about a
fallible function starts with one of these rules, so that no proof unfolds the monad.

* `bind_eq_ok`, `bind_eq_error`, `map_eq_ok`: one step.
* `mapM_eq_ok`: a loop that collects results succeeds exactly when every step does, and
  the results stand in the order of the inputs.
-/

namespace Cryptbox.Base

universe u v w

variable {ε : Type u} {α β : Type v}

/-! ## One step -/

theorem bind_eq_ok {x : Except ε α} {f : α → Except ε β} {b : β} :
    (x >>= f) = .ok b ↔ ∃ a, x = .ok a ∧ f a = .ok b := by
  cases x with
  | error e => simp [bind, Except.bind]
  | ok a => simp [bind, Except.bind]

theorem bind_eq_error {x : Except ε α} {f : α → Except ε β} {e : ε} :
    (x >>= f) = .error e ↔ x = .error e ∨ ∃ a, x = .ok a ∧ f a = .error e := by
  cases x with
  | error e' => simp [bind, Except.bind]
  | ok a => simp [bind, Except.bind]

@[simp] theorem ok_bind (a : α) (f : α → Except ε β) : ((.ok a : Except ε α) >>= f) = f a := rfl

@[simp] theorem error_bind (e : ε) (f : α → Except ε β) :
    ((.error e : Except ε α) >>= f) = .error e := rfl

theorem map_eq_ok {x : Except ε α} {f : α → β} {b : β} :
    f <$> x = .ok b ↔ ∃ a, x = .ok a ∧ f a = b := by
  cases x <;> simp

theorem map_eq_error {x : Except ε α} {f : α → β} {e : ε} :
    f <$> x = .error e ↔ x = .error e := by
  cases x <;> simp

@[simp] theorem pure_eq_ok {a b : α} : (pure a : Except ε α) = .ok b ↔ a = b := by
  simp [pure, Except.pure]

@[simp] theorem isOk_ok {a : α} : (.ok a : Except ε α).isOk = true := rfl

@[simp] theorem isOk_error {e : ε} : (.error e : Except ε α).isOk = false := rfl

/-- A program without an error has a result. -/
theorem exists_eq_ok {x : Except ε α} : (∃ a, x = .ok a) ↔ ∀ e, x ≠ .error e := by
  cases x <;> simp

/-! ## Loops -/

section

variable {α : Type w}

theorem mapM_eq_ok {f : α → Except ε β} {xs : List α} {ys : List β} :
    xs.mapM f = .ok ys ↔ List.Forall₂ (fun x y => f x = .ok y) xs ys := by
  induction xs generalizing ys with
  | nil =>
    rw [List.mapM_nil, pure_eq_ok, List.forall₂_nil_left_iff]
    exact eq_comm
  | cons x xs ih =>
    rw [List.mapM_cons, bind_eq_ok]
    constructor
    · intro h
      obtain ⟨y, hy, h⟩ := h
      obtain ⟨ys', hys, h⟩ := bind_eq_ok.mp h
      obtain rfl := pure_eq_ok.mp h
      exact .cons hy (ih.mp hys)
    · intro h
      rcases h with _ | ⟨hy, hys⟩
      exact ⟨_, hy, bind_eq_ok.mpr ⟨_, ih.mpr hys, rfl⟩⟩

/-- A loop fails as its first failing step does. -/
theorem mapM_append_error {f : α → Except ε β} {before after : List α} {x : α} {e : ε}
    (hBefore : ∀ b ∈ before, ∃ y, f b = .ok y) (hx : f x = .error e) :
    (before ++ x :: after).mapM f = .error e := by
  induction before with
  | nil => rw [List.nil_append, List.mapM_cons, hx, error_bind]
  | cons b before ih =>
    obtain ⟨⟨y, hy⟩, hBefore⟩ := List.forall_mem_cons.mp hBefore
    rw [List.cons_append, List.mapM_cons, hy, ok_bind, ih hBefore, error_bind]

end

/-- The same loop without errors to tell apart. -/
theorem option_mapM_eq_some {α : Type w} {β : Type v} {f : α → Option β} {xs : List α}
    {ys : List β} : xs.mapM f = some ys ↔ List.Forall₂ (fun x y => f x = some y) xs ys := by
  induction xs generalizing ys with
  | nil =>
    rw [List.mapM_nil, List.forall₂_nil_left_iff]
    exact Option.some_inj.trans eq_comm
  | cons x xs ih =>
    rw [List.mapM_cons]
    simp only [Option.bind_eq_bind, Option.bind_eq_some_iff, Option.pure_def, Option.some_inj]
    constructor
    · intro h
      obtain ⟨y, hy, ys', hys, rfl⟩ := h
      exact .cons hy (ih.mp hys)
    · intro h
      rcases h with _ | ⟨hy, hys⟩
      exact ⟨_, hy, _, ih.mpr hys, rfl⟩

theorem forall₂_exists {α : Type u} {β : Type v} {R : α → β → Prop} {xs : List α} {ys : List β}
    (h : List.Forall₂ R xs ys) {x : α} (hx : x ∈ xs) : ∃ y ∈ ys, R x y := by
  induction h with
  | nil => cases hx
  | cons hxy h ih =>
    rcases List.mem_cons.mp hx with rfl | hx
    · exact ⟨_, List.mem_cons_self, hxy⟩
    · obtain ⟨y, hy, hR⟩ := ih hx
      exact ⟨y, List.mem_cons_of_mem _ hy, hR⟩

theorem exists_forall₂ {α : Type u} {β : Type v} {R : α → β → Prop} {xs : List α}
    (h : ∀ x ∈ xs, ∃ y, R x y) : ∃ ys, List.Forall₂ R xs ys := by
  induction xs with
  | nil => exact ⟨[], .nil⟩
  | cons x xs ih =>
    obtain ⟨⟨y, hy⟩, hRest⟩ := List.forall_mem_cons.mp h
    obtain ⟨ys, hys⟩ := ih hRest
    exact ⟨y :: ys, .cons hy hys⟩

theorem forall₂_getElem? {α : Type u} {β : Type v} {R : α → β → Prop} {xs : List α} {ys : List β}
    (h : List.Forall₂ R xs ys) {i : Nat} {x : α} {y : β} (hx : xs[i]? = some x)
    (hy : ys[i]? = some y) : R x y := by
  obtain ⟨hi, rfl⟩ := List.getElem?_eq_some_iff.mp hx
  obtain ⟨hi', rfl⟩ := List.getElem?_eq_some_iff.mp hy
  exact h.get hi hi'

/-- Two loops one after the other, the second over the inputs and results of the first. -/
theorem forall₂_of_zip {α : Type u} {β : Type v} {γ : Type w} {S : α → β → Prop}
    {T : α × β → γ → Prop} {xs : List α} {ys : List β} {zs : List γ} (hS : List.Forall₂ S xs ys)
    (hT : List.Forall₂ T (xs.zip ys) zs) :
    List.Forall₂ (fun x z => ∃ y, S x y ∧ T (x, y) z) xs zs := by
  induction hS generalizing zs with
  | nil =>
    cases hT
    exact .nil
  | cons hxy hS ih =>
    rcases hT with _ | ⟨hxz, hT⟩
    exact .cons ⟨_, hxy, hxz⟩ (ih hT)

/-- A loop depends on its inputs only as its steps do. -/
theorem mapM_congr {ε : Type u} {α : Type w} {β : Type v} {f : α → Except ε β} {xs xs' : List α}
    (h : List.Forall₂ (fun x x' => f x = f x') xs xs') : xs.mapM f = xs'.mapM f := by
  induction h with
  | nil => rfl
  | cons hx h ih => rw [List.mapM_cons, List.mapM_cons, hx, ih]

/-- Two related lists, zipped with the results for the first. -/
theorem forall₂_zip_both {α : Type u} {β : Type v} {R : α → α → Prop} {S : α → β → Prop}
    {xs xs' : List α} {ys : List β} (hR : List.Forall₂ R xs xs') (hS : List.Forall₂ S xs ys) :
    List.Forall₂ (fun p p' => R p.1 p'.1 ∧ S p.1 p.2 ∧ p'.2 = p.2) (xs.zip ys) (xs'.zip ys) := by
  induction hR generalizing ys with
  | nil =>
    cases hS
    exact .nil
  | cons hx hR ih =>
    rcases hS with _ | ⟨hxy, hS⟩
    exact .cons ⟨hx, hxy, rfl⟩ (ih hS)

end Cryptbox.Base

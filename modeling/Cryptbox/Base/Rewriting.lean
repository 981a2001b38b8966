import Mathlib.Logic.Relation
import Mathlib.Logic.Function.Basic
import Mathlib.Tactic.Common

/-!
# Rewriting a shared store in place

A keyed store has owners, who put and erase entries as they like, and rewriters, who may
only replace the entry that is there by one that a rewrite rule allows for it. This is what
an atomic compare-and-swap gives a maintenance task. The state remembers what owners stored
last at every key, so that one can say what rewriting did to it.

* `Traced.run`: every entry is a chain of rewrites of what its owner stored last, and
  rewriters neither create nor remove entries.
* `Traced.related`: what one rewrite keeps between an entry and its replacement holds between
  what the owner stored last and the entry.
* `Everywhere.run`: what owners store and rewrites preserve holds of every entry.
* `Improves.step`: an entry either stays as it is or becomes good, when owners store and
  rewrites produce good entries only. `Clean` keys stay clean.
-/

namespace Cryptbox.Base

universe u v

variable {K : Type u} {V : Type v}

/-- A store with, for every key, the entry its owner stored last. -/
structure Shared (K : Type u) (V : Type v) where
  table : K → Option V
  origin : K → Option V

/-- What owners may store and what a rewrite may replace an entry by. -/
structure RewriteRules (K : Type u) (V : Type v) where
  Allowed : K → V → Prop
  Rewrite : K → V → V → Prop

/-- The key has no entry, or a good one. -/
def Clean (Good : K → V → Prop) (table : K → Option V) (x : K) : Prop :=
  ∀ v, table x = some v → Good x v

/-- Every entry stays as it is or becomes good. -/
def Improves (Good : K → V → Prop) (before after : K → Option V) : Prop :=
  ∀ x, after x = before x ∨ Clean Good after x

/-- What a step keeps, a run keeps. -/
theorem invariant_run {S : Type u} {Step : S → S → Prop} {P : S → Prop} {s t : S}
    (hStep : ∀ {a b}, P a → Step a b → P b) (hRun : Relation.ReflTransGen Step s t) (h : P s) :
    P t := by
  induction hRun with
  | refl => exact h
  | tail _ hLast ih => exact hStep ih hLast

/-! ## Getting better -/

namespace Improves

variable {Good : K → V → Prop}

theorem refl (table : K → Option V) : Improves Good table table := fun _ => Or.inl rfl

theorem clean {before after : K → Option V} (h : Improves Good before after) {x : K}
    (hx : Clean Good before x) : Clean Good after x := by
  rcases h x with hSame | hClean
  · rwa [Clean, hSame]
  · exact hClean

theorem trans {a b c : K → Option V} (hab : Improves Good a b) (hbc : Improves Good b c) :
    Improves Good a c := by
  intro x
  rcases hbc x with hSame | hClean
  · rcases hab x with hSame' | hClean
    · exact Or.inl (hSame.trans hSame')
    · exact Or.inr (hbc.clean hClean)
  · exact Or.inr hClean

end Improves

/-! ## Changing one entry -/

section

variable [DecidableEq K] {table : K → Option V} {x : K} {entry : Option V}

/-- What holds of every entry before and of the new one. -/
theorem forall_update {P : K → V → Prop} (h : ∀ y v, table y = some v → P y v)
    (hEntry : ∀ v, entry = some v → P x v) :
    ∀ y v, Function.update table x entry y = some v → P y v := by
  intro y v hv
  rw [Function.update_apply] at hv
  split at hv
  · next hy => exact hy ▸ hEntry v hv
  · exact h y v hv

theorem Improves.update {Good : K → V → Prop} (hEntry : ∀ v, entry = some v → Good x v) :
    Improves Good table (Function.update table x entry) := by
  intro y
  by_cases hy : y = x
  · refine Or.inr fun v hv => ?_
    rw [hy, Function.update_self] at hv
    exact hy ▸ hEntry v hv
  · exact Or.inl (Function.update_of_ne hy ..)

end

/-! ## Owners and rewriters -/

variable [DecidableEq K] {rules : RewriteRules K V}

/-- One atomic step of an owner or a rewriter. -/
inductive RewriteRules.Step (rules : RewriteRules K V) : Shared K V → Shared K V → Prop
  | put (s : Shared K V) (x : K) (v : V) (hAllowed : rules.Allowed x v) :
      Step rules s ⟨Function.update s.table x (some v), Function.update s.origin x (some v)⟩
  | erase (s : Shared K V) (x : K) :
      Step rules s ⟨Function.update s.table x none, Function.update s.origin x none⟩
  | rewrite (s : Shared K V) (x : K) (v v' : V) (hOld : s.table x = some v)
      (hRewrite : rules.Rewrite x v v') :
      Step rules s ⟨Function.update s.table x (some v'), s.origin⟩

abbrev RewriteRules.Run (rules : RewriteRules K V) : Shared K V → Shared K V → Prop :=
  Relation.ReflTransGen rules.Step

/-! ## Provenance -/

/-- Every entry is a chain of rewrites of what its owner stored last, and a key has an entry
exactly when its owner left one there. -/
structure Traced (rules : RewriteRules K V) (s : Shared K V) : Prop where
  absent : ∀ x, s.table x = none ↔ s.origin x = none
  chain : ∀ x v, s.table x = some v →
    ∃ o, s.origin x = some o ∧ Relation.ReflTransGen (rules.Rewrite x) o v

namespace Traced

omit [DecidableEq K] in
theorem init (table : K → Option V) : Traced rules ⟨table, table⟩ where
  absent _ := Iff.rfl
  chain _ v h := ⟨v, h, .refl⟩

theorem step {s t : Shared K V} (h : Traced rules s) (hStep : rules.Step s t) :
    Traced rules t := by
  cases hStep with
  | put x v hAllowed =>
    refine ⟨fun y => ?_, fun y w hw => ?_⟩
    · by_cases hy : y = x
      · subst hy
        simp
      · simpa [hy] using h.absent y
    · by_cases hy : y = x
      · subst hy
        simp only [Function.update_self, Option.some.injEq] at hw ⊢
        exact ⟨v, rfl, hw ▸ .refl⟩
      · simp only [ne_eq, hy, not_false_eq_true, Function.update_of_ne] at hw ⊢
        exact h.chain y w hw
  | erase x =>
    refine ⟨fun y => ?_, fun y w hw => ?_⟩
    · by_cases hy : y = x
      · subst hy
        simp
      · simpa [hy] using h.absent y
    · by_cases hy : y = x
      · subst hy
        simp at hw
      · simp only [ne_eq, hy, not_false_eq_true, Function.update_of_ne] at hw ⊢
        exact h.chain y w hw
  | rewrite x v v' hOld hRewrite =>
    refine ⟨fun y => ?_, fun y w hw => ?_⟩
    · by_cases hy : y = x
      · subst hy
        have := h.absent y
        rw [hOld] at this
        simpa using this
      · simpa [hy] using h.absent y
    · by_cases hy : y = x
      · subst hy
        simp only [Function.update_self, Option.some.injEq] at hw
        obtain ⟨o, hOrigin, hChain⟩ := h.chain y v hOld
        exact ⟨o, hOrigin, hw ▸ hChain.tail hRewrite⟩
      · simp only [ne_eq, hy, not_false_eq_true, Function.update_of_ne] at hw
        exact h.chain y w hw

theorem run {s t : Shared K V} (h : Traced rules s) (hRun : rules.Run s t) : Traced rules t := by
  induction hRun with
  | refl => exact h
  | tail _ hLast ih => exact ih.step hLast

omit [DecidableEq K] in
/-- **Every entry is related to what its owner stored**, as rewrites relate entries. -/
theorem related {s : Shared K V} (h : Traced rules s) {r : K → V → V → Prop}
    (hRefl : ∀ x v, r x v v) (hTrans : ∀ x a b c, r x a b → r x b c → r x a c)
    (hRewrite : ∀ x v v', rules.Rewrite x v v' → r x v v') {x : K} {o v : V}
    (hOrigin : s.origin x = some o) (hStored : s.table x = some v) : r x o v := by
  obtain ⟨o', hOrigin', hChain⟩ := h.chain x v hStored
  obtain rfl := Option.some.inj (hOrigin.symm.trans hOrigin')
  clear hStored
  induction hChain with
  | refl => exact hRefl x o
  | tail _ hLast ih => exact hTrans x o _ _ ih (hRewrite x _ _ hLast)

end Traced

/-! ## What holds of every entry -/

def Everywhere (P : K → V → Prop) (s : Shared K V) : Prop := ∀ x v, s.table x = some v → P x v

theorem Everywhere.step {P : K → V → Prop} {s t : Shared K V} (h : Everywhere P s)
    (hAllowed : ∀ x v, rules.Allowed x v → P x v)
    (hRewrite : ∀ x v v', rules.Rewrite x v v' → P x v → P x v') (hStep : rules.Step s t) :
    Everywhere P t := by
  cases hStep with
  | put x v hv =>
    apply forall_update h
    rintro _ ⟨⟩
    exact hAllowed x v hv
  | erase x =>
    apply forall_update h
    rintro _ ⟨⟩
  | rewrite x v v' hOld hv =>
    apply forall_update h
    rintro _ ⟨⟩
    exact hRewrite x v v' hv (h x v hOld)

theorem Everywhere.run {P : K → V → Prop} {s t : Shared K V} (h : Everywhere P s)
    (hAllowed : ∀ x v, rules.Allowed x v → P x v)
    (hRewrite : ∀ x v v', rules.Rewrite x v v' → P x v → P x v') (hRun : rules.Run s t) :
    Everywhere P t := by
  induction hRun with
  | refl => exact h
  | tail _ hLast ih => exact ih.step hAllowed hRewrite hLast

/-- What owners store and rewrites produce being good, a step only improves the store. -/
theorem Improves.step {Good : K → V → Prop} {s t : Shared K V}
    (hAllowed : ∀ x v, rules.Allowed x v → Good x v)
    (hRewrite : ∀ x v v', rules.Rewrite x v v' → Good x v') (hStep : rules.Step s t) :
    Improves Good s.table t.table := by
  cases hStep with
  | put x v hv =>
    apply Improves.update
    rintro _ ⟨⟩
    exact hAllowed x v hv
  | erase x =>
    apply Improves.update
    rintro _ ⟨⟩
  | rewrite x v v' hOld hv =>
    apply Improves.update
    rintro _ ⟨⟩
    exact hRewrite x v v' hv

end Cryptbox.Base

import Mathlib.Tactic.Common

/-!
# Buffers of a reserved capacity

A growable buffer that is written past its capacity moves to a new allocation, and what it
held stays behind in the old one. A `Buffer` never moves: a write that would exceed the
capacity is `none`.

* `Buffer.write_eq_some`: when a write stays within the capacity, and what it leaves.
* `Buffer.write_eq_full`: a buffer written up to its capacity.
-/

namespace Cryptbox.Base

universe u

/-- What a buffer holds, within the capacity reserved for it. -/
structure Buffer (α : Type u) where
  capacity : Nat
  items : List α
  fits : items.length ≤ capacity
  deriving DecidableEq

namespace Buffer

variable {α : Type u}

@[ext] theorem ext {a b : Buffer α} (hCapacity : a.capacity = b.capacity)
    (hItems : a.items = b.items) : a = b := by
  cases a
  cases b
  cases hCapacity
  cases hItems
  rfl

/-- An empty buffer with room for `capacity` items. -/
def withCapacity (capacity : Nat) : Buffer α := ⟨capacity, [], Nat.zero_le _⟩

@[simp] theorem withCapacity_capacity (capacity : Nat) :
    (withCapacity capacity : Buffer α).capacity = capacity := rfl

@[simp] theorem withCapacity_items (capacity : Nat) :
    (withCapacity capacity : Buffer α).items = [] := rfl

/-- Leaves `items` in the buffer, unless they exceed its capacity. -/
def write (buffer : Buffer α) (items : List α) : Option (Buffer α) :=
  if h : items.length ≤ buffer.capacity then some ⟨buffer.capacity, items, h⟩ else none

/-- Appends items. -/
def extend (buffer : Buffer α) (items : List α) : Option (Buffer α) :=
  buffer.write (buffer.items ++ items)

/-- Cuts to a length, or fills up to it. -/
def resize (buffer : Buffer α) (len : Nat) (item : α) : Option (Buffer α) :=
  buffer.write (buffer.items.take len ++ List.replicate (len - buffer.items.length) item)

/-- The buffer whose capacity its items fill. -/
def full (items : List α) : Buffer α := ⟨items.length, items, Nat.le_refl _⟩

theorem write_eq_some {buffer result : Buffer α} {items : List α} :
    buffer.write items = some result ↔
      items.length ≤ buffer.capacity ∧ result.capacity = buffer.capacity ∧
        result.items = items := by
  unfold write
  split
  · next hFits =>
    constructor
    · intro h
      cases h
      exact ⟨hFits, rfl, rfl⟩
    · intro h
      exact congrArg some (Buffer.ext h.2.1.symm h.2.2.symm)
  · next hOver =>
    constructor
    · intro h
      cases h
    · intro h
      exact absurd h.1 hOver

/-- A buffer written up to its capacity is full. -/
theorem write_eq_full {buffer : Buffer α} {items : List α} (h : items.length = buffer.capacity) :
    buffer.write items = some (full items) :=
  write_eq_some.mpr ⟨Nat.le_of_eq h, h, rfl⟩

end Buffer

end Cryptbox.Base

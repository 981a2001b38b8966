import Cryptbox.Base.Buffer
import Cryptbox.Base.Logged
import Cryptbox.Slice

/-!
# The zeroizing write buffer

`ZeroizingByteBuffer` (`codec.rs`), which the JSON codec writes into. A vector that grows in
place leaves its plaintext in the allocation it abandons, so the buffer grows by copying into a
new one and wiping the old. What happens to the allocations is recorded in a log.

* `ZeroizingByteBuffer.write_allocates`: what one write does.
* `ZeroizingByteBuffer.writes_allocates`: what a sequence of writes does.
* `ZeroizingByteBuffer.writes_exact`: nothing is lost, nothing is abandoned, and the writes
  return unless an allocation is refused.
* `ZeroizingByteBuffer.writes_refused`: a total that is allocatable, and not written.
-/

namespace Cryptbox

open Base

/-- `&[u8]`, at most `isize::MAX` bytes long. -/
abbrev Slice := { bytes : Bytes // bytes.length ≤ isizeMax }

/-- The allocator behind a `Vec<u8>`: the capacity it grants for a request, or `none` where it
refuses. A buffer asks for more each time, so what is granted may depend on what is live when it
is asked. -/
structure Allocator where
  grant : (request : Nat) → Option { capacity : Nat // request ≤ capacity ∧ capacity ≤ isizeMax }

/-- The request is granted when it is made, while the old buffer is still live. -/
def Allocator.Allocatable (alloc : Allocator) (size : Nat) : Prop := (alloc.grant size).isSome

/-- What a write does instead of returning. -/
inductive BufferFailure where
  /-- The `expect` on the length. -/
  | lengthOverflow
  /-- The panic of `Vec::with_capacity` above `isize::MAX`. -/
  | capacityOverflow
  /-- The allocator refuses. -/
  | allocError
  deriving DecidableEq, Repr

/-- What happens to the allocations. -/
inductive BufferEvent where
  /-- `Vec::with_capacity(capacity)`. -/
  | requested (capacity : Nat)
  /-- A vector of this capacity is extended to this length. -/
  | extended (capacity len : Nat)
  /-- A vector grows in place, and its old allocation is freed as it is. -/
  | abandoned (bytes : Bytes)
  /-- A vector is wiped and dropped, when its replacement holds these bytes. -/
  | dropped (bytes replacement : Bytes)
  deriving DecidableEq, Repr

/-- Code that allocates. -/
abbrev AllocM := Logged BufferEvent BufferFailure

/-- `Vec<u8>`, with its capacity. -/
structure ByteVec extends Buffer UInt8 where
  capacity_le : capacity ≤ isizeMax
  deriving DecidableEq

namespace ByteVec

/-- `Vec::new()`. -/
def new : ByteVec := ⟨Buffer.withCapacity 0, Nat.zero_le _⟩

/-- `Vec::with_capacity(request)`. -/
def withCapacity (alloc : Allocator) (request : Nat) :
    AllocM { vec : ByteVec // request ≤ vec.capacity ∧ vec.items = [] } := do
  emit (.requested request)
  if isizeMax < request then throw .capacityOverflow
  match alloc.grant request with
  | none => throw .allocError
  | some ⟨capacity, hRoom, hMax⟩ => return ⟨⟨Buffer.withCapacity capacity, hMax⟩, hRoom, rfl⟩

/-- `vec.extend_from_slice(bytes)`, which grows in place where the capacity is too small. -/
def extendFromSlice (alloc : Allocator) (vec : ByteVec) (bytes : Bytes) : AllocM ByteVec := do
  let len := (vec.items ++ bytes).length
  emit (.extended vec.capacity len)
  if h : len ≤ vec.capacity then
    return ⟨⟨vec.capacity, vec.items ++ bytes, h⟩, vec.capacity_le⟩
  else
    let ⟨grown, hRoom, _⟩ ← withCapacity alloc len
    emit (.abandoned vec.items)
    return ⟨⟨grown.capacity, vec.items ++ bytes, hRoom⟩, grown.capacity_le⟩

end ByteVec

/-- `ZeroizingByteBuffer`. -/
structure ZeroizingByteBuffer where
  bytes : ByteVec
  deriving DecidableEq

namespace ZeroizingByteBuffer

def new : ZeroizingByteBuffer := ⟨ByteVec.new⟩

def intoBytes (buffer : ZeroizingByteBuffer) : ByteVec := buffer.bytes

/-- The capacity that `reserve` asks for. -/
def newCapacity (capacity requiredCapacity : Nat) : Nat :=
  max (max (saturatingMul capacity 2) requiredCapacity) 8

def reserve (alloc : Allocator) (buffer : ZeroizingByteBuffer) (additional : Nat) :
    AllocM ZeroizingByteBuffer := do
  match checkedAdd buffer.bytes.items.length additional with
  | none => throw .lengthOverflow
  | some requiredCapacity =>
    if requiredCapacity ≤ buffer.bytes.capacity then
      return buffer
    let ⟨replacement, _⟩ ←
      ByteVec.withCapacity alloc (newCapacity buffer.bytes.capacity requiredCapacity)
    let replacement ← replacement.extendFromSlice alloc buffer.bytes.items
    emit (.dropped buffer.bytes.items replacement.items)
    return ⟨replacement⟩

def extendFromSlice (alloc : Allocator) (buffer : ZeroizingByteBuffer) (bytes : Slice) :
    AllocM ZeroizingByteBuffer := do
  let buffer ← buffer.reserve alloc bytes.val.length
  return ⟨← buffer.bytes.extendFromSlice alloc bytes.val⟩

/-- `Write::write`. -/
def write (alloc : Allocator) (buffer : ZeroizingByteBuffer) (bytes : Slice) :
    AllocM (Nat × ZeroizingByteBuffer) := do
  let buffer ← buffer.extendFromSlice alloc bytes
  return (bytes.val.length, buffer)

/-- Writes one after the other, with what each of them returns. -/
def writes (alloc : Allocator) (buffer : ZeroizingByteBuffer) :
    List Slice → AllocM (List Nat × ZeroizingByteBuffer)
  | [] => return ([], buffer)
  | bytes :: slices => do
    let (written, buffer) ← buffer.write alloc bytes
    let (rest, buffer) ← buffer.writes alloc slices
    return (written :: rest, buffer)

end ZeroizingByteBuffer

/-- The bytes of the slices, one after the other. -/
def concat (slices : List Slice) : Bytes := (slices.map Subtype.val).flatten

/-! ## Runs -/

/-- A vector is extended within its capacity, none is abandoned, and one that is dropped has been
copied as a whole. -/
def BufferEvent.Safe : BufferEvent → Prop
  | .requested _ => True
  | .extended capacity len => len ≤ capacity
  | .abandoned _ => False
  | .dropped bytes replacement => replacement = bytes

/-- An event where no request is refused, nor larger than `bound`. -/
structure Granted (alloc : Allocator) (bound : Nat) (event : BufferEvent) : Prop where
  safe : event.Safe
  request : ∀ {size}, event = .requested size → alloc.Allocatable size ∧ size ≤ bound

/-- A request up to `bound` is refused. -/
structure Refused (alloc : Allocator) (bound : Nat) (failure : BufferFailure)
    (event : BufferEvent) : Prop where
  failure_ne : failure ≠ .lengthOverflow
  request : ∃ size, event = .requested size ∧ ¬ alloc.Allocatable size ∧ size ≤ bound

/-- The code returns a value with `P`, or a request up to `bound` is refused. -/
abbrev Allocates {α : Type} (alloc : Allocator) (bound : Nat) (m : AllocM α) (P : α → Prop) :
    Prop :=
  Runs (Granted alloc bound) (Refused alloc bound) m P

/-! ## Writes -/

section Specs

variable {alloc : Allocator} {bound : Nat}

theorem granted_extended {capacity len : Nat} (h : len ≤ capacity) :
    Granted alloc bound (.extended capacity len) where
  safe := h
  request := by
    intro size hSize
    cases hSize

theorem granted_dropped (bytes : Bytes) :
    Granted alloc bound (.dropped bytes bytes) where
  safe := rfl
  request := by
    intro size hSize
    cases hSize

/-- A request above `isize::MAX` is refused by every allocator. -/
theorem Allocator.Allocatable.le {size : Nat} (h : alloc.Allocatable size) : size ≤ isizeMax := by
  obtain ⟨⟨capacity, hRoom, hMax⟩, -⟩ := Option.isSome_iff_exists.mp h
  exact hRoom.trans hMax

namespace ByteVec

/-- A request above `isize::MAX` panics. -/
theorem withCapacity_of_lt {request : Nat} (h : isizeMax < request) (log : List BufferEvent) :
    (withCapacity alloc request).from log =
      (.error .capacityOverflow, log ++ [.requested request]) := by
  unfold withCapacity
  rw [if_pos h]
  rfl

theorem withCapacity_of_refused {request : Nat} (h : request ≤ isizeMax)
    (hGrant : alloc.grant request = none) (log : List BufferEvent) :
    (withCapacity alloc request).from log =
      (.error .allocError, log ++ [.requested request]) := by
  unfold withCapacity
  rw [if_neg (Nat.not_lt_of_le h), hGrant]
  rfl

theorem withCapacity_of_granted {request capacity : Nat}
    {hRoom : request ≤ capacity ∧ capacity ≤ isizeMax}
    (hGrant : alloc.grant request = some ⟨capacity, hRoom⟩) (log : List BufferEvent) :
    (withCapacity alloc request).from log =
      (.ok ⟨⟨Buffer.withCapacity capacity, hRoom.2⟩, hRoom.1, rfl⟩,
        log ++ [.requested request]) := by
  obtain ⟨hLe, hMax⟩ := hRoom
  unfold withCapacity
  rw [if_neg (Nat.not_lt_of_le (hLe.trans hMax)), hGrant]
  rfl

theorem withCapacity_allocates {request : Nat} (hBound : request ≤ bound) :
    Allocates alloc bound (withCapacity alloc request) fun _ => True := by
  intro log
  rcases Nat.lt_or_ge isizeMax request with hOver | hMax
  · have hRefused : ¬ alloc.Allocatable request := by
      intro hSize
      exact absurd hSize.le (Nat.not_le_of_lt hOver)
    rw [withCapacity_of_lt hOver]
    exact outcome_failed ⟨by decide, request, rfl, hRefused, hBound⟩
  cases hGrant : alloc.grant request with
  | none =>
    have hRefused : ¬ alloc.Allocatable request := by
      rw [Allocator.Allocatable, hGrant]
      exact Bool.false_ne_true
    rw [withCapacity_of_refused hMax hGrant]
    exact outcome_failed ⟨by decide, request, rfl, hRefused, hBound⟩
  | some granted =>
    have hRequest : Granted alloc bound (.requested request) := by
      refine ⟨trivial, ?_⟩
      intro size hSize
      cases hSize
      exact ⟨Option.isSome_iff_exists.mpr ⟨granted, hGrant⟩, hBound⟩
    rw [withCapacity_of_granted hGrant]
    exact outcome_returned hRequest trivial

/-- Within its capacity, a vector is extended where it is. -/
theorem extendFromSlice_of_le {vec : ByteVec} {bytes : Bytes}
    (h : (vec.items ++ bytes).length ≤ vec.capacity) (log : List BufferEvent) :
    (vec.extendFromSlice alloc bytes).from log =
      (.ok ⟨⟨vec.capacity, vec.items ++ bytes, h⟩, vec.capacity_le⟩,
        log ++ [.extended vec.capacity (vec.items ++ bytes).length]) := by
  unfold extendFromSlice
  dsimp only
  rw [dif_pos h]
  rfl

theorem extendFromSlice_allocates {vec : ByteVec} {bytes : Bytes}
    (h : (vec.items ++ bytes).length ≤ vec.capacity) :
    Allocates alloc bound (vec.extendFromSlice alloc bytes) fun extended =>
      extended.items = vec.items ++ bytes ∧ extended.capacity = vec.capacity := by
  intro log
  rw [extendFromSlice_of_le h]
  exact outcome_returned (granted_extended h) ⟨rfl, rfl⟩

end ByteVec

namespace ZeroizingByteBuffer

theorem le_newCapacity (capacity required : Nat) :
    required ≤ newCapacity capacity required := by
  unfold newCapacity
  omega

theorem newCapacity_le {capacity required : Nat} (h : capacity ≤ required) :
    newCapacity capacity required ≤ max (2 * required) 8 := by
  unfold newCapacity saturatingMul
  omega

/-- The `expect` is not reached: the lengths of a vector and a slice add up. -/
theorem checkedAdd_len (vec : ByteVec) {additional : Nat} (h : additional ≤ isizeMax) :
    checkedAdd vec.items.length additional = some (vec.items.length + additional) := by
  have hFits := vec.fits
  have hMax := vec.capacity_le
  have hUsize : isizeMax + isizeMax ≤ usizeMax := by decide
  exact checkedAdd_eq_some.mpr ⟨by omega, rfl⟩

/-- Room for the resulting length; a replacement holds what the buffer held. -/
theorem reserve_allocates (buffer : ZeroizingByteBuffer) {additional : Nat}
    (hAdditional : additional ≤ isizeMax)
    (hBound : max (2 * (buffer.bytes.items.length + additional)) 8 ≤ bound) :
    Allocates alloc bound (buffer.reserve alloc additional) fun reserved =>
      reserved.bytes.items = buffer.bytes.items ∧
        buffer.bytes.items.length + additional ≤ reserved.bytes.capacity := by
  have hFits := buffer.bytes.fits
  unfold reserve
  rw [checkedAdd_len buffer.bytes hAdditional]
  dsimp only
  split
  · next hRoom => exact runs_pure ⟨rfl, hRoom⟩
  · next hRoom =>
    have hCapacity : newCapacity buffer.bytes.capacity
        (buffer.bytes.items.length + additional) ≤ bound :=
      (newCapacity_le (Nat.le_of_not_le hRoom)).trans hBound
    refine (ByteVec.withCapacity_allocates hCapacity).bind ?_
    rintro ⟨replacement, hRequest, hEmpty⟩ _
    have hNew := (le_newCapacity _ _).trans hRequest
    have hCopy : (replacement.items ++ buffer.bytes.items).length ≤ replacement.capacity := by
      rw [hEmpty, List.nil_append]
      omega
    refine (ByteVec.extendFromSlice_allocates hCopy).bind ?_
    rintro copied ⟨hItems, hKept⟩
    rw [hEmpty, List.nil_append] at hItems
    refine (runs_emit (hItems ▸ granted_dropped copied.items)).bind ?_
    intro _ _
    exact runs_pure ⟨hItems, hKept ▸ hNew⟩

theorem extendFromSlice_allocates (buffer : ZeroizingByteBuffer) (bytes : Slice)
    (hBound : max (2 * (buffer.bytes.items ++ bytes.val).length) 8 ≤ bound) :
    Allocates alloc bound (buffer.extendFromSlice alloc bytes) fun extended =>
      extended.bytes.items = buffer.bytes.items ++ bytes.val := by
  rw [List.length_append] at hBound
  refine (buffer.reserve_allocates bytes.property hBound).bind ?_
  rintro reserved ⟨hItems, hRoom⟩
  have hFits : (reserved.bytes.items ++ bytes.val).length ≤ reserved.bytes.capacity := by
    rw [hItems, List.length_append]
    exact hRoom
  refine (ByteVec.extendFromSlice_allocates hFits).bind ?_
  rintro extended ⟨hExtended, -⟩
  exact runs_pure (hExtended.trans (by rw [hItems]))

/-- **One write** appends the slice, and returns its length. -/
theorem write_allocates (buffer : ZeroizingByteBuffer) (bytes : Slice)
    (hBound : max (2 * (buffer.bytes.items ++ bytes.val).length) 8 ≤ bound) :
    Allocates alloc bound (buffer.write alloc bytes) fun result =>
      result.1 = bytes.val.length ∧ result.2.bytes.items = buffer.bytes.items ++ bytes.val := by
  refine (buffer.extendFromSlice_allocates bytes hBound).bind ?_
  intro extended hItems
  exact runs_pure ⟨rfl, hItems⟩

/-- **A sequence of writes** appends the slices in their order. -/
theorem writes_allocates (buffer : ZeroizingByteBuffer) (slices : List Slice)
    (hBound : max (2 * (buffer.bytes.items ++ concat slices).length) 8 ≤ bound) :
    Allocates alloc bound (buffer.writes alloc slices) fun result =>
      result.1 = slices.map (fun bytes => bytes.val.length) ∧
        result.2.bytes.items = buffer.bytes.items ++ concat slices := by
  induction slices generalizing buffer with
  | nil => exact runs_pure ⟨rfl, (List.append_nil _).symm⟩
  | cons bytes slices ih =>
    have hConcat (items : Bytes) : items ++ concat (bytes :: slices) =
        (items ++ bytes.val) ++ concat slices := (List.append_assoc ..).symm
    have hFirst : max (2 * (buffer.bytes.items ++ bytes.val).length) 8 ≤ bound := by
      rw [hConcat, List.length_append] at hBound
      omega
    refine (buffer.write_allocates bytes hFirst).bind ?_
    rintro ⟨written, next⟩ ⟨hWritten, hItems⟩
    have hRest : max (2 * (next.bytes.items ++ concat slices).length) 8 ≤ bound := by
      rw [hItems, ← hConcat]
      exact hBound
    refine (ih next hRest).bind ?_
    rintro ⟨rest, last⟩ ⟨hLens, hLast⟩
    refine runs_pure ⟨?_, ?_⟩
    · exact congrArg₂ List.cons hWritten hLens
    · rw [hConcat, ← hItems]
      exact hLast

end ZeroizingByteBuffer

end Specs

namespace ZeroizingByteBuffer

/-- The writes into a new buffer: how they end, and the log. -/
def run (alloc : Allocator) (slices : List Slice) :
    Except BufferFailure (List Nat × ZeroizingByteBuffer) × List BufferEvent :=
  (new.writes alloc slices).from []

/-- **Nothing is lost, and nothing is abandoned**, whatever is written. -/
structure WritesExact (alloc : Allocator) (slices : List Slice) : Prop where
  /-- The writes return unless a request is refused. -/
  returns : (∃ result, (run alloc slices).1 = .ok result) ↔
    ∀ size, .requested size ∈ (run alloc slices).2 → alloc.Allocatable size
  requests : ∀ size, .requested size ∈ (run alloc slices).2 →
    size ≤ max (2 * (concat slices).length) 8
  content : ∀ lens buffer, (run alloc slices).1 = .ok (lens, buffer) →
    lens = slices.map (fun bytes => bytes.val.length) ∧
      buffer.intoBytes.items = concat slices
  /-- This holds of every event, also where the writes do not return. -/
  safe : ∀ event ∈ (run alloc slices).2, event.Safe
  expect : (run alloc slices).1 ≠ .error .lengthOverflow

theorem writes_exact (alloc : Allocator) (slices : List Slice) : WritesExact alloc slices := by
  have hRun : Outcome (Granted alloc (max (2 * (concat slices).length) 8))
      (Refused alloc (max (2 * (concat slices).length) 8))
      (fun result : List Nat × ZeroizingByteBuffer =>
        result.1 = slices.map (fun bytes => bytes.val.length) ∧
          result.2.bytes.items = concat slices) [] (run alloc slices) :=
    new.writes_allocates slices (Nat.le_refl _) []
  constructor
  · constructor
    · rintro ⟨result, hOk⟩ size hSize
      exact ((hRun.events hOk _ hSize).request rfl).1
    · intro hAll
      cases hResult : (run alloc slices).1 with
      | ok result => exact ⟨result, rfl⟩
      | error failure =>
        obtain ⟨event, hEvent, -, size, rfl, hSize, -⟩ := hRun.last hResult
        exact absurd (hAll size hEvent) hSize
  · have hSizes : ∀ event ∈ (run alloc slices).2, ∀ size, event = .requested size →
        size ≤ max (2 * (concat slices).length) 8 := by
      refine hRun.forall_mem (fun event h size hEvent => (h.request hEvent).2) ?_
      rintro failure event ⟨-, size, rfl, -, hBound⟩ size' hEvent
      cases hEvent
      exact hBound
    exact fun size hSize => hSizes _ hSize size rfl
  · rintro lens buffer hOk
    exact hRun.value hOk
  · refine hRun.forall_mem (fun event h => h.safe) ?_
    rintro failure event ⟨-, size, rfl, -⟩
    trivial
  · intro hError
    obtain ⟨event, -, hFailure, -⟩ := hRun.last hError
    exact hFailure rfl

end ZeroizingByteBuffer

/-! ## A total that is allocatable, and not written -/

/-- The allocator that grants exactly what is asked for, up to `limit` bytes. -/
def Allocator.upTo (limit : Nat) : Allocator where
  grant request :=
    if h : request ≤ limit ∧ request ≤ isizeMax then some ⟨request, Nat.le_refl _, h.2⟩ else none

def Slice.zeros (n : Nat) (h : n ≤ isizeMax) : Slice :=
  ⟨List.replicate n 0, Nat.le_trans (Nat.le_of_eq List.length_replicate) h⟩

namespace ZeroizingByteBuffer

/-- With at most 60 bytes at a time, 41 are allocatable; a write of 40 and one of 1 byte are
refused, for the second asks for 80. -/
theorem writes_refused :
    (Allocator.upTo 60).Allocatable
        (concat [.zeros 40 (by decide), .zeros 1 (by decide)]).length ∧
      (run (.upTo 60) [.zeros 40 (by decide), .zeros 1 (by decide)]).1 = .error .allocError := by
  constructor
  · rfl
  · decide +kernel

end ZeroizingByteBuffer

end Cryptbox

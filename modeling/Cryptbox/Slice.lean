import Cryptbox.Base.Scan
import Cryptbox.Error

/-!
# Machine sizes and byte slices

The parts of the language the code relies on: checked `usize` arithmetic on a 64-bit
target, slice indexing that panics out of range, and buffers. `Vec::with_capacity` panics
above `isize::MAX`, so each reservation is a step of its own (`withCapacity`); a `Vec<u8>`
that exists therefore holds at most `isize::MAX` bytes (`Vec`).
-/

namespace Cryptbox

open Base

def usizeMax : Nat := 2 ^ 64 - 1

def isizeMax : Nat := 2 ^ 63 - 1

/-- An owned byte buffer, `Vec<u8>` or `Zeroizing<Vec<u8>>`. -/
abbrev Vec := { bytes : Bytes // bytes.length ≤ isizeMax }

/-- `b"text"`, a byte string literal of ASCII text. -/
def byteString (text : String) : Bytes := text.toList.map fun c => UInt8.ofNat c.toNat

/-- `a.checked_add(b)`. -/
def checkedAdd (a b : Nat) : Option Nat := if a + b ≤ usizeMax then some (a + b) else none

/-- `a.checked_mul(b)`. -/
def checkedMul (a b : Nat) : Option Nat := if a * b ≤ usizeMax then some (a * b) else none

/-- `a.saturating_mul(b)`. -/
def saturatingMul (a b : Nat) : Nat := min (a * b) usizeMax

/-- `a.div_ceil(b)`. -/
def divCeil (a b : Nat) : Nat := if a % b = 0 then a / b else a / b + 1

@[simp] theorem checkedAdd_eq_some {a b c : Nat} :
    checkedAdd a b = some c ↔ a + b ≤ usizeMax ∧ a + b = c := by
  unfold checkedAdd
  split <;> simp [*]

@[simp] theorem checkedMul_eq_some {a b c : Nat} :
    checkedMul a b = some c ↔ a * b ≤ usizeMax ∧ a * b = c := by
  unfold checkedMul
  split <;> simp [*]

theorem checkedAdd_eq_none {a b : Nat} : checkedAdd a b = none ↔ usizeMax < a + b := by
  unfold checkedAdd
  split <;> simp_all

theorem checkedMul_eq_none {a b : Nat} : checkedMul a b = none ↔ usizeMax < a * b := by
  unfold checkedMul
  split <;> simp_all

theorem le_divCeil_mul (a b : Nat) (hb : 0 < b) : a ≤ divCeil a b * b := by
  have hDiv : b * (a / b) + a % b = a := Nat.div_add_mod a b
  have hMod : a % b < b := Nat.mod_lt a hb
  unfold divCeil
  split
  · rw [Nat.mul_comm]
    omega
  · rw [Nat.add_mul, Nat.mul_comm (a / b)]
    omega

/-- The next multiple of `b` above `a`. -/
theorem divCeil_succ_mul (a b : Nat) : divCeil (a + 1) b * b = b * (a / b + 1) := by
  have hCeil : divCeil (a + 1) b = a / b + 1 := by
    unfold divCeil
    rw [Nat.succ_div]
    by_cases hDvd : b ∣ a + 1
    · rw [if_pos (Nat.mod_eq_zero_of_dvd hDvd), if_pos hDvd]
    · rw [if_neg fun h => hDvd (Nat.dvd_of_mod_eq_zero h), if_neg hDvd]
  rw [hCeil, Nat.mul_comm]

/-- `Vec::with_capacity(capacity)`. -/
def withCapacity (capacity : Nat) : Result Unit :=
  if capacity ≤ isizeMax then .ok () else panics

@[simp] theorem withCapacity_eq_ok {capacity : Nat} {u : Unit} :
    withCapacity capacity = .ok u ↔ capacity ≤ isizeMax := by
  unfold withCapacity
  split <;> simp [*]

theorem withCapacity_of_lt {capacity : Nat} (h : isizeMax < capacity) :
    withCapacity capacity = panics :=
  if_neg (Nat.not_le_of_lt h)

/-- `bytes.resize(len, byte)`. -/
def resize (bytes : Bytes) (len : Nat) (byte : UInt8) : Bytes :=
  bytes.take len ++ List.replicate (len - bytes.length) byte

/-- `bytes[at]`. -/
def index (bytes : Bytes) (position : Nat) : Result UInt8 :=
  match bytes[position]? with
  | some byte => .ok byte
  | none => panics

@[simp] theorem index_eq_ok {bytes : Bytes} {position : Nat} {byte : UInt8} :
    index bytes position = .ok byte ↔ bytes[position]? = some byte := by
  unfold index
  split <;> simp [*]

/-- A test of a byte within the slice. -/
theorem index_decides {bytes : Bytes} {position : Nat} (h : position < bytes.length)
    (test : UInt8 → Bool) :
    Decides (do return test (← index bytes position) : Result Bool)
      (∃ byte, bytes[position]? = some byte ∧ test byte = true) := by
  have hByte : bytes[position]? = some bytes[position] := List.getElem?_eq_getElem h
  rw [index_eq_ok.mpr hByte, ok_bind, hByte]
  refine (Decides.ok _).congr ?_
  simp

/-- `&bytes[start..stop]`. -/
def slice (bytes : Bytes) (start stop : Nat) : Result Bytes :=
  if start ≤ stop ∧ stop ≤ bytes.length then .ok ((bytes.take stop).drop start) else panics

/-- `bytes.iter().rposition(test)`: where the last byte that passes stands. -/
def rposition (test : UInt8 → Bool) : Bytes → Option Nat
  | [] => none
  | byte :: rest =>
    match rposition test rest with
    | some position => some (position + 1)
    | none => if test byte then some 0 else none

theorem rposition_eq_none {test : UInt8 → Bool} {bytes : Bytes} :
    rposition test bytes = none ↔ ∀ byte ∈ bytes, test byte = false := by
  induction bytes with
  | nil => simp [rposition]
  | cons byte rest ih =>
    rw [rposition, List.forall_mem_cons, ← ih]
    cases rposition test rest <;> cases test byte <;> simp

theorem rposition_eq_some {test : UInt8 → Bool} {bytes : Bytes} {position : Nat} :
    rposition test bytes = some position ↔
      ∃ before byte after, bytes = before ++ byte :: after ∧ before.length = position ∧
        test byte = true ∧ ∀ other ∈ after, test other = false := by
  induction bytes generalizing position with
  | nil => simp [rposition]
  | cons first rest ih =>
    rw [rposition]
    cases hRest : rposition test rest with
    | some position' =>
      obtain ⟨before, byte, after, rfl, hLen, hByte, hAfter⟩ := ih.mp hRest
      constructor
      · intro h
        cases h
        exact ⟨first :: before, byte, after, rfl, congrArg (· + 1) hLen, hByte, hAfter⟩
      · intro h
        obtain ⟨before', byte', after', hBytes, rfl, hByte', hAfter'⟩ := h
        rcases before' with _ | ⟨first', before'⟩
        · cases hBytes
          have : test byte = false := hAfter' byte (by simp)
          simp [this] at hByte
        · obtain ⟨-, hBytes⟩ := List.cons.inj hBytes
          have := ih.mpr ⟨before', byte', after', hBytes, rfl, hByte', hAfter'⟩
          rw [hRest] at this
          simp [Option.some.inj this]
    | none =>
      have hNone := rposition_eq_none.mp hRest
      constructor
      · intro h
        dsimp only at h
        split at h
        · next hFirst =>
          cases h
          exact ⟨[], first, rest, rfl, rfl, hFirst, hNone⟩
        · cases h
      · intro h
        obtain ⟨before', byte', after', hBytes, rfl, hByte', -⟩ := h
        rcases before' with _ | ⟨first', before'⟩
        · cases hBytes
          simp [hByte']
        · obtain ⟨-, rfl⟩ := List.cons.inj hBytes
          have := hNone byte' (by simp)
          simp [this] at hByte'

/-- `bytes[offset..offset + N]` copied into an array of length `N`. -/
def field (n : Nat) (bytes : Bytes) (offset : Nat) : Result (Block n) :=
  if h : ((bytes.drop offset).take n).length = n then .ok ⟨(bytes.drop offset).take n, h⟩
  else panics

theorem field_append {n offset : Nat} (before after : Bytes) (b : Block n)
    (hOffset : before.length = offset) :
    field n (before ++ (b.val ++ after)) offset = .ok b := by
  subst hOffset
  have h : ((before ++ (b.val ++ after)).drop before.length).take n = b.val := by
    rw [List.drop_left, List.take_append_of_le_length (by simp), List.take_of_length_le (by simp)]
  unfold field
  rw [dif_pos (by rw [h]; exact b.property)]
  exact congrArg Except.ok (Subtype.ext h)

/-- `bytes.split_at_checked(mid)`. -/
def splitAtChecked (bytes : Bytes) (mid : Nat) : Option (Bytes × Bytes) :=
  if mid ≤ bytes.length then some (bytes.take mid, bytes.drop mid) else none

theorem splitAtChecked_append {mid : Nat} {before after : Bytes} (h : before.length = mid) :
    splitAtChecked (before ++ after) mid = some (before, after) := by
  subst h
  rw [splitAtChecked, if_pos (by simp), List.take_left, List.drop_left]

/-- `bytes.split_last_chunk::<N>()`: everything but the last `n` bytes, and these. -/
def splitLastChunk (n : Nat) (bytes : Bytes) : Option (Bytes × Block n) :=
  if h : (bytes.drop (bytes.length - n)).length = n then
    some (bytes.take (bytes.length - n), ⟨bytes.drop (bytes.length - n), h⟩)
  else none

theorem splitLastChunk_append {n : Nat} (bytes : Bytes) (b : Block n) :
    splitLastChunk n (bytes ++ b.val) = some (bytes, b) := by
  have hl : (bytes ++ b.val).length - n = bytes.length := by simp
  have hd : (bytes ++ b.val).drop ((bytes ++ b.val).length - n) = b.val := by
    rw [hl, List.drop_left]
  unfold splitLastChunk
  rw [dif_pos (by rw [hd]; exact b.property)]
  refine congrArg some (Prod.ext ?_ (Subtype.ext hd))
  exact (congrArg (fun k => List.take k (bytes ++ b.val)) hl).trans (List.take_left ..)

end Cryptbox

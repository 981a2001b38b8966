import Mathlib.Data.List.Basic
import Mathlib.Data.Nat.Basic
import Mathlib.Tactic.Ring
import Mathlib.Tactic.Positivity
import Mathlib.Tactic.Common

/-!
# Byte strings, fixed-size blocks and big-endian numbers

Byte strings are lists of bytes, and an array of a fixed length is a list together with
the proof of its length (`Block`). `be n x` writes the `n` low base-256 digits of `x`, most
significant first, and `value` reads them back: `be n` is injective below `256 ^ n`
(`be_injective`), which is what makes length-prefixed and tagged encodings readable in one
way only. Two concatenations whose first parts are blocks of one size agree part by part
(`Block.append_inj`).
-/

namespace Cryptbox.Base

abbrev Bytes := List UInt8

/-- A byte array of length `n`. -/
abbrev Block (n : Nat) := { bytes : Bytes // bytes.length = n }

namespace Block

@[simp] theorem length_val {n : Nat} (b : Block n) : b.val.length = n := b.property

theorem append_inj {n : Nat} {a b : Block n} {x y : Bytes} (h : a.val ++ x = b.val ++ y) :
    a = b ∧ x = y := by
  have := List.append_inj h (by simp)
  exact ⟨Subtype.ext this.1, this.2⟩

theorem exists_append (n : Nat) (bytes : Bytes) (h : n ≤ bytes.length) :
    ∃ (b : Block n) (rest : Bytes), bytes = b.val ++ rest :=
  ⟨⟨bytes.take n, List.length_take_of_le h⟩, bytes.drop n, (List.take_append_drop n bytes).symm⟩

/-- A block of zero bytes. -/
def zero (n : Nat) : Block n := ⟨List.replicate n 0, by simp⟩

end Block

/-! ## Big-endian numbers -/

/-- The `n` low base-256 digits of `x`, most significant first. -/
def be : Nat → Nat → Bytes
  | 0, _ => []
  | n + 1, x => UInt8.ofNat (x / 256 ^ n) :: be n x

/-- The number whose base-256 digits are `bytes`, most significant first. -/
def value (bytes : Bytes) : Nat := bytes.foldl (fun acc byte => acc * 256 + byte.toNat) 0

@[simp] theorem length_be (n x : Nat) : (be n x).length = n := by
  induction n with
  | zero => rfl
  | succ n ih => simp [be, ih]

/-- `be n x` as a block. -/
def beBlock (n x : Nat) : Block n := ⟨be n x, length_be n x⟩

theorem foldl_value (bytes : Bytes) (acc : Nat) :
    bytes.foldl (fun acc byte => acc * 256 + byte.toNat) acc
      = acc * 256 ^ bytes.length + value bytes := by
  induction bytes generalizing acc with
  | nil => simp [value]
  | cons byte bytes ih =>
    rw [value, List.foldl_cons, List.foldl_cons, ih, ih (0 * 256 + byte.toNat),
      List.length_cons]
    ring

theorem value_cons (byte : UInt8) (bytes : Bytes) :
    value (byte :: bytes) = byte.toNat * 256 ^ bytes.length + value bytes := by
  rw [value, List.foldl_cons, foldl_value]
  simp

theorem value_lt (bytes : Bytes) : value bytes < 256 ^ bytes.length := by
  induction bytes with
  | nil => simp [value]
  | cons byte bytes ih =>
    rw [value_cons, List.length_cons, pow_succ]
    have hb : byte.toNat < 256 := byte.toNat_lt
    calc byte.toNat * 256 ^ bytes.length + value bytes
        < byte.toNat * 256 ^ bytes.length + 256 ^ bytes.length := by omega
      _ = (byte.toNat + 1) * 256 ^ bytes.length := by ring
      _ ≤ 256 * 256 ^ bytes.length := Nat.mul_le_mul_right _ (by omega)
      _ = 256 ^ bytes.length * 256 := by ring

theorem value_be (n x : Nat) : value (be n x) = x % 256 ^ n := by
  induction n with
  | zero => simp [be, value, Nat.mod_one]
  | succ n ih =>
    rw [be, value_cons, length_be, ih]
    have h : (UInt8.ofNat (x / 256 ^ n)).toNat = x / 256 ^ n % 256 := by simp
    rw [h, pow_succ, Nat.mod_mul]
    ring

theorem be_injective {n x y : Nat} (hx : x < 256 ^ n) (hy : y < 256 ^ n)
    (h : be n x = be n y) : x = y := by
  have := congrArg value h
  rwa [value_be, value_be, Nat.mod_eq_of_lt hx, Nat.mod_eq_of_lt hy] at this

/-- Only the low digits of a number are written. -/
theorem be_add_mul (n k x : Nat) : be n (k * 256 ^ n + x) = be n x := by
  induction n generalizing k with
  | zero => rfl
  | succ n ih =>
    have hPos : 0 < 256 ^ n := by positivity
    have hSplit : k * 256 ^ (n + 1) + x = k * 256 * 256 ^ n + x := by ring
    have hHead : (k * 256 * 256 ^ n + x) / 256 ^ n = 256 * k + x / 256 ^ n := by
      rw [Nat.add_comm, Nat.add_mul_div_right _ _ hPos]
      ring
    rw [hSplit, be, be, ih, hHead]
    refine congrArg (· :: be n x) (UInt8.toNat_inj.mp ?_)
    simp

theorem be_value (bytes : Bytes) : be bytes.length (value bytes) = bytes := by
  induction bytes with
  | nil => rfl
  | cons byte rest ih =>
    have hPos : 0 < 256 ^ rest.length := by positivity
    have hHead : (byte.toNat * 256 ^ rest.length + value rest) / 256 ^ rest.length
        = byte.toNat := by
      rw [Nat.add_comm, Nat.add_mul_div_right _ _ hPos, Nat.div_eq_of_lt (value_lt rest),
        Nat.zero_add]
    rw [value_cons, List.length_cons, be, be_add_mul, hHead, ih, UInt8.ofNat_toNat]

end Cryptbox.Base

import Mathlib.Data.List.GetD
import Mathlib.Data.UInt
import Mathlib.Tactic.Common
import Cryptbox.Base.Bytes

/-!
# Bits of byte strings

The bits of a byte string are numbered from the most significant bit of its first byte on.

* `bits_ext`: strings of one length with the same bits are the same.
* `bit_take`, `bit_concat`: the bits of a prefix, and of a string with one more byte.
* `and_eq_self`: a byte without bits outside a mask is left by it.
-/

namespace Cryptbox.Base

/-- A bit of a byte string. Past its end there are zeros. -/
def bit (bytes : Bytes) (i : Nat) : Bool := (bytes.getD (i / 8) 0).toNat.testBit (7 - i % 8)

theorem byte_ext {a b : UInt8} (h : ∀ j < 8, a.toNat.testBit j = b.toNat.testBit j) : a = b := by
  apply UInt8.toNat_inj.mp
  apply Nat.eq_of_testBit_eq
  intro j
  by_cases hj : j < 8
  · exact h j hj
  · have hPow : 2 ^ 8 ≤ 2 ^ j := Nat.pow_le_pow_right (by omega) (by omega)
    rw [Nat.testBit_lt_two_pow (lt_of_lt_of_le a.toNat_lt hPow),
      Nat.testBit_lt_two_pow (lt_of_lt_of_le b.toNat_lt hPow)]

theorem and_eq_self {a mask : UInt8} (h : a &&& ~~~mask = 0) : a &&& mask = a := by
  apply UInt8.toBitVec_inj.mp
  apply BitVec.eq_of_getLsbD_eq
  intro j hj
  have hClear := congrArg (fun byte : UInt8 => byte.toBitVec.getLsbD j) h
  simp only [UInt8.toBitVec_and, UInt8.toBitVec_not, BitVec.getLsbD_and,
    BitVec.getLsbD_not] at hClear ⊢
  cases hBit : a.toBitVec.getLsbD j with
  | false => rfl
  | true => simpa [hBit, hj] using hClear

/-- **The bits of a string determine it**, with its length. -/
theorem bits_ext {a b : Bytes} (hLength : a.length = b.length)
    (h : ∀ i < 8 * a.length, bit a i = bit b i) : a = b := by
  apply List.ext_getElem hLength
  intro k hk hk'
  apply byte_ext
  intro j hj
  have hBit := h (8 * k + (7 - j)) (by omega)
  have hByte : (8 * k + (7 - j)) / 8 = k := by omega
  have hPlace : 7 - (8 * k + (7 - j)) % 8 = j := by omega
  unfold bit at hBit
  rwa [hByte, hPlace, List.getD_eq_getElem _ _ hk, List.getD_eq_getElem _ _ hk'] at hBit

/-- A prefix has the first bits. -/
theorem bit_take (bytes : Bytes) {n i : Nat} (hi : i < 8 * n) :
    bit (bytes.take n) i = bit bytes i := by
  have hByte : i / 8 < n := by omega
  unfold bit
  rw [List.getD_eq_getElem?_getD, List.getD_eq_getElem?_getD, List.getElem?_take_of_lt hByte]

theorem bit_concat (front : Bytes) (last : UInt8) (i : Nat) :
    bit (front ++ [last]) i =
      if i / 8 < front.length then bit front i
      else if i / 8 = front.length then last.toNat.testBit (7 - i % 8) else false := by
  unfold bit
  split
  · next hFront => rw [List.getD_append _ _ _ _ hFront]
  · next hFront =>
    rw [List.getD_append_right _ _ _ _ (by omega)]
    split
    · next hLast =>
      rw [hLast, Nat.sub_self]
      rfl
    · next hLast =>
      have hPast : [last].length ≤ i / 8 - front.length := by
        rw [List.length_singleton]
        omega
      rw [List.getD_eq_default _ _ hPast]
      exact Nat.zero_testBit _

end Cryptbox.Base

import Cryptbox.Base.Hex
import Cryptbox.Id
import Cryptbox.Slice

/-!
# Identifiers as text

The rest of `id.rs`: an identifier is declared from the 128 bits of a UUID, which must not be
nil, and shown in the hyphenated form of the UUID.

* `isNil_eq`: the loop over the bytes.
* `fromU128_eq`: the identifiers that can be declared.
-/

namespace Cryptbox

open Base

/-- The hyphenated form of a UUID. -/
def hyphenated (bytes : Bytes) : String :=
  "-".intercalate [hexEncode (bytes.take 4), hexEncode ((bytes.drop 4).take 2),
    hexEncode ((bytes.drop 6).take 2), hexEncode ((bytes.drop 8).take 2),
    hexEncode (bytes.drop 10)]

/-! ## The nil UUID -/

/-- Reports whether `bytes` is the nil UUID. -/
def isNil (bytes : Block 16) : Result Bool := do
  let other ← scan (fun position => do return decide ((← index bytes.val position) ≠ 0)) 0 16
  return !other

/-- Returns `bytes`, failing for the nil UUID: an ID must not be the nil UUID. -/
def nonNil (bytes : Block 16) : Result (Block 16) := do
  if ← isNil bytes then panics else return bytes

theorem isNil_eq (bytes : Block 16) : isNil bytes = .ok (decide (bytes = Block.zero 16)) := by
  have hScan := scan_decides fun position (_ : 0 ≤ position) (hPosition : position < 16) =>
    index_decides (show position < bytes.val.length by rwa [Block.length_val])
      fun byte => decide (byte ≠ 0)
  refine (hScan.not.congr ?_).eq
  constructor
  · intro hNone
    refine Subtype.ext (List.eq_replicate_iff.mpr ⟨Block.length_val bytes, fun byte hMem => ?_⟩)
    by_contra hByte
    obtain ⟨position, hPosition, rfl⟩ := List.mem_iff_getElem.mp hMem
    rw [Block.length_val] at hPosition
    exact hNone ⟨position, Nat.zero_le position, hPosition, _, List.getElem?_eq_getElem _,
      decide_eq_true hByte⟩
  · rintro rfl ⟨position, -, -, byte, hByte, hNe⟩
    have hZero : byte = 0 := List.eq_of_mem_replicate (List.mem_of_getElem? hByte)
    exact of_decide_eq_true hNe hZero

namespace Identifier

variable {tag : IdTag}

/-- `Display`. -/
def display (id : Identifier tag) : String := hyphenated id.asBytes.val

/-- `from_u128`: the bits, most significant first. -/
def fromU128 (bits : BitVec 128) : Result (Identifier tag) := do
  return ⟨← nonNil (beBlock 16 bits.toNat)⟩

theorem beBlock_eq_zero {bits : BitVec 128} : beBlock 16 bits.toNat = Block.zero 16 ↔ bits = 0 := by
  have hBits : bits.toNat < 256 ^ 16 := bits.isLt
  constructor
  · intro h
    have hZero : be 16 bits.toNat = be 16 0 := congrArg Subtype.val h
    exact BitVec.eq_of_toNat_eq (be_injective hBits (by decide) hZero)
  · rintro rfl
    rfl

/-- Every identifier but the nil one can be declared. -/
theorem fromU128_eq (bits : BitVec 128) : (fromU128 bits : Result (Identifier tag)) =
    if bits = 0 then panics else .ok ⟨beBlock 16 bits.toNat⟩ := by
  unfold fromU128 nonNil
  rw [isNil_eq, ok_bind]
  simp only [beBlock_eq_zero, decide_eq_true_iff]
  split <;> rfl

end Identifier

end Cryptbox

import Cryptbox.Base.Bits
import Cryptbox.Blind

/-!
# One encoding for each bit string

The stored index of a digest is a function of the bits it keeps, and every index that parses is
one that is written. Equality in the database is therefore equality of the kept bits.

* `bit_truncated`: the bits of a truncated digest.
* `truncated_eq_iff`, `exists_truncated`: what is written is determined by the bits that are
  kept, and everything that parses is written.
* `blindIndex_canonical`: the parser and the encoder agree, for all bytes.
-/

namespace Cryptbox

open Base

/-! ## The bits that are kept -/

/-- The mask keeps the bits of the last byte that belong to the digest. -/
theorem testBit_finalByteMask (bits : Nat) {j : Nat} (hj : j < 8) :
    (finalByteMask bits).toNat.testBit j = decide (bits % 8 = 0 ∨ 8 - bits % 8 ≤ j) := by
  have hAll : ∀ retained j : Fin 8,
      (if retained.val = 0 then 255
        else 255 <<< UInt8.ofNat (8 - retained.val) : UInt8).toNat.testBit
        j.val = decide (retained.val = 0 ∨ 8 - retained.val ≤ j.val) := by decide +kernel
  exact hAll ⟨bits % 8, Nat.mod_lt _ (by omega)⟩ ⟨j, hj⟩

/-- **A truncated digest has the first bits of the digest, and zeros after them.** -/
theorem bit_truncated (digest : Block 32) {bits : Nat} (hBits : validBits bits = true) (i : Nat) :
    bit (truncated digest bits) i = (decide (i < bits) && bit digest.val i) := by
  have hPos := divCeil_pos hBits
  have hLen := length_take_digest digest hBits
  obtain ⟨front, last, hTake⟩ : ∃ front last, digest.val.take (divCeil bits 8) = front ++ [last] :=
    ⟨_, _, (List.dropLast_append_getLast (List.ne_nil_of_length_pos (by omega))).symm⟩
  have hFront : front.length + 1 = divCeil bits 8 := by
    rw [← hLen, hTake, List.length_append, List.length_singleton]
  have hCeil : 8 * divCeil bits 8 = if bits % 8 = 0 then bits else 8 * (bits / 8) + 8 := by
    unfold divCeil
    split <;> omega
  have hDigest (hi : i < 8 * divCeil bits 8) : bit digest.val i = bit (front ++ [last]) i := by
    rw [← hTake, bit_take digest.val hi]
  unfold truncated
  rw [hTake, maskLast_concat, bit_concat]
  split
  · next hInside =>
    have hKept : i < bits := by split at hCeil <;> omega
    rw [hDigest (by omega), bit_concat, if_pos hInside, decide_eq_true hKept, Bool.true_and]
  · next hOutside =>
    split
    · next hLast =>
      have hMask : decide (bits % 8 = 0 ∨ 8 - bits % 8 ≤ 7 - i % 8) = decide (i < bits) := by
        apply decide_eq_decide.mpr
        split at hCeil <;> omega
      rw [hDigest (by omega), bit_concat, if_neg hOutside, if_pos hLast, UInt8.toNat_and,
        Nat.testBit_and, testBit_finalByteMask bits (by omega), hMask, Bool.and_comm]
    · next hPast =>
      have hDropped : ¬ i < bits := by split at hCeil <;> omega
      rw [decide_eq_false hDropped, Bool.false_and]

theorem length_truncated (digest : Block 32) {bits : Nat} (hBits : validBits bits = true) :
    (truncated digest bits).length = divCeil bits 8 :=
  (isDigest_truncated digest hBits).length_eq

/-- **Digests are written alike when they agree on the bits that are kept.** -/
theorem truncated_eq_iff {digest digest' : Block 32} {bits : Nat} (hBits : validBits bits = true) :
    truncated digest bits = truncated digest' bits ↔
      ∀ i < bits, bit digest.val i = bit digest'.val i := by
  constructor
  · intro h i hi
    have hBit := congrArg (fun body => bit body i) h
    simpa only [bit_truncated _ hBits, decide_eq_true hi, Bool.true_and] using hBit
  · intro h
    apply bits_ext
    · rw [length_truncated digest hBits, length_truncated digest' hBits]
    · intro i _
      rw [bit_truncated digest hBits, bit_truncated digest' hBits]
      by_cases hi : i < bits
      · rw [h i hi]
      · rw [decide_eq_false hi, Bool.false_and, Bool.false_and]

/-- What has the size and the zeros of a truncated digest is one. -/
theorem exists_truncated {bits : Nat} {body : Bytes} (hBits : validBits bits = true)
    (h : IsDigest bits body) : ∃ digest : Block 32, body = truncated digest bits := by
  have hPos := divCeil_pos hBits
  have hLe := divCeil_le hBits
  have hLen := h.length_eq
  have hFull : (body ++ List.replicate (32 - body.length) 0).length = 32 := by
    rw [List.length_append, List.length_replicate]
    omega
  refine ⟨⟨_, hFull⟩, ?_⟩
  obtain ⟨front, last, rfl⟩ : ∃ front last, body = front ++ [last] :=
    ⟨_, _, (List.dropLast_append_getLast (List.ne_nil_of_length_pos (by omega))).symm⟩
  unfold truncated
  rw [List.take_left' hLen, maskLast_concat,
    and_eq_self (h.masked last (List.getLast?_concat ..))]

/-! ## The parser -/

/-- **What parses is what is written.** -/
theorem inspectBlindIndex_eq_ok_iff {bytes : Bytes} {info : BlindIndexInfo} :
    inspectBlindIndex bytes = .ok info ↔ ∃ id bits digest, 1 ≤ bits.toNat ∧ bits.toNat ≤ 256 ∧
      encodeIndex (indexHeader id bits) digest bits = .ok bytes ∧
        info = ⟨indexFormatVersion, id, bits⟩ := by
  rw [inspectBlindIndex_eq_ok]
  constructor
  · rintro ⟨id, bits, body, rfl, hBits, hBody, rfl⟩
    obtain ⟨digest, rfl⟩ := exists_truncated hBits hBody
    obtain ⟨hPos, hMax⟩ := of_decide_eq_true hBits
    exact ⟨id, bits, digest, hPos, hMax, encodeIndex_header _ digest hBits, rfl⟩
  · rintro ⟨id, bits, digest, hPos, hMax, hEncode, rfl⟩
    have hBits : validBits bits.toNat = true := decide_eq_true ⟨hPos, hMax⟩
    cases (encodeIndex_header _ digest hBits).symm.trans hEncode
    exact ⟨id, bits, _, rfl, hBits, isDigest_truncated digest hBits, rfl⟩

/-- The version is judged in a whole header, and before anything else there. -/
theorem inspectBlindIndex_eq_version {bytes : Bytes} {version : UInt8} :
    inspectBlindIndex bytes = err (.unsupportedBlindIndexVersion version) ↔
      19 ≤ bytes.length ∧ bytes[0]? = some version ∧ version ≠ 2 := by
  rcases inspectBlindIndex_cases bytes with ⟨id, bits, body, rfl, hBits, hBody⟩ |
    ⟨hFirst, hErr⟩ | ⟨first, hLen, hFirst, hVersion, hErr⟩
  · rw [inspectBlindIndex_header hBits hBody]
    constructor
    · intro h
      cases h
    · rintro ⟨-, hFirst, hVersion⟩
      exact absurd (Option.some.inj hFirst).symm hVersion
  · rw [hErr]
    constructor
    · intro h
      cases h
    · rintro ⟨hLen, hSame, hVersion⟩
      exact absurd (Option.some.inj (hSame.symm.trans (hFirst hLen))) hVersion
  · rw [hErr]
    constructor
    · intro h
      cases h
      exact ⟨hLen, hFirst, hVersion⟩
    · rintro ⟨-, hSame, -⟩
      cases hFirst.symm.trans hSame
      rfl

/-- **The format of blind indexes is canonical.** -/
structure CanonicalFormat : Prop where
  accepts : ∀ bytes info, inspectBlindIndex bytes = .ok info ↔
    ∃ id bits digest, 1 ≤ bits.toNat ∧ bits.toNat ≤ 256 ∧
      encodeIndex (indexHeader id bits) digest bits = .ok bytes ∧ info = ⟨2, id, bits⟩
  version : ∀ bytes version,
    inspectBlindIndex bytes = err (.unsupportedBlindIndexVersion version) ↔
      19 ≤ bytes.length ∧ bytes[0]? = some version ∧ version ≠ 2
  invalid : ∀ bytes, inspectBlindIndex bytes = err .invalidBlindIndex ↔
    (∀ id bits digest, 1 ≤ bits.toNat → bits.toNat ≤ 256 →
      encodeIndex (indexHeader id bits) digest bits ≠ .ok bytes) ∧
    ¬ (19 ≤ bytes.length ∧ bytes[0]? ≠ some 2)
  noPanic : ∀ bytes, inspectBlindIndex bytes ≠ panics
  encodes : ∀ (header : Bytes) digest digest' (bits : UInt16), 1 ≤ bits.toNat → bits.toNat ≤ 256 →
    (encodeIndex header digest bits = encodeIndex header digest' bits ↔
      ∀ i < bits.toNat, bit digest.val i = bit digest'.val i)
  /-- The slice of a digest does not exceed it, so that the encoder does not panic. -/
  slices : ∀ (header : Bytes) digest (bits : UInt16), 1 ≤ bits.toNat → bits.toNat ≤ 256 →
    divCeil bits.toNat 8 ≤ 32 ∧ ∃ bytes, encodeIndex header digest bits = .ok bytes
  typed : ∀ {F : Seal} (spec : BlindIndexSpec F) bytes,
    (∃ stored, BlindIndex.fromBytes spec bytes = .ok stored) ↔
      ∃ info, inspectBlindIndex bytes = .ok info ∧ info.bits = spec.bits

/-- Whatever is neither accepted nor of another version is invalid. -/
theorem inspectBlindIndex_eq_invalid {bytes : Bytes} :
    inspectBlindIndex bytes = err .invalidBlindIndex ↔
      (∀ info, inspectBlindIndex bytes ≠ .ok info) ∧
        ¬ (19 ≤ bytes.length ∧ bytes[0]? ≠ some 2) := by
  have hOther : (19 ≤ bytes.length ∧ bytes[0]? ≠ some 2) ↔
      ∃ version, inspectBlindIndex bytes = err (.unsupportedBlindIndexVersion version) := by
    simp only [inspectBlindIndex_eq_version]
    constructor
    · intro h
      have hFirst : bytes[0]? = some bytes[0] := List.getElem?_eq_getElem (by omega)
      refine ⟨bytes[0], h.1, hFirst, fun hSame => h.2 ?_⟩
      rw [hFirst, hSame]
    · intro h
      obtain ⟨version, hLen, hFirst, hVersion⟩ := h
      refine ⟨hLen, fun hSame => hVersion ?_⟩
      exact Option.some.inj (hFirst.symm.trans hSame)
  rw [hOther]
  cases hInspect : inspectBlindIndex bytes with
  | ok info => simp
  | error f =>
    rcases inspectBlindIndex_eq_error hInspect with rfl | ⟨version, rfl⟩
    · simp
    · simp

/-- Typed indexes are those of the precision of their spec. -/
theorem BlindIndex.exists_fromBytes {F : Seal} {spec : BlindIndexSpec F} {bytes : Bytes} :
    (∃ stored, fromBytes spec bytes = .ok stored) ↔
      ∃ info, inspectBlindIndex bytes = .ok info ∧ info.bits = spec.bits := by
  constructor
  · rintro ⟨stored, hStored⟩
    obtain rfl := fromBytes_eq_ok.mp hStored
    obtain ⟨id, hInfo⟩ := stored.parses
    exact ⟨_, hInfo, rfl⟩
  · rintro ⟨info, hInfo, hBits⟩
    exact ⟨⟨bytes, info.indexKeyId, inspectBlindIndex_bits hInfo hBits⟩, fromBytes_eq_ok.mpr rfl⟩

theorem blindIndex_canonical : CanonicalFormat where
  accepts := fun _ _ => inspectBlindIndex_eq_ok_iff
  version := fun _ _ => inspectBlindIndex_eq_version
  invalid := fun bytes => by
    rw [inspectBlindIndex_eq_invalid]
    apply and_congr_left
    intro _
    constructor
    · intro h id bits digest hPos hMax hEncode
      exact h _ (inspectBlindIndex_eq_ok_iff.mpr ⟨id, bits, digest, hPos, hMax, hEncode, rfl⟩)
    · intro h info hInfo
      obtain ⟨id, bits, digest, hPos, hMax, hEncode, -⟩ := inspectBlindIndex_eq_ok_iff.mp hInfo
      exact h id bits digest hPos hMax hEncode
  noPanic := fun bytes h => by
    rcases inspectBlindIndex_eq_error h with hErr | ⟨version, hErr⟩
    · cases hErr
    · cases hErr
  encodes := fun header digest digest' bits hPos hMax => by
    have hBits : validBits bits.toNat = true := decide_eq_true ⟨hPos, hMax⟩
    rw [encodeIndex_header header digest hBits, encodeIndex_header header digest' hBits,
      Except.ok.injEq, List.append_cancel_left_eq, truncated_eq_iff hBits]
  slices := fun header digest bits hPos hMax =>
    have hBits : validBits bits.toNat = true := decide_eq_true ⟨hPos, hMax⟩
    ⟨divCeil_le hBits, _, encodeIndex_header header digest hBits⟩
  typed := fun _ _ => BlindIndex.exists_fromBytes

end Cryptbox

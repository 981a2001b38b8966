import Cryptbox.Base.Buffer
import Cryptbox.Padding

/-!
# Unpadding is the exact inverse

`padding.rs` again, as it runs: the padded buffer is written within the capacity reserved for
it, so no plaintext is left behind in an abandoned allocation, and the marker is looked up
by an index that is always in range.

* `padInPlace_eq`: writing in place gives what `Padding.pad` gives, and fills the buffer.
* `unpadIndexed_eq`: looking the marker up by index is `unpad`.
* `unpad_exact`: unpadding inverts every policy, and rejects everything no policy writes.
-/

namespace Cryptbox

open Base

/-- `pad_to_length`, within the capacity it reserves. -/
def padToLengthInPlace (plaintext : Bytes) (target : Nat) : Result (Option (Buffer UInt8)) := do
  withCapacity target
  return do
    let padded ← (Buffer.withCapacity target).extend plaintext
    let padded ← padded.extend [0x80]
    padded.resize target 0

/-- `Padding::pad`, within the capacity it reserves: the inner `none` is a write past it. -/
def Padding.padInPlace (padding : Padding) (plaintext : Bytes) :
    Result (Option (Option (Buffer UInt8))) :=
  match padding.policy with
  | .none => .ok Option.none
  | .block size => do
    let lengthWithMarker ← okOr (checkedAdd plaintext.length 1) .messageTooLong
    let blocks := divCeil lengthWithMarker size.toNat
    let target ← okOr (checkedMul blocks size.toNat) .messageTooLong
    return some (← padToLengthInPlace plaintext target)
  | .length length => do
    ensure (plaintext.length ≤ length.toNat) .paddingOverflow
    let target ← okOr (checkedAdd length.toNat 1) .messageTooLong
    return some (← padToLengthInPlace plaintext target)

/-- `unpad`, with the index into the plaintext that panics out of range. -/
def unpadIndexed (plaintext : Bytes) : Result Bytes := do
  let position ← okOr (rposition (fun byte => decide (byte ≠ 0)) plaintext) .invalidPadding
  let byte ← index plaintext position
  ensure (byte = 0x80) .invalidPadding
  return plaintext.take position

/-! ## The buffer is written within its capacity -/

theorem padToLengthInPlace_eq {plaintext : Bytes} {target : Nat}
    (hTarget : plaintext.length + 1 ≤ target) :
    padToLengthInPlace plaintext target
      = (fun padded => some (Buffer.full padded)) <$> padToLength plaintext target := by
  unfold padToLengthInPlace padToLength
  rcases Nat.lt_or_ge isizeMax target with hOver | hCap
  · rw [withCapacity_of_lt hOver]
    rfl
  have hReserve : withCapacity target = .ok () := withCapacity_eq_ok.mpr hCap
  have hLen : (resize (plaintext ++ [0x80]) target 0).length = target := by
    rw [resize, List.length_append, List.length_take, List.length_replicate, List.length_append,
      List.length_singleton]
    omega
  have hPlaintext : (Buffer.withCapacity target).extend plaintext
      = some ⟨target, plaintext, by omega⟩ :=
    Buffer.write_eq_some.mpr ⟨by simp only [Buffer.withCapacity_items, List.nil_append,
      Buffer.withCapacity_capacity]; omega, rfl, rfl⟩
  have hMarker : Buffer.extend ⟨target, plaintext, by omega⟩ [0x80]
      = some ⟨target, plaintext ++ [0x80], by simpa using hTarget⟩ :=
    Buffer.write_eq_some.mpr ⟨by simpa using hTarget, rfl, rfl⟩
  have hFill : Buffer.resize ⟨target, plaintext ++ [0x80], by simpa using hTarget⟩ target 0
      = some (Buffer.full (resize (plaintext ++ [0x80]) target 0)) := Buffer.write_eq_full hLen
  rw [hReserve, ok_bind, ok_bind, hPlaintext]
  show Except.ok (Buffer.extend _ _ >>= _) = _
  rw [hMarker]
  show Except.ok (Buffer.resize _ _ _) = _
  rw [hFill]
  rfl

/-- **Padding in place fills the buffer it reserves**, and writes nothing past it. -/
theorem Padding.padInPlace_eq (padding : Padding) (plaintext : Bytes) :
    padding.padInPlace plaintext
      = Option.map (fun padded => some (Buffer.full padded)) <$> padding.pad plaintext := by
  obtain ⟨policy, hValid⟩ := padding
  cases policy with
  | none => rfl
  | block size =>
    have hPos : 0 < size.toNat := Nat.lt_of_lt_of_le (by omega) hValid
    unfold padInPlace pad
    dsimp only
    cases hLen : okOr (checkedAdd plaintext.length 1) .messageTooLong with
    | error f => rfl
    | ok len =>
      obtain ⟨-, rfl⟩ := checkedAdd_eq_some.mp (okOr_eq_ok.mp hLen)
      rw [ok_bind, ok_bind]
      cases hMul : okOr (checkedMul (divCeil (plaintext.length + 1) size.toNat) size.toNat)
          .messageTooLong with
      | error f => rfl
      | ok target =>
        obtain ⟨-, rfl⟩ := checkedMul_eq_some.mp (okOr_eq_ok.mp hMul)
        rw [ok_bind, ok_bind, padToLengthInPlace_eq (le_divCeil_mul _ _ hPos)]
        cases padToLength plaintext _ <;> rfl
  | length length =>
    unfold padInPlace pad
    dsimp only
    cases hFits : ensure (plaintext.length ≤ length.toNat) .paddingOverflow with
    | error f => rfl
    | ok u =>
      rw [ok_bind, ok_bind]
      cases hAdd : okOr (checkedAdd length.toNat 1) .messageTooLong with
      | error f => rfl
      | ok target =>
        obtain ⟨-, rfl⟩ := checkedAdd_eq_some.mp (okOr_eq_ok.mp hAdd)
        have hTarget := Nat.succ_le_succ (ensure_eq_ok.mp hFits)
        rw [ok_bind, ok_bind, padToLengthInPlace_eq hTarget]
        cases padToLength plaintext _ <;> rfl

/-! ## The marker is looked up in range -/

theorem unpadIndexed_eq (plaintext : Bytes) : unpadIndexed plaintext = unpad plaintext := by
  unfold unpadIndexed unpad
  cases hLast : rposition (fun byte => decide (byte ≠ 0)) plaintext with
  | none => rfl
  | some position =>
    obtain ⟨before, byte, after, rfl, rfl, -, -⟩ := rposition_eq_some.mp hLast
    have hByte : (before ++ byte :: after)[before.length]? = some byte := by simp
    have hIndex : index (before ++ byte :: after) before.length = .ok byte :=
      index_eq_ok.mpr hByte
    have hFilter : (some before.length).filter
        (fun position => decide ((before ++ byte :: after)[position]? = some 0x80))
        = if byte = 0x80 then some before.length else none := by
      rw [Option.filter_some, hByte]
      simp
    rw [hFilter, show okOr (some before.length) .invalidPadding = .ok before.length from rfl,
      ok_bind, hIndex, ok_bind]
    by_cases hMarker : byte = 0x80
    · have hOk : ensure (byte = 0x80) .invalidPadding = .ok () := ensure_eq_ok.mpr hMarker
      rw [if_pos hMarker, hOk]
      rfl
    · rw [if_neg hMarker, ensure_eq_error.mpr ⟨hMarker, rfl⟩]
      rfl

/-! ## The inverse -/

/-- A padded buffer is read in one way only. -/
theorem append_paddingTail_inj {plaintext plaintext' : Bytes} {zeros zeros' : Nat}
    (h : plaintext ++ paddingTail zeros = plaintext' ++ paddingTail zeros') :
    plaintext = plaintext' := by
  have hUnpad : unpad (plaintext ++ paddingTail zeros) = .ok plaintext :=
    unpad_eq_ok.mpr ⟨zeros, rfl⟩
  exact Except.ok.inj (hUnpad.symm.trans (unpad_eq_ok.mpr ⟨zeros', h⟩))

/-- Without a byte other than zero there is no marker. -/
theorem unpad_replicate (n : Nat) : unpad (List.replicate n 0) = err .invalidPadding := by
  refine unpad_eq_error.mpr ⟨rfl, ?_⟩
  intro plaintext zeros h
  have hMarker : (0x80 : UInt8) ∈ List.replicate n 0 := by
    rw [h]
    simp [paddingTail]
  exact absurd (List.eq_of_mem_replicate hMarker) (by decide)

/-- A policy that pads pads everything it accepts. -/
theorem Padding.unpad_of_pad {padding : Padding} (hPadded : padding.isPadded = true)
    {plaintext : Bytes} {out : Option Bytes} (h : padding.pad plaintext = .ok out) :
    ∃ padded, out = some padded ∧ unpad padded = .ok plaintext := by
  obtain ⟨-, -, rfl⟩ := (Padding.pad_eq_ok hPadded).mp h
  exact ⟨_, rfl, unpad_pad h⟩

/-- **Unpadding is the exact inverse of padding**, whatever the policy, and neither leaves the
buffer it works on. -/
structure UnpaddingExact : Prop where
  reads : ∀ padded plaintext, unpad padded = .ok plaintext ↔
    ∃ zeros, padded = plaintext ++ 0x80 :: List.replicate zeros 0
  unique : ∀ plaintext plaintext' zeros zeros',
    plaintext ++ 0x80 :: List.replicate zeros (0 : UInt8)
      = plaintext' ++ 0x80 :: List.replicate zeros' 0 → plaintext = plaintext'
  rejects : ∀ padded, (∀ plaintext zeros,
    padded ≠ plaintext ++ 0x80 :: List.replicate zeros 0) → unpad padded = err .invalidPadding
  rejectsEmpty : unpad [] = err .invalidPadding
  rejectsZeros : ∀ n, unpad (List.replicate n 0) = err .invalidPadding
  inverts : ∀ padding : Padding, padding.isPadded = true → ∀ plaintext out,
    padding.pad plaintext = .ok out → ∃ padded, out = some padded ∧ unpad padded = .ok plaintext
  injective : ∀ padding : Padding, padding.isPadded = true → ∀ plaintext plaintext' out,
    padding.pad plaintext = .ok out → padding.pad plaintext' = .ok out → plaintext = plaintext'
  /-- Two policies write the same plaintext. -/
  agrees : ∀ (padding padding' : Padding) (plaintext padded padded' : Bytes),
    padding.pad plaintext = .ok (some padded) → padding'.pad plaintext = .ok (some padded') →
      unpad padded = .ok plaintext ∧ unpad padded' = .ok plaintext
  /-- The index into the plaintext is in range: where it is not, `unpadIndexed` panics. -/
  inRange : ∀ padded, unpadIndexed padded = unpad padded
  /-- What `pad` returns fills the buffer that was reserved for it. -/
  inPlace : ∀ (padding : Padding) (plaintext : Bytes), padding.padInPlace plaintext
    = Option.map (fun padded => some (Buffer.full padded)) <$> padding.pad plaintext

theorem unpadding_exact : UnpaddingExact where
  reads := fun padded plaintext => unpad_eq_ok
  unique := fun plaintext plaintext' zeros zeros' h => append_paddingTail_inj h
  rejects := fun padded h => unpad_eq_error.mpr ⟨rfl, h⟩
  rejectsEmpty := unpad_replicate 0
  rejectsZeros := unpad_replicate
  inverts := fun padding hPadded plaintext out h => Padding.unpad_of_pad hPadded h
  injective := by
    intro padding hPadded plaintext plaintext' out h h'
    obtain ⟨padded, rfl, hUnpad⟩ := Padding.unpad_of_pad hPadded h
    exact Except.ok.inj (hUnpad.symm.trans (unpad_pad h'))
  agrees := fun padding padding' plaintext padded padded' h h' => ⟨unpad_pad h, unpad_pad h'⟩
  inRange := unpadIndexed_eq
  inPlace := Padding.padInPlace_eq

/-- A plaintext that ends like padding keeps its ending. -/
example : (Padding.pad ⟨.block 4, by decide⟩ [0x61, 0x80, 0, 0]).toOption.join.map unpad
    = some (.ok [0x61, 0x80, 0, 0]) := by decide

end Cryptbox

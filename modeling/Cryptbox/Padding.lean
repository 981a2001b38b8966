import Cryptbox.Slice

/-!
# Padding

`padding.rs`. A policy expands encoded plaintext before encryption; the envelope records
whether its payload is padded, and a reader removes padding from the flag alone, without
the policy. A `Padding` carries that its parameters passed the assertions of its
constructor.

* `unpad_eq_ok`: unpadding reads exactly a `0x80` marker followed by zero bytes.
* `pad_cases`: every policy that pads appends such a tail.
* `unpad_pad`: so unpadding inverts every policy.
* `exists_pad`: every tail is written by some policy, except the bare marker after an
  empty plaintext (`pad_ne_marker`).
-/

namespace Cryptbox

open Base

inductive Policy where
  | none
  | block (size : UInt64)
  | length (len : UInt64)
  deriving DecidableEq, Repr

/-- The assertions of `Padding::block` and `Padding::length`. -/
def Policy.Valid : Policy → Prop
  | .none => True
  | .block size => 2 ≤ size.toNat
  | .length len => 1 ≤ len.toNat

instance : DecidablePred Policy.Valid
  | .none => inferInstanceAs (Decidable True)
  | .block size => inferInstanceAs (Decidable (2 ≤ size.toNat))
  | .length len => inferInstanceAs (Decidable (1 ≤ len.toNat))

/-- A padding policy with valid parameters. -/
structure Padding where
  policy : Policy
  valid : policy.Valid

/-- The marker and the zeros after it. -/
def paddingTail (zeros : Nat) : Bytes := 0x80 :: List.replicate zeros 0

@[simp] theorem length_paddingTail (zeros : Nat) : (paddingTail zeros).length = zeros + 1 := by
  simp [paddingTail]

namespace Padding

/-- `Padding::NONE`. -/
def none : Padding := ⟨.none, trivial⟩

/-- `Padding::block`. -/
def block (size : UInt64) : Result Padding :=
  if h : 2 ≤ size.toNat then .ok ⟨.block size, h⟩ else panics

/-- `Padding::length`. -/
def length (len : UInt64) : Result Padding :=
  if h : 1 ≤ len.toNat then .ok ⟨.length len, h⟩ else panics

/-- Whether this policy pads plaintext. -/
def isPadded (padding : Padding) : Bool :=
  match padding.policy with
  | .none => false
  | .block _ => true
  | .length _ => true

/-- Whether the policy takes a plaintext of `len` bytes. -/
def Fits (padding : Padding) (len : Nat) : Prop :=
  match padding.policy with
  | .none => True
  | .block _ => True
  | .length length => len ≤ length.toNat

instance (padding : Padding) (len : Nat) : Decidable (padding.Fits len) := by
  unfold Fits
  split <;> infer_instance

/-- The length that a plaintext of `len` bytes is padded to. -/
def paddedLen (padding : Padding) (len : Nat) : Nat :=
  match padding.policy with
  | .none => len
  | .block size => size.toNat * (len / size.toNat + 1)
  | .length length => length.toNat + 1

end Padding

def padToLength (plaintext : Bytes) (target : Nat) : Result Bytes := do
  withCapacity target
  return resize (plaintext ++ [0x80]) target 0

/-- Applies a policy to encoded plaintext; `none` when the policy does not pad. -/
def Padding.pad (padding : Padding) (plaintext : Bytes) : Result (Option Bytes) :=
  match padding.policy with
  | .none => .ok Option.none
  | .block size => do
    let lengthWithMarker ← okOr (checkedAdd plaintext.length 1) .messageTooLong
    let blocks := divCeil lengthWithMarker size.toNat
    let target ← okOr (checkedMul blocks size.toNat) .messageTooLong
    return some (← padToLength plaintext target)
  | .length length => do
    ensure (plaintext.length ≤ length.toNat) .paddingOverflow
    let target ← okOr (checkedAdd length.toNat 1) .messageTooLong
    return some (← padToLength plaintext target)

/-- Removes ISO/IEC 7816-4 padding from decrypted plaintext. -/
def unpad (plaintext : Bytes) : Result Bytes := do
  let marker ← okOr ((rposition (fun byte => decide (byte ≠ 0)) plaintext).filter
    fun position => decide (plaintext[position]? = some 0x80)) .invalidPadding
  return plaintext.take marker

/-! ## Padding writes a marker and zeros -/

theorem padToLength_eq_ok {plaintext padded : Bytes} {target : Nat}
    (hTarget : plaintext.length + 1 ≤ target) :
    padToLength plaintext target = .ok padded ↔
      target ≤ isizeMax ∧ padded = plaintext ++ paddingTail (target - (plaintext.length + 1)) := by
  have hResize : resize (plaintext ++ [0x80]) target 0
      = plaintext ++ paddingTail (target - (plaintext.length + 1)) := by
    unfold resize paddingTail
    rw [List.take_of_length_le (by simpa using hTarget)]
    simp
  unfold padToLength
  rw [bind_eq_ok, hResize]
  constructor
  · intro h
    obtain ⟨_, hCap, h⟩ := h
    exact ⟨withCapacity_eq_ok.mp hCap, (pure_eq_ok.mp h).symm⟩
  · intro h
    obtain ⟨hCap, rfl⟩ := h
    exact ⟨(), withCapacity_eq_ok.mpr hCap, rfl⟩

namespace Padding

variable {padding : Padding} {plaintext : Bytes}

/-- There is always room for the marker. -/
theorem lt_paddedLen {len : Nat} (hPadded : padding.isPadded = true) (hFits : padding.Fits len) :
    len < padding.paddedLen len := by
  obtain ⟨policy, hValid⟩ := padding
  cases policy with
  | none => cases hPadded
  | block size => exact Nat.lt_mul_div_succ len (Nat.lt_of_lt_of_le (by omega) hValid)
  | length length => exact Nat.lt_succ_of_le hFits

theorem padToLength_of_lt {target : Nat} (h : isizeMax < target) :
    padToLength plaintext target = panics := by
  rw [padToLength, withCapacity_of_lt h, error_bind]

theorem pad_not_fits (h : ¬ padding.Fits plaintext.length) :
    padding.pad plaintext = err .paddingOverflow := by
  obtain ⟨policy, hValid⟩ := padding
  cases policy with
  | none => exact absurd trivial h
  | block size => exact absurd trivial h
  | length length => exact bind_eq_error.mpr (Or.inl (ensure_eq_error.mpr ⟨h, rfl⟩))

/-- Neither the marker nor the rounding up to a block overflows without an error. -/
theorem pad_overflow (hPadded : padding.isPadded = true) (hFits : padding.Fits plaintext.length)
    (h : usizeMax < padding.paddedLen plaintext.length) :
    padding.pad plaintext = err .messageTooLong := by
  obtain ⟨policy, hValid⟩ := padding
  cases policy with
  | none => cases hPadded
  | block size =>
    by_cases hLen : plaintext.length + 1 ≤ usizeMax
    · have hAdd : okOr (checkedAdd plaintext.length 1) .messageTooLong
          = .ok (plaintext.length + 1) := okOr_eq_ok.mpr (checkedAdd_eq_some.mpr ⟨hLen, rfl⟩)
      have hMul : checkedMul (divCeil (plaintext.length + 1) size.toNat) size.toNat
          = Option.none := by
        rw [checkedMul_eq_none, divCeil_succ_mul]
        exact h
      exact bind_eq_error.mpr (Or.inr ⟨_, hAdd,
        bind_eq_error.mpr (Or.inl (okOr_eq_error.mpr ⟨hMul, rfl⟩))⟩)
    · have hAdd := checkedAdd_eq_none.mpr (Nat.lt_of_not_le hLen)
      exact bind_eq_error.mpr (Or.inl (okOr_eq_error.mpr ⟨hAdd, rfl⟩))
  | length length =>
    have hAdd : checkedAdd length.toNat 1 = Option.none := checkedAdd_eq_none.mpr h
    exact bind_eq_error.mpr (Or.inr ⟨(), ensure_eq_ok.mpr hFits,
      bind_eq_error.mpr (Or.inl (okOr_eq_error.mpr ⟨hAdd, rfl⟩))⟩)

/-- Otherwise a buffer of the padded length is reserved and filled. -/
theorem pad_reserves (hPadded : padding.isPadded = true) (hFits : padding.Fits plaintext.length)
    (h : padding.paddedLen plaintext.length ≤ usizeMax) :
    padding.pad plaintext
      = some <$> padToLength plaintext (padding.paddedLen plaintext.length) := by
  have hMarker := lt_paddedLen hPadded hFits
  obtain ⟨policy, hValid⟩ := padding
  cases policy with
  | none => cases hPadded
  | block size =>
    have hAdd : okOr (checkedAdd plaintext.length 1) .messageTooLong
        = .ok (plaintext.length + 1) :=
      okOr_eq_ok.mpr (checkedAdd_eq_some.mpr ⟨Nat.le_trans hMarker h, rfl⟩)
    have hMul : okOr (checkedMul (divCeil (plaintext.length + 1) size.toNat) size.toNat)
        .messageTooLong = .ok (size.toNat * (plaintext.length / size.toNat + 1)) :=
      okOr_eq_ok.mpr (checkedMul_eq_some.mpr
        ⟨(divCeil_succ_mul ..).trans_le h, divCeil_succ_mul ..⟩)
    simp only [pad, hAdd, hMul, ok_bind]
    rfl
  | length length =>
    have hFits : ensure (plaintext.length ≤ length.toNat) .paddingOverflow = .ok () :=
      ensure_eq_ok.mpr hFits
    have hAdd : okOr (checkedAdd length.toNat 1) .messageTooLong = .ok (length.toNat + 1) :=
      okOr_eq_ok.mpr (checkedAdd_eq_some.mpr ⟨h, rfl⟩)
    simp only [pad, hFits, hAdd, ok_bind]
    rfl

/-- **Every outcome of padding**: the length is refused, the padded length overflows `usize`,
no buffer of that length can be reserved, or it is filled with a marker and zeros. -/
theorem pad_eq (hPadded : padding.isPadded = true) :
    padding.pad plaintext =
      if ¬ padding.Fits plaintext.length then err .paddingOverflow
      else if usizeMax < padding.paddedLen plaintext.length then err .messageTooLong
      else if isizeMax < padding.paddedLen plaintext.length then panics
      else .ok (some (plaintext ++
        paddingTail (padding.paddedLen plaintext.length - (plaintext.length + 1)))) := by
  split
  · next hFits => exact pad_not_fits hFits
  · next hFits =>
    have hFits : padding.Fits plaintext.length := not_not.mp hFits
    split
    · next hUsize => exact pad_overflow hPadded hFits hUsize
    · next hUsize =>
      rw [pad_reserves hPadded hFits (Nat.le_of_not_lt hUsize)]
      split
      · next hIsize => rw [padToLength_of_lt hIsize, map_eq_error]
      · next hIsize =>
        have hMarker := lt_paddedLen hPadded hFits
        exact map_eq_ok.mpr
          ⟨_, (padToLength_eq_ok hMarker).mpr ⟨Nat.le_of_not_lt hIsize, rfl⟩, rfl⟩

theorem pad_none (h : padding.isPadded = false) : padding.pad plaintext = .ok Option.none := by
  obtain ⟨policy, hValid⟩ := padding
  cases policy with
  | none => rfl
  | block size => cases h
  | length length => cases h

/-- Only a length that does not fit is an overflow of the padding. -/
theorem pad_paddingOverflow_iff :
    padding.pad plaintext = err .paddingOverflow ↔ ¬ padding.Fits plaintext.length := by
  constructor
  · intro h hFits
    cases hPadded : padding.isPadded with
    | false => cases (pad_none hPadded).symm.trans h
    | true =>
      rw [pad_eq hPadded, if_neg (not_not_intro hFits)] at h
      split at h
      · cases h
      split at h <;> cases h
  · exact pad_not_fits

theorem pad_eq_ok (hPadded : padding.isPadded = true) {out : Option Bytes} :
    padding.pad plaintext = .ok out ↔
      padding.Fits plaintext.length ∧ padding.paddedLen plaintext.length ≤ isizeMax ∧
        out = some (plaintext ++
          paddingTail (padding.paddedLen plaintext.length - (plaintext.length + 1))) := by
  have hSizes : isizeMax ≤ usizeMax := by decide
  rw [pad_eq hPadded]
  constructor
  · intro h
    split at h
    · cases h
    split at h
    · cases h
    split at h
    · cases h
    · next hFits _ hIsize =>
      exact ⟨not_not.mp hFits, Nat.le_of_not_lt hIsize, (Except.ok.inj h).symm⟩
  · intro h
    obtain ⟨hFits, hIsize, rfl⟩ := h
    rw [if_neg (not_not_intro hFits), if_neg (by omega), if_neg (by omega)]

end Padding

/-- A policy that pads appends a marker and zeros; `NONE` leaves the plaintext alone. -/
theorem pad_cases {padding : Padding} {plaintext : Bytes} {out : Option Bytes}
    (h : padding.pad plaintext = .ok out) :
    (padding.isPadded = false ∧ out = none) ∨
      (padding.isPadded = true ∧ ∃ zeros, out = some (plaintext ++ paddingTail zeros)) := by
  cases hPadded : padding.isPadded with
  | false => exact Or.inl ⟨rfl, (Except.ok.inj ((Padding.pad_none hPadded).symm.trans h)).symm⟩
  | true =>
    obtain ⟨-, -, rfl⟩ := (Padding.pad_eq_ok hPadded).mp h
    exact Or.inr ⟨rfl, _, rfl⟩

/-! ## Unpadding reads them back -/

/-- **Unpadding reads exactly a marker followed by zeros.** -/
theorem unpad_eq_ok {padded plaintext : Bytes} :
    unpad padded = .ok plaintext ↔ ∃ zeros, padded = plaintext ++ paddingTail zeros := by
  unfold unpad
  rw [bind_eq_ok]
  constructor
  · intro h
    obtain ⟨marker, hMarker, h⟩ := h
    cases pure_eq_ok.mp h
    obtain ⟨hLast, hByte⟩ := Option.filter_eq_some_iff.mp (okOr_eq_ok.mp hMarker)
    obtain ⟨before, byte, after, rfl, rfl, -, hAfter⟩ := rposition_eq_some.mp hLast
    have hByte : byte = 0x80 := by simpa using hByte
    have hZeros : after = List.replicate after.length 0 :=
      List.eq_replicate_iff.mpr ⟨rfl, by simpa using hAfter⟩
    refine ⟨after.length, ?_⟩
    rw [List.take_left, paddingTail, ← hZeros, hByte]
  · intro h
    obtain ⟨zeros, rfl⟩ := h
    refine ⟨plaintext.length, okOr_eq_ok.mpr (Option.filter_eq_some_iff.mpr ⟨?_, ?_⟩), ?_⟩
    · exact rposition_eq_some.mpr ⟨plaintext, 0x80, List.replicate zeros 0, rfl, rfl, rfl,
        by simp⟩
    · simp [paddingTail]
    · exact pure_eq_ok.mpr (List.take_left ..)

/-- Everything else is rejected. -/
theorem unpad_eq_error {padded : Bytes} {f : Failure} :
    unpad padded = .error f ↔
      f = .err .invalidPadding ∧ ∀ plaintext zeros, padded ≠ plaintext ++ paddingTail zeros := by
  cases hUnpad : unpad padded with
  | ok plaintext =>
    obtain ⟨zeros, hTail⟩ := unpad_eq_ok.mp hUnpad
    constructor
    · intro h
      cases h
    · intro h
      exact absurd hTail (h.2 plaintext zeros)
  | error g =>
    have hNone (plaintext : Bytes) (zeros : Nat) : padded ≠ plaintext ++ paddingTail zeros := by
      intro hTail
      cases hUnpad.symm.trans (unpad_eq_ok.mpr ⟨zeros, hTail⟩)
    have hError : g = .err .invalidPadding := by
      rcases bind_eq_error.mp hUnpad with h | ⟨position, -, h⟩
      · exact (okOr_eq_error.mp h).2
      · cases h
    rw [hError]
    constructor
    · intro h
      cases h
      exact ⟨rfl, hNone⟩
    · intro h
      rw [h.1]

/-- Unpadding inverts every policy. -/
theorem unpad_pad {padding : Padding} {plaintext padded : Bytes}
    (h : padding.pad plaintext = .ok (some padded)) : unpad padded = .ok plaintext := by
  rcases pad_cases h with ⟨-, hNone⟩ | ⟨-, zeros, hPadded⟩
  · cases hNone
  · exact unpad_eq_ok.mpr ⟨zeros, Option.some.inj hPadded⟩

/-! ## Which tails a policy can write -/

/-- Some policy writes a given tail, when the padded plaintext is not the bare marker. -/
theorem exists_pad {plaintext : Bytes} {zeros : Nat} (hLong : 1 ≤ plaintext.length + zeros)
    (hFits : plaintext.length + zeros + 1 ≤ isizeMax) :
    ∃ padding : Padding,
      padding.pad plaintext = .ok (some (plaintext ++ paddingTail zeros)) := by
  have hLen : (UInt64.ofNat (plaintext.length + zeros)).toNat = plaintext.length + zeros := by
    rw [UInt64.toNat_ofNat']
    exact Nat.mod_eq_of_lt (by unfold isizeMax at hFits; omega)
  have hValid : (Policy.length (UInt64.ofNat (plaintext.length + zeros))).Valid := by
    rw [Policy.Valid, hLen]
    exact hLong
  refine ⟨⟨_, hValid⟩, (Padding.pad_eq_ok rfl).mpr ⟨?_, ?_, ?_⟩⟩
  · show plaintext.length ≤ (UInt64.ofNat (plaintext.length + zeros)).toNat
    omega
  · show (UInt64.ofNat (plaintext.length + zeros)).toNat + 1 ≤ isizeMax
    omega
  · show _ = some (plaintext ++ paddingTail
      ((UInt64.ofNat (plaintext.length + zeros)).toNat + 1 - (plaintext.length + 1)))
    rw [hLen, show plaintext.length + zeros + 1 - (plaintext.length + 1) = zeros by omega]

/-- Blocks have at least 2 bytes, and so does a padded value of a fixed length. -/
theorem Padding.two_le_paddedLen {padding : Padding} (hPadded : padding.isPadded = true)
    (len : Nat) : 2 ≤ padding.paddedLen len := by
  obtain ⟨policy, hValid⟩ := padding
  cases policy with
  | none => cases hPadded
  | block size =>
    have hSize : 2 ≤ size.toNat := hValid
    exact Nat.le_trans hSize (Nat.le_mul_of_pos_right _ (Nat.succ_pos _))
  | length length =>
    have hLength : 1 ≤ length.toNat := hValid
    exact Nat.succ_le_succ hLength

/-- No policy writes the bare marker. -/
theorem pad_ne_marker (padding : Padding) : padding.pad [] ≠ .ok (some [0x80]) := by
  intro h
  cases hPadded : padding.isPadded with
  | false => cases (Padding.pad_none hPadded).symm.trans h
  | true =>
    obtain ⟨-, -, hOut⟩ := (Padding.pad_eq_ok hPadded).mp h
    have hTwo := Padding.two_le_paddedLen hPadded 0
    have hLen := congrArg List.length (Option.some.inj hOut)
    simp only [List.length_cons, List.length_nil, List.length_append, length_paddingTail] at hLen
    omega

end Cryptbox

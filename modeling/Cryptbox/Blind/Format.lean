import Cryptbox.Key
import Cryptbox.Slice

/-!
# The blind-index format

`blind/format.rs`. A stored index is a header of 19 bytes (version, index key ID and the
number of bits) followed by that many bits of a digest; the unused bits of the last byte
are zero.

* `inspectBlindIndex_eq_ok`: the parser accepts exactly a header followed by a digest of
  the size it names (`IsDigest`).
* `inspectBlindIndex_eq_error`: every other input is an error, never a panic.
* `encodeIndex_header`: the encoder writes such bytes, whatever the digest.
-/

namespace Cryptbox

open Base

def indexFormatVersion : UInt8 := 2
def maxIndexBits : Nat := 256
def indexKeyIdOffset : Nat := 1
def indexBitsOffset : Nat := indexKeyIdOffset + 16
abbrev indexHeaderLen : Nat := indexBitsOffset + 2

/-- Structurally parsed, unauthenticated blind-index metadata. -/
structure BlindIndexInfo where
  formatVersion : UInt8
  indexKeyId : IndexKeyId
  bits : UInt16
  deriving DecidableEq

/-- The permitted range of `BITS`. -/
def validBits (bits : Nat) : Bool := decide (0 < bits ∧ bits ≤ maxIndexBits)

/-- The bits of the last byte that belong to the digest. -/
def finalByteMask (bits : Nat) : UInt8 :=
  if bits % 8 = 0 then 255 else 255 <<< UInt8.ofNat (8 - bits % 8)

/-- Reads the index key ID of an index that already passed validation. -/
def storedKeyId (bytes : Bytes) : Result IndexKeyId :=
  Identifier.fromBytes <$> field 16 bytes indexKeyIdOffset

/-- Parses blind-index metadata without authenticating it. -/
def inspectBlindIndex (bytes : Bytes) : Result BlindIndexInfo := do
  ensure (indexHeaderLen ≤ bytes.length) .invalidBlindIndex
  let version ← index bytes 0
  ensure (version = indexFormatVersion) (.unsupportedBlindIndexVersion version)
  let bits := UInt16.ofNat (value (← field 2 bytes indexBitsOffset).val)
  ensure (validBits bits.toNat = true) .invalidBlindIndex
  let digestLen := divCeil bits.toNat 8
  ensure (bytes.length = indexHeaderLen + digestLen) .invalidBlindIndex
  let last ← okOr bytes.getLast? .invalidBlindIndex
  ensure (last &&& ~~~finalByteMask bits.toNat = 0) .invalidBlindIndex
  let indexKeyId ← storedKeyId bytes
  return { formatVersion := indexFormatVersion, indexKeyId, bits }

def indexHeader (keyId : IndexKeyId) (bits : UInt16) : Bytes :=
  indexFormatVersion :: (keyId.asBytes.val ++ be 2 bits.toNat)

/-- Clears the bits of the last byte that `mask` does not keep. -/
def maskLast (mask : UInt8) (bytes : Bytes) : Bytes :=
  bytes.dropLast ++ (bytes.getLast?.map (· &&& mask)).toList

/-- Writes `header` and the first `bits` bits of `digest`. -/
def encodeIndex (header : Bytes) (digest : Block 32) (bits : UInt16) : Result Bytes := do
  let digestLen := divCeil bits.toNat 8
  withCapacity (indexHeaderLen + digestLen)
  let kept ← slice digest.val 0 digestLen
  return maskLast (finalByteMask bits.toNat) (header ++ kept)

/-! ## What the parser accepts -/

/-- `bits` bits of a digest, with zeros up to a whole byte. -/
structure IsDigest (bits : Nat) (body : Bytes) : Prop where
  length_eq : body.length = divCeil bits 8
  masked : ∀ last, body.getLast? = some last → last &&& ~~~finalByteMask bits = 0

/-- A header with an arbitrary version byte. -/
def rawIndexHeader (version : UInt8) (keyId : IndexKeyId) (bits : UInt16) : Bytes :=
  version :: (keyId.asBytes.val ++ be 2 bits.toNat)

@[simp] theorem length_rawIndexHeader (version : UInt8) (keyId : IndexKeyId) (bits : UInt16) :
    (rawIndexHeader version keyId bits).length = indexHeaderLen := by
  simp [rawIndexHeader, indexHeaderLen, indexBitsOffset, indexKeyIdOffset]

theorem exists_rawIndexHeader {bytes : Bytes} (h : indexHeaderLen ≤ bytes.length) :
    ∃ version keyId bits body, bytes = rawIndexHeader version keyId bits ++ body := by
  have h : 19 ≤ bytes.length := h
  obtain ⟨version, rest, rfl⟩ : ∃ version rest, bytes = version :: rest :=
    List.exists_cons_of_length_pos (by omega)
  rw [List.length_cons] at h
  obtain ⟨keyId, rest, rfl⟩ := Block.exists_append 16 rest (by omega)
  rw [List.length_append, keyId.length_val] at h
  obtain ⟨bits, body, rfl⟩ := Block.exists_append 2 rest (by omega)
  obtain ⟨n, hBits⟩ : ∃ n : UInt16, be 2 n.toNat = bits.val := by
    have hLt := value_lt bits.val
    have hDigits := be_value bits.val
    rw [bits.length_val] at hLt hDigits
    have hLt : value bits.val < 2 ^ 16 := hLt
    exact ⟨UInt16.ofNat (value bits.val), by
      rwa [UInt16.toNat_ofNat', Nat.mod_eq_of_lt hLt]⟩
  exact ⟨version, ⟨keyId⟩, n, body, by simp [rawIndexHeader, hBits]⟩

theorem field_keyId_rawIndexHeader (version : UInt8) (keyId : IndexKeyId) (bits : UInt16)
    (body : Bytes) :
    field 16 (rawIndexHeader version keyId bits ++ body) indexKeyIdOffset = .ok keyId.asBytes := by
  rw [show rawIndexHeader version keyId bits ++ body
    = [version] ++ (keyId.asBytes.val ++ (be 2 bits.toNat ++ body)) by simp [rawIndexHeader]]
  exact field_append _ _ _ rfl

theorem storedKeyId_rawIndexHeader (version : UInt8) (keyId : IndexKeyId) (bits : UInt16)
    (body : Bytes) : storedKeyId (rawIndexHeader version keyId bits ++ body) = .ok keyId := by
  rw [storedKeyId, field_keyId_rawIndexHeader]
  rfl

theorem field_bits_rawIndexHeader (version : UInt8) (keyId : IndexKeyId) (bits : UInt16)
    (body : Bytes) :
    field 2 (rawIndexHeader version keyId bits ++ body) indexBitsOffset
      = .ok (beBlock 2 bits.toNat) := by
  rw [show rawIndexHeader version keyId bits ++ body
    = (version :: keyId.asBytes.val) ++ ((beBlock 2 bits.toNat).val ++ body) by
      simp [rawIndexHeader, beBlock]]
  exact field_append _ _ _ (by simp [indexBitsOffset, indexKeyIdOffset])

theorem bits_rawIndexHeader (bits : UInt16) :
    UInt16.ofNat (value (beBlock 2 bits.toNat).val) = bits := by
  have hLt : bits.toNat < 256 ^ 2 := bits.toNat_lt
  rw [beBlock, value_be, Nat.mod_eq_of_lt hLt, UInt16.ofNat_toNat]

theorem divCeil_pos {bits : Nat} (h : validBits bits = true) : 0 < divCeil bits 8 := by
  have hPos : 0 < bits := (of_decide_eq_true h).1
  have := le_divCeil_mul bits 8 (by decide)
  omega

theorem getLast?_append_of_length_pos {header body : Bytes} (h : 0 < body.length) :
    (header ++ body).getLast? = body.getLast? := by
  rw [List.getLast?_append]
  cases hLast : body.getLast? with
  | none => rw [List.getLast?_eq_none_iff.mp hLast] at h; cases h
  | some last => rfl

/-- The parser on bytes long enough for a header: the checks that remain. -/
theorem inspectBlindIndex_rawIndexHeader (version : UInt8) (keyId : IndexKeyId) (bits : UInt16)
    (body : Bytes) :
    inspectBlindIndex (rawIndexHeader version keyId bits ++ body) = (do
      ensure (version = indexFormatVersion) (.unsupportedBlindIndexVersion version)
      ensure (validBits bits.toNat = true) .invalidBlindIndex
      ensure ((rawIndexHeader version keyId bits ++ body).length
        = indexHeaderLen + divCeil bits.toNat 8) .invalidBlindIndex
      let last ← okOr (rawIndexHeader version keyId bits ++ body).getLast? .invalidBlindIndex
      ensure (last &&& ~~~finalByteMask bits.toNat = 0) .invalidBlindIndex
      return { formatVersion := indexFormatVersion, indexKeyId := keyId, bits }) := by
  have hLen : indexHeaderLen ≤ (rawIndexHeader version keyId bits ++ body).length := by
    rw [List.length_append, length_rawIndexHeader]
    exact Nat.le_add_right ..
  unfold inspectBlindIndex
  rw [ensure, if_pos hLen, ok_bind, show index _ 0 = .ok version from rfl, ok_bind,
    field_bits_rawIndexHeader, storedKeyId_rawIndexHeader]
  simp only [ok_bind, bits_rawIndexHeader]

theorem length_rawIndexHeader_append (version : UInt8) (keyId : IndexKeyId) (bits : UInt16)
    (body : Bytes) :
    (rawIndexHeader version keyId bits ++ body).length = indexHeaderLen + divCeil bits.toNat 8 ↔
      body.length = divCeil bits.toNat 8 := by
  rw [List.length_append, length_rawIndexHeader, Nat.add_left_cancel_iff]

theorem inspectBlindIndex_header {keyId : IndexKeyId} {bits : UInt16} {body : Bytes}
    (hBits : validBits bits.toNat = true) (hBody : IsDigest bits.toNat body) :
    inspectBlindIndex (indexHeader keyId bits ++ body)
      = .ok ⟨indexFormatVersion, keyId, bits⟩ := by
  have hPos : 0 < body.length := hBody.length_eq ▸ divCeil_pos hBits
  obtain ⟨last, hLast⟩ : ∃ last, body.getLast? = some last :=
    ⟨_, List.getLast?_eq_some_getLast (List.ne_nil_of_length_pos hPos)⟩
  rw [show indexHeader keyId bits = rawIndexHeader indexFormatVersion keyId bits from rfl,
    inspectBlindIndex_rawIndexHeader, getLast?_append_of_length_pos hPos, hLast]
  simp only [bind_eq_ok, ensure_eq_ok, okOr_eq_ok, pure_eq_ok]
  exact ⟨(), trivial, (), hBits, (), (length_rawIndexHeader_append ..).mpr hBody.length_eq, last,
    rfl, (), hBody.masked last hLast, trivial⟩

/-- What the parser accepts, and its errors otherwise. -/
theorem inspectBlindIndex_cases (bytes : Bytes) :
    (∃ keyId bits body, bytes = indexHeader keyId bits ++ body ∧
      validBits bits.toNat = true ∧ IsDigest bits.toNat body) ∨
    ((indexHeaderLen ≤ bytes.length → bytes[0]? = some indexFormatVersion) ∧
      inspectBlindIndex bytes = err .invalidBlindIndex) ∨
    ∃ version, indexHeaderLen ≤ bytes.length ∧ bytes[0]? = some version ∧
      version ≠ indexFormatVersion ∧
      inspectBlindIndex bytes = err (.unsupportedBlindIndexVersion version) := by
  by_cases hLen : indexHeaderLen ≤ bytes.length
  · obtain ⟨version, keyId, bits, body, rfl⟩ := exists_rawIndexHeader hLen
    rw [inspectBlindIndex_rawIndexHeader]
    by_cases hVersion : version = indexFormatVersion
    · subst hVersion
      rw [ensure, if_pos rfl, ok_bind]
      by_cases hBits : validBits bits.toNat = true
      · rw [ensure, if_pos hBits, ok_bind]
        by_cases hBody : body.length = divCeil bits.toNat 8
        · have hPos : 0 < body.length := hBody ▸ divCeil_pos hBits
          obtain ⟨last, hLast⟩ : ∃ last, body.getLast? = some last :=
            ⟨_, List.getLast?_eq_some_getLast (List.ne_nil_of_length_pos hPos)⟩
          rw [ensure, if_pos ((length_rawIndexHeader_append ..).mpr hBody), ok_bind,
            getLast?_append_of_length_pos hPos, hLast, okOr, ok_bind]
          by_cases hMask : last &&& ~~~finalByteMask bits.toNat = 0
          · refine Or.inl ⟨keyId, bits, body, rfl, hBits, hBody, ?_⟩
            intro last' h
            rw [hLast] at h
            cases h
            exact hMask
          · refine Or.inr (Or.inl ⟨fun _ => rfl, ?_⟩)
            rw [ensure, if_neg hMask, error_bind]
        · refine Or.inr (Or.inl ⟨fun _ => rfl, ?_⟩)
          rw [ensure, if_neg (fun h => hBody ((length_rawIndexHeader_append ..).mp h)),
            error_bind]
      · refine Or.inr (Or.inl ⟨fun _ => rfl, ?_⟩)
        rw [ensure, if_neg hBits, error_bind]
    · refine Or.inr (Or.inr ⟨version, hLen, rfl, hVersion, ?_⟩)
      rw [ensure, if_neg hVersion, error_bind]
  · refine Or.inr (Or.inl ⟨fun hWhole => absurd hWhole hLen, ?_⟩)
    rw [inspectBlindIndex, ensure, if_neg hLen, error_bind]

/-- **The parser accepts exactly a header and a digest of the size it names.** -/
theorem inspectBlindIndex_eq_ok {bytes : Bytes} {info : BlindIndexInfo} :
    inspectBlindIndex bytes = .ok info ↔
      ∃ keyId bits body, bytes = indexHeader keyId bits ++ body ∧ validBits bits.toNat = true ∧
        IsDigest bits.toNat body ∧ info = ⟨indexFormatVersion, keyId, bits⟩ := by
  constructor
  · intro h
    rcases inspectBlindIndex_cases bytes with ⟨keyId, bits, body, rfl, hBits, hBody⟩ |
      ⟨-, hErr⟩ | ⟨version, -, -, -, hErr⟩
    · exact ⟨keyId, bits, body, rfl, hBits, hBody,
        Except.ok.inj (h.symm.trans (inspectBlindIndex_header hBits hBody))⟩
    · cases h.symm.trans hErr
    · cases h.symm.trans hErr
  · intro h
    obtain ⟨keyId, bits, body, rfl, hBits, hBody, rfl⟩ := h
    exact inspectBlindIndex_header hBits hBody

/-- The key ID that is read at its offset is the one that parsing finds. -/
theorem storedKeyId_of_inspect {bytes : Bytes} {info : BlindIndexInfo}
    (h : inspectBlindIndex bytes = .ok info) : storedKeyId bytes = .ok info.indexKeyId := by
  obtain ⟨keyId, bits, body, rfl, -, -, rfl⟩ := inspectBlindIndex_eq_ok.mp h
  exact storedKeyId_rawIndexHeader ..

/-- The length of an index is that of its precision. -/
theorem length_of_inspect {bytes : Bytes} {info : BlindIndexInfo}
    (h : inspectBlindIndex bytes = .ok info) :
    bytes.length = indexHeaderLen + divCeil info.bits.toNat 8 := by
  obtain ⟨keyId, bits, body, rfl, -, hBody, rfl⟩ := inspectBlindIndex_eq_ok.mp h
  exact (length_rawIndexHeader_append ..).mpr hBody.length_eq

theorem inspectBlindIndex_eq_error {bytes : Bytes} {f : Failure}
    (h : inspectBlindIndex bytes = .error f) :
    f = .err .invalidBlindIndex ∨
      ∃ version, f = .err (.unsupportedBlindIndexVersion version) := by
  rcases inspectBlindIndex_cases bytes with ⟨keyId, bits, body, rfl, hBits, hBody⟩ | ⟨-, hErr⟩ |
    ⟨version, -, -, -, hErr⟩
  · cases h.symm.trans (inspectBlindIndex_header hBits hBody)
  · exact Or.inl (Except.error.inj (h.symm.trans hErr))
  · exact Or.inr ⟨version, Except.error.inj (h.symm.trans hErr)⟩

/-! ## What the encoder writes -/

theorem maskLast_concat (mask : UInt8) (bytes : Bytes) (last : UInt8) :
    maskLast mask (bytes ++ [last]) = bytes ++ [last &&& mask] := by
  rw [maskLast, List.dropLast_concat, List.getLast?_concat]
  rfl

theorem maskLast_append (mask : UInt8) {header body : Bytes} (h : 0 < body.length) :
    maskLast mask (header ++ body) = header ++ maskLast mask body := by
  obtain ⟨front, last, rfl⟩ : ∃ front last, body = front ++ [last] :=
    ⟨_, _, (List.dropLast_append_getLast (List.ne_nil_of_length_pos h)).symm⟩
  rw [← List.append_assoc, maskLast_concat, maskLast_concat, List.append_assoc]

theorem divCeil_le {bits : Nat} (h : validBits bits = true) : divCeil bits 8 ≤ 32 := by
  have hMax : bits ≤ 256 := (of_decide_eq_true h).2
  unfold divCeil
  split <;> omega

/-- The first `bits` bits of `digest`, with zeros up to a whole byte. -/
def truncated (digest : Block 32) (bits : Nat) : Bytes :=
  maskLast (finalByteMask bits) (digest.val.take (divCeil bits 8))

theorem length_take_digest (digest : Block 32) {bits : Nat} (h : validBits bits = true) :
    (digest.val.take (divCeil bits 8)).length = divCeil bits 8 := by
  have := divCeil_le h
  rw [List.length_take, digest.length_val]
  omega

theorem isDigest_truncated (digest : Block 32) {bits : Nat} (hBits : validBits bits = true) :
    IsDigest bits (truncated digest bits) := by
  have hPos := divCeil_pos hBits
  have hLen := length_take_digest digest hBits
  obtain ⟨front, last, hTake⟩ : ∃ front last, digest.val.take (divCeil bits 8) = front ++ [last] :=
    ⟨_, _, (List.dropLast_append_getLast (List.ne_nil_of_length_pos (by omega))).symm⟩
  unfold truncated
  rw [hTake, maskLast_concat]
  constructor
  · rw [← hLen, hTake]
    simp
  · intro byte h
    rw [List.getLast?_concat] at h
    cases h
    rw [UInt8.and_assoc, UInt8.and_not_self]
    exact UInt8.and_zero

/-- **The encoder writes the header and the truncated digest.** -/
theorem encodeIndex_header (header : Bytes) (digest : Block 32) {bits : UInt16}
    (hBits : validBits bits.toNat = true) :
    encodeIndex header digest bits = .ok (header ++ truncated digest bits.toNat) := by
  have hLe := divCeil_le hBits
  have hPos : 0 < (digest.val.take (divCeil bits.toNat 8)).length := by
    rw [length_take_digest digest hBits]
    exact divCeil_pos hBits
  have hCapacity : indexHeaderLen + divCeil bits.toNat 8 ≤ isizeMax := by
    have : indexHeaderLen = 19 := rfl
    unfold isizeMax
    omega
  have hKept : slice digest.val 0 (divCeil bits.toNat 8)
      = .ok (digest.val.take (divCeil bits.toNat 8)) := by
    rw [slice, if_pos ⟨Nat.zero_le _, by rw [digest.length_val]; exact hLe⟩, List.drop_zero]
  refine bind_eq_ok.mpr ⟨(), withCapacity_eq_ok.mpr hCapacity, bind_eq_ok.mpr ⟨_, hKept, ?_⟩⟩
  rw [maskLast_append _ hPos]
  rfl

/-- The header determines the key ID, whatever follows. -/
theorem indexHeader_append_inj {keyId keyId' : IndexKeyId} {bits bits' : UInt16} {x y : Bytes}
    (h : indexHeader keyId bits ++ x = indexHeader keyId' bits' ++ y) :
    keyId = keyId' ∧ bits = bits' ∧ x = y := by
  unfold indexHeader at h
  rw [List.cons_append, List.cons_append, List.append_assoc, List.append_assoc] at h
  obtain ⟨-, h⟩ := List.cons.inj h
  obtain ⟨hKey, h⟩ := Block.append_inj h
  obtain ⟨hBits, h⟩ := List.append_inj h (by simp)
  refine ⟨Identifier.asBytes_injective (congrArg Subtype.val hKey), ?_, h⟩
  exact UInt16.toNat_inj.mp (be_injective bits.toNat_lt bits'.toNat_lt hBits)

end Cryptbox

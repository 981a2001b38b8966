import Cryptbox.Crypto

/-!
# The envelope format

`envelope/format.rs`. An envelope is a header of 31 bytes followed by the payload of its
suite: the magic, one byte each of version, suite and flags, the key ID and the context
fingerprint. `parseEnvelope` makes its checks in the order of the source, the version
before the length.

* `parseEnvelope_cases`: every outcome of the parser, with the bytes that lead to it.
* `parseEnvelope_eq_ok`: it accepts exactly a header followed by a payload, and returns
  what stands in the header.
-/

namespace Cryptbox

open Base

/-- `MAGIC`. -/
def magic : Bytes := byteString "CBX\x00"

def formatVersion : UInt8 := 2

/-- `FLAG_PADDED`. -/
def flagPadded : UInt8 := 0x01

def formatVersionOffset : Nat := 4
def suiteIdOffset : Nat := formatVersionOffset + 1
def flagsOffset : Nat := suiteIdOffset + 1
def keyIdOffset : Nat := flagsOffset + 1
def fingerprintOffset : Nat := keyIdOffset + 16
def headerLen : Nat := fingerprintOffset + 8

/-- Identifies a complete encryption-suite construction. -/
structure SuiteId where
  get : UInt8
  deriving DecidableEq, Repr

/-- Structurally parsed, unauthenticated ciphertext metadata. -/
structure CiphertextInfo where
  formatVersion : UInt8
  suiteId : SuiteId
  padded : Bool
  keyId : KeyId
  contextFingerprint : Block 8
  deriving DecidableEq, Repr

structure ParsedEnvelope where
  info : CiphertextInfo
  flags : UInt8
  /-- The whole envelope: the header followed by the suite payload. -/
  bytes : Bytes
  header : Bytes
  suitePayload : Bytes
  deriving DecidableEq, Repr

/-- Rejects reserved flag bits. -/
def ParsedEnvelope.checkFlags (parsed : ParsedEnvelope) : Result Unit :=
  ensure (parsed.flags &&& ~~~flagPadded = 0) (.unsupportedFlags parsed.flags)

/-- Whether `bytes` begin with the ciphertext magic. -/
def isCiphertext (bytes : Bytes) : Bool := magic.isPrefixOf bytes

/-- The key ID of an envelope that already passed structural validation. -/
def validatedKeyId (bytes : Bytes) : Result KeyId :=
  Identifier.fromBytes <$> field 16 bytes keyIdOffset

def parseEnvelope (bytes : Bytes) : Result ParsedEnvelope := do
  ensure (isCiphertext bytes = true) .notCiphertext
  -- The version is checked before the length: a later format may have a shorter header.
  let version ← okOr bytes[formatVersionOffset]? .invalidEnvelope
  ensure (version = formatVersion) (.unsupportedFormatVersion version)
  ensure (headerLen ≤ bytes.length) .invalidEnvelope
  let flags ← index bytes flagsOffset
  let suiteId ← index bytes suiteIdOffset
  let padded := decide (flags &&& flagPadded ≠ 0)
  let keyId ← field 16 bytes keyIdOffset
  let contextFingerprint ← field 8 bytes fingerprintOffset
  let header ← slice bytes 0 headerLen
  let suitePayload ← slice bytes headerLen bytes.length
  return {
    bytes, flags, header, suitePayload
    info := {
      formatVersion := version, suiteId := ⟨suiteId⟩, padded
      keyId := .fromBytes keyId, contextFingerprint } }

def envelopeHeader (suiteId : SuiteId) (padded : Bool) (keyId : KeyId) (fingerprint : Block 8) :
    Bytes :=
  let flags := if padded then flagPadded else 0
  magic ++ [formatVersion, suiteId.get, flags] ++ keyId.asBytes.val ++ fingerprint.val

/-! ## What the parser accepts -/

/-- A header with arbitrary suite and flag bytes. -/
def rawHeader (suite flags : UInt8) (keyId : KeyId) (fingerprint : Block 8) : Bytes :=
  magic ++ [formatVersion, suite, flags] ++ keyId.asBytes.val ++ fingerprint.val

/-- What the parser returns for a header and its payload. -/
def parsedOf (suite flags : UInt8) (keyId : KeyId) (fingerprint : Block 8) (payload : Bytes) :
    ParsedEnvelope where
  info := {
    formatVersion, suiteId := ⟨suite⟩, padded := decide (flags &&& flagPadded ≠ 0), keyId
    contextFingerprint := fingerprint }
  flags := flags
  bytes := rawHeader suite flags keyId fingerprint ++ payload
  header := rawHeader suite flags keyId fingerprint
  suitePayload := payload

@[simp] theorem length_magic : magic.length = 4 := rfl

@[simp] theorem length_rawHeader (suite flags : UInt8) (keyId : KeyId) (fingerprint : Block 8) :
    (rawHeader suite flags keyId fingerprint).length = headerLen := by
  simp [rawHeader]
  rfl

/-- Without reserved bits, the flags byte is one of the two that are written. -/
theorem flags_cases {flags : UInt8} (h : flags &&& ~~~flagPadded = 0) :
    flags = 0 ∨ flags = flagPadded := by
  have hAll : ∀ byte : Fin 256, UInt8.ofFin byte &&& ~~~flagPadded = 0 →
      UInt8.ofFin byte = 0 ∨ UInt8.ofFin byte = flagPadded := by decide +kernel
  exact hAll flags.toFin h

theorem isCiphertext_iff {bytes : Bytes} :
    isCiphertext bytes = true ↔ ∃ rest, bytes = magic ++ rest := by
  rw [isCiphertext, List.isPrefixOf_iff_prefix]
  exact ⟨fun ⟨rest, h⟩ => ⟨rest, h.symm⟩, fun ⟨rest, h⟩ => ⟨rest, h.symm⟩⟩

theorem isCiphertext_rawHeader (suite flags : UInt8) (keyId : KeyId) (fingerprint : Block 8)
    (payload : Bytes) : isCiphertext (rawHeader suite flags keyId fingerprint ++ payload) = true :=
  isCiphertext_iff.mpr ⟨[formatVersion, suite, flags] ++ keyId.asBytes.val ++ fingerprint.val
    ++ payload, by simp [rawHeader]⟩

theorem field_keyId_rawHeader (suite flags : UInt8) (keyId : KeyId) (fingerprint : Block 8)
    (payload : Bytes) :
    field 16 (rawHeader suite flags keyId fingerprint ++ payload) keyIdOffset
      = .ok keyId.asBytes := by
  rw [show rawHeader suite flags keyId fingerprint ++ payload
    = (magic ++ [formatVersion, suite, flags])
      ++ (keyId.asBytes.val ++ (fingerprint.val ++ payload)) by simp [rawHeader]]
  exact field_append _ _ _ rfl

theorem parseEnvelope_rawHeader (suite flags : UInt8) (keyId : KeyId) (fingerprint : Block 8)
    (payload : Bytes) :
    parseEnvelope (rawHeader suite flags keyId fingerprint ++ payload)
      = .ok (parsedOf suite flags keyId fingerprint payload) := by
  have hLen : headerLen ≤ (rawHeader suite flags keyId fingerprint ++ payload).length := by
    rw [List.length_append, length_rawHeader]
    exact Nat.le_add_right ..
  have hFingerprint : field 8 (rawHeader suite flags keyId fingerprint ++ payload)
      fingerprintOffset = .ok fingerprint := by
    rw [rawHeader, List.append_assoc]
    exact field_append _ _ _ (by simp; rfl)
  have hHeader : slice (rawHeader suite flags keyId fingerprint ++ payload) 0 headerLen
      = .ok (rawHeader suite flags keyId fingerprint) := by
    rw [slice, if_pos ⟨Nat.zero_le _, hLen⟩, List.drop_zero,
      List.take_left' (length_rawHeader ..)]
  have hPayload : slice (rawHeader suite flags keyId fingerprint ++ payload) headerLen
      (rawHeader suite flags keyId fingerprint ++ payload).length = .ok payload := by
    rw [slice, if_pos ⟨hLen, le_refl _⟩, List.take_length, List.drop_left' (length_rawHeader ..)]
  unfold parseEnvelope
  simp only [bind_eq_ok, ensure_eq_ok, okOr_eq_ok, index_eq_ok, pure_eq_ok]
  exact ⟨(), isCiphertext_rawHeader .., formatVersion, rfl, (), rfl, (), hLen, flags, rfl, suite,
    rfl, keyId.asBytes, field_keyId_rawHeader .., fingerprint, hFingerprint, _, hHeader, _,
    hPayload, rfl⟩

/-- The bytes that pass every check are a header and a payload. -/
theorem exists_rawHeader {bytes : Bytes} (hMagic : isCiphertext bytes = true)
    (hVersion : bytes[formatVersionOffset]? = some formatVersion)
    (hLen : headerLen ≤ bytes.length) :
    ∃ suite flags keyId fingerprint payload,
      bytes = rawHeader suite flags keyId fingerprint ++ payload := by
  obtain ⟨rest, rfl⟩ := isCiphertext_iff.mp hMagic
  have hRest : 27 ≤ rest.length := by
    rw [List.length_append, length_magic] at hLen
    exact Nat.le_of_add_le_add_left hLen
  obtain ⟨head, rest, rfl⟩ := Block.exists_append 3 rest (Nat.le_trans (by decide) hRest)
  rw [List.length_append, head.length_val] at hRest
  obtain ⟨key, rest, rfl⟩ := Block.exists_append 16 rest (by omega)
  rw [List.length_append, key.length_val] at hRest
  obtain ⟨fingerprint, payload, rfl⟩ := Block.exists_append 8 rest (by omega)
  obtain ⟨version, suite, flags, hHead⟩ := List.length_eq_three.mp head.property
  rw [hHead] at hVersion ⊢
  obtain rfl : version = formatVersion := Option.some.inj hVersion
  exact ⟨suite, flags, ⟨key⟩, fingerprint, payload, by simp [rawHeader]⟩

/-- Every outcome of the parser, in the order of its checks. -/
theorem parseEnvelope_cases (bytes : Bytes) :
    (isCiphertext bytes = false ∧ parseEnvelope bytes = err .notCiphertext) ∨
    (isCiphertext bytes = true ∧ bytes[formatVersionOffset]? = none ∧
      parseEnvelope bytes = err .invalidEnvelope) ∨
    (isCiphertext bytes = true ∧ ∃ version, bytes[formatVersionOffset]? = some version ∧
      version ≠ formatVersion ∧
      parseEnvelope bytes = err (.unsupportedFormatVersion version)) ∨
    (isCiphertext bytes = true ∧ bytes[formatVersionOffset]? = some formatVersion ∧
      bytes.length < headerLen ∧ parseEnvelope bytes = err .invalidEnvelope) ∨
    ∃ suite flags keyId fingerprint payload,
      bytes = rawHeader suite flags keyId fingerprint ++ payload ∧
      parseEnvelope bytes = .ok (parsedOf suite flags keyId fingerprint payload) := by
  by_cases hMagic : isCiphertext bytes = true
  · cases hByte : bytes[formatVersionOffset]? with
    | none =>
      refine Or.inr (Or.inl ⟨hMagic, rfl, ?_⟩)
      simp [parseEnvelope, ensure, hMagic, hByte, okOr]
    | some version =>
      by_cases hVersion : version = formatVersion
      · subst hVersion
        by_cases hLen : headerLen ≤ bytes.length
        · obtain ⟨suite, flags, keyId, fingerprint, payload, rfl⟩ :=
            exists_rawHeader hMagic hByte hLen
          exact Or.inr (Or.inr (Or.inr (Or.inr
            ⟨suite, flags, keyId, fingerprint, payload, rfl, parseEnvelope_rawHeader ..⟩)))
        · refine Or.inr (Or.inr (Or.inr (Or.inl ⟨hMagic, rfl, Nat.lt_of_not_le hLen, ?_⟩)))
          simp [parseEnvelope, ensure, hMagic, hByte, okOr, hLen]
      · refine Or.inr (Or.inr (Or.inl ⟨hMagic, version, rfl, hVersion, ?_⟩))
        simp [parseEnvelope, ensure, hMagic, hByte, okOr, hVersion]
  · have hMagic : isCiphertext bytes = false := Bool.eq_false_iff.mpr hMagic
    refine Or.inl ⟨hMagic, ?_⟩
    simp [parseEnvelope, ensure, hMagic]

/-- **The parser accepts exactly a header and a payload.** -/
theorem parseEnvelope_eq_ok {bytes : Bytes} {parsed : ParsedEnvelope} :
    parseEnvelope bytes = .ok parsed ↔ ∃ suite flags keyId fingerprint payload,
      bytes = rawHeader suite flags keyId fingerprint ++ payload ∧
        parsed = parsedOf suite flags keyId fingerprint payload := by
  constructor
  · intro h
    rcases parseEnvelope_cases bytes with ⟨-, hErr⟩ | ⟨-, -, hErr⟩ | ⟨-, _, -, -, hErr⟩ |
      ⟨-, -, -, hErr⟩ | ⟨suite, flags, keyId, fingerprint, payload, hBytes, hOk⟩
    · cases h.symm.trans hErr
    · cases h.symm.trans hErr
    · cases h.symm.trans hErr
    · cases h.symm.trans hErr
    · exact ⟨suite, flags, keyId, fingerprint, payload, hBytes,
        Except.ok.inj (h.symm.trans hOk)⟩
  · intro h
    obtain ⟨suite, flags, keyId, fingerprint, payload, rfl, rfl⟩ := h
    exact parseEnvelope_rawHeader ..

/-- A header and its payload are read in one way only. -/
theorem rawHeader_append_inj {suite suite' flags flags' : UInt8} {keyId keyId' : KeyId}
    {fingerprint fingerprint' : Block 8} {payload payload' : Bytes}
    (h : rawHeader suite flags keyId fingerprint ++ payload
      = rawHeader suite' flags' keyId' fingerprint' ++ payload') :
    suite = suite' ∧ flags = flags' ∧ keyId = keyId' ∧ fingerprint = fingerprint' ∧
      payload = payload' := by
  have hOk := parseEnvelope_rawHeader suite flags keyId fingerprint payload
  rw [h, parseEnvelope_rawHeader] at hOk
  have hParsed := (Except.ok.inj hOk).symm
  exact ⟨congrArg (fun p => p.info.suiteId.get) hParsed, congrArg ParsedEnvelope.flags hParsed,
    congrArg (fun p => p.info.keyId) hParsed,
    congrArg (fun p => p.info.contextFingerprint) hParsed,
    congrArg ParsedEnvelope.suitePayload hParsed⟩

theorem validatedKeyId_rawHeader (suite flags : UInt8) (keyId : KeyId) (fingerprint : Block 8)
    (payload : Bytes) :
    validatedKeyId (rawHeader suite flags keyId fingerprint ++ payload) = .ok keyId := by
  rw [validatedKeyId, field_keyId_rawHeader]
  rfl

end Cryptbox

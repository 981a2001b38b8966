import Cryptbox.Padding
import Cryptbox.Key
import Cryptbox.Envelope.Format

/-!
# Encryption suites

`envelope/suite.rs` and `envelope/suite/xchacha20_poly1305.rs`. Suite 1 derives its key
from the root key and an info that names the format, the suite, the key and the context,
and authenticates the stored header and nonce together with the context the caller
expects.

A `Layout` is an envelope of suite 1 field by field. Sealing writes one (`sealWithNonce_eq_ok`)
and opening decrypts under the key and AAD of one (`open_layout`), so reader and writer are
compared on the same fields; `Layout.bytes_injective` says that the stored bytes determine
every field.
-/

namespace Cryptbox

open Base

/-- `ENCRYPTION_KEY_LABEL`. -/
def encryptionKeyLabel : Bytes := byteString "cryptbox/encryption-key/v1\x00"

/-- `ENVELOPE_AAD_LABEL`. -/
def envelopeAadLabel : Bytes := byteString "cryptbox/envelope-aad/v1\x00"

/-- What an envelope binds a value to: opaque bytes and their fingerprint. -/
structure Context where
  bytes : Bytes
  fingerprint : Block 8
  deriving DecidableEq

/-- Encoded plaintext as the AEAD seals it: the codec's bytes, or those bytes padded. -/
inductive AeadPlaintext where
  | unpadded (bytes : Bytes)
  | padded (bytes : Bytes)

namespace AeadPlaintext

/-- Applies `padding` to `plaintext`. -/
def new (padding : Padding) (plaintext : Bytes) : Result AeadPlaintext := do
  let padded ← padding.pad plaintext
  return match padded with
    | some padded => .padded padded
    | none => .unpadded plaintext

def bytes : AeadPlaintext → Bytes
  | .unpadded exact => exact
  | .padded expanded => expanded

def isPadded : AeadPlaintext → Bool
  | .unpadded _ => false
  | .padded _ => true

/-- What a reader of the recorded flag makes of the decrypted bytes. -/
def decode (padded : Bool) (bytes : Bytes) : Result Bytes :=
  if padded then unpad bytes else .ok bytes

/-- The flag is the policy's, and reading by the flag gives the plaintext back. -/
theorem new_eq_ok {padding : Padding} {plaintext : Bytes} {aead : AeadPlaintext}
    (h : new padding plaintext = .ok aead) :
    aead.isPadded = padding.isPadded ∧ decode aead.isPadded aead.bytes = .ok plaintext := by
  obtain ⟨out, hPad, h⟩ := bind_eq_ok.mp h
  rcases pad_cases hPad with ⟨hFlag, rfl⟩ | ⟨hFlag, zeros, rfl⟩
  · cases pure_eq_ok.mp h
    exact ⟨hFlag.symm, rfl⟩
  · cases pure_eq_ok.mp h
    exact ⟨hFlag.symm, unpad_pad hPad⟩

end AeadPlaintext

/-! ## Suite 1 -/

abbrev nonceLen : Nat := 24
abbrev tagLen : Nat := 16

/-- `MAX_MESSAGE_LEN`. -/
def maxMessageLen : Nat := 274877906879

/-- The cipher encrypts every message that is short enough. -/
def Primitives.Encrypts (prim : Primitives) : Prop :=
  ∀ key nonce aad plaintext, plaintext.length ≤ maxMessageLen →
    (prim.encryptBytes key nonce aad plaintext).isSome

/-- The suites this library reads and writes. -/
inductive SupportedSuite where
  | xChaCha20Poly1305
  deriving DecidableEq, Repr

/-- `SupportedSuite::ACTIVE`. -/
def SupportedSuite.active : SupportedSuite := .xChaCha20Poly1305

def SupportedSuite.id : SupportedSuite → SuiteId
  | .xChaCha20Poly1305 => ⟨1⟩

def SupportedSuite.fromId (id : SuiteId) : Result SupportedSuite :=
  if id = SupportedSuite.xChaCha20Poly1305.id then .ok .xChaCha20Poly1305
  else err (.unsupportedSuite id.get)

/-- Rejects a message longer than XChaCha20-Poly1305 can encrypt under one nonce. -/
def checkMessageLen (len : Nat) : Result Unit := ensure (len ≤ maxMessageLen) .messageTooLong

/-- Checks that `payload`, everything after the header, can be suite 1's. -/
def validatePayload (payload : Bytes) : Result Unit := do
  let minimumLen ← okOr (checkedAdd nonceLen tagLen) .invalidEnvelope
  ensure (minimumLen ≤ payload.length) .invalidEnvelope
  checkMessageLen (payload.length - minimumLen)

section

variable (prim : Primitives)

def deriveEncryptionKey (root : EncryptionKey) (context : Bytes) (formatVersion : UInt8)
    (suiteId : SuiteId) : Result prim.Derived :=
  hkdfSha256 prim root.bytes.val
    [encryptionKeyLabel, [formatVersion, suiteId.get], root.id.asBytes.val, context]

/-- The stored header and nonce together with the caller's expected context. -/
def envelopeAad (stored context : Bytes) : Bytes := envelopeAadLabel ++ stored ++ context

/-- Encrypts `plaintext` and appends the ciphertext and its tag to `out`. -/
def encryptInto (key : prim.Derived) (nonce : Nonce) (aad plaintext out : Bytes) :
    Result Bytes := do
  checkMessageLen plaintext.length
  let _ ← okOr (checkedAdd out.length plaintext.length) .messageTooLong
  let (ciphertext, tag) ← okOr (prim.encryptBytes key nonce aad plaintext) .internal
  return out ++ ciphertext ++ tag.val

/-- Authenticates `ciphertext`, which ends with its tag, and returns the plaintext. -/
def decrypt (key : prim.Derived) (nonce : Nonce) (aad ciphertext : Bytes) : Result Bytes := do
  let (ciphertext, tag) ← okOr (splitLastChunk tagLen ciphertext) .authenticationFailed
  okOr (prim.decryptBytes key nonce aad ciphertext tag) .authenticationFailed

def sealWithNonce (context : Context) (plaintext : AeadPlaintext) (key : EncryptionKey)
    (nonce : Nonce) : Result Bytes := do
  let suite := SupportedSuite.xChaCha20Poly1305.id
  let header := envelopeHeader suite plaintext.isPadded key.id context.fingerprint
  let capacity ← okOr (checkedAdd (header.length + nonceLen + tagLen) plaintext.bytes.length)
    .messageTooLong
  withCapacity capacity
  let envelope := header ++ nonce.val
  let operationalKey ← deriveEncryptionKey prim key context.bytes formatVersion suite
  let aad := envelopeAad envelope context.bytes
  encryptInto prim operationalKey nonce aad plaintext.bytes envelope

/-- Seals under a nonce drawn from the random source. -/
def SupportedSuite.seal (suite : SupportedSuite) (context : Context) (plaintext : AeadPlaintext)
    (key : EncryptionKey) (draw : Option Nonce) : Result Bytes :=
  match suite with
  | .xChaCha20Poly1305 => do
    let nonce ← randomBytes draw
    sealWithNonce prim context plaintext key nonce

def SupportedSuite.open (suite : SupportedSuite) (context : Context) (envelope : ParsedEnvelope)
    (key : EncryptionKey) : Result Bytes :=
  match suite with
  | .xChaCha20Poly1305 => do
    let (stored, ciphertext) ← okOr
      (splitAtChecked envelope.bytes (envelope.header.length + nonceLen)) .invalidEnvelope
    let (_, nonce) ← okOr (splitLastChunk nonceLen stored) .invalidEnvelope
    let operationalKey ← deriveEncryptionKey prim key context.bytes envelope.info.formatVersion
      suite.id
    decrypt prim operationalKey nonce (envelopeAad stored context.bytes) ciphertext

end

/-! ## The layout of an envelope -/

/-- The stored prefix that the AAD covers: header and nonce. -/
def storedHead (padded : Bool) (keyId : KeyId) (fingerprint : Block 8) (nonce : Nonce) : Bytes :=
  envelopeHeader SupportedSuite.xChaCha20Poly1305.id padded keyId fingerprint ++ nonce.val

@[simp] theorem length_storedHead (padded : Bool) (keyId : KeyId) (fingerprint : Block 8)
    (nonce : Nonce) :
    (storedHead padded keyId fingerprint nonce).length = headerLen + nonceLen := by
  simp only [storedHead, envelopeHeader, List.length_append, Block.length_val]
  rfl

/-- An envelope of suite 1, field by field. -/
structure Layout where
  padded : Bool
  keyId : KeyId
  fingerprint : Block 8
  nonce : Nonce
  ciphertext : Bytes
  tag : Tag
  deriving DecidableEq

namespace Layout

def stored (l : Layout) : Bytes := storedHead l.padded l.keyId l.fingerprint l.nonce

def bytes (l : Layout) : Bytes := l.stored ++ (l.ciphertext ++ l.tag.val)

@[simp] theorem length_stored (l : Layout) : l.stored.length = headerLen + nonceLen :=
  length_storedHead ..

/-- The flags byte a writer stores. -/
def flags (l : Layout) : UInt8 := if l.padded then flagPadded else 0

/-- What the format parser returns for the bytes of a layout. -/
def parsed (l : Layout) : ParsedEnvelope :=
  parsedOf 1 l.flags l.keyId l.fingerprint (l.nonce.val ++ (l.ciphertext ++ l.tag.val))

theorem bytes_eq_rawHeader (l : Layout) :
    l.bytes = rawHeader 1 l.flags l.keyId l.fingerprint
      ++ (l.nonce.val ++ (l.ciphertext ++ l.tag.val)) := by
  rw [bytes, stored, storedHead, List.append_assoc]
  rfl

theorem length_bytes (l : Layout) :
    l.bytes.length = headerLen + nonceLen + tagLen + l.ciphertext.length := by
  rw [bytes, List.length_append, length_stored, List.length_append, Block.length_val, tagLen]
  omega

/-- The payload after the header. -/
theorem length_payload (l : Layout) :
    (l.nonce.val ++ (l.ciphertext ++ l.tag.val)).length
      = nonceLen + tagLen + l.ciphertext.length := by
  show _ = 24 + 16 + l.ciphertext.length
  rw [List.length_append, List.length_append, Block.length_val, Block.length_val]
  omega

@[simp] theorem parsed_padded (l : Layout) : l.parsed.info.padded = l.padded := by
  show decide (l.flags &&& flagPadded ≠ 0) = l.padded
  unfold flags
  cases l.padded <;> rfl

theorem parsed_info (l : Layout) :
    l.parsed.info = ⟨formatVersion, ⟨1⟩, l.padded, l.keyId, l.fingerprint⟩ := by
  show CiphertextInfo.mk formatVersion ⟨1⟩ l.parsed.info.padded l.keyId l.fingerprint = _
  rw [parsed_padded]

theorem parsed_bytes (l : Layout) : l.parsed.bytes = l.stored ++ (l.ciphertext ++ l.tag.val) :=
  l.bytes_eq_rawHeader.symm

theorem length_parsed_header (l : Layout) : l.parsed.header.length = headerLen :=
  length_rawHeader ..

@[simp] theorem parsed_keyId (l : Layout) : l.parsed.info.keyId = l.keyId := rfl

@[simp] theorem parsed_contextFingerprint (l : Layout) :
    l.parsed.info.contextFingerprint = l.fingerprint := rfl

theorem flags_injective {padded padded' : Bool}
    (h : (if padded then flagPadded else 0) = if padded' then flagPadded else 0) :
    padded = padded' := by
  revert h
  cases padded <;> cases padded' <;> decide

/-- **The stored bytes determine every field.** -/
theorem bytes_injective {a b : Layout} (h : a.bytes = b.bytes) : a = b := by
  have hLen : a.ciphertext.length = b.ciphertext.length := by
    have := congrArg List.length h
    rw [length_bytes, length_bytes] at this
    omega
  rw [bytes_eq_rawHeader, bytes_eq_rawHeader] at h
  obtain ⟨-, hFlags, hKey, hFingerprint, hPayload⟩ := rawHeader_append_inj h
  have hPadded : a.padded = b.padded := flags_injective hFlags
  obtain ⟨hNonce, hRest⟩ := Block.append_inj hPayload
  obtain ⟨hCiphertext, hTag⟩ := List.append_inj hRest hLen
  cases a
  cases b
  cases hPadded
  cases hKey
  cases hFingerprint
  cases hNonce
  cases hCiphertext
  cases Subtype.ext hTag
  rfl

/-- The bytes that pass the checks of suite 1 are those of a layout. -/
theorem exists_layout {flags : UInt8} (keyId : KeyId) (fingerprint : Block 8) {payload : Bytes}
    (hFlags : flags &&& ~~~flagPadded = 0) (hLen : nonceLen + tagLen ≤ payload.length) :
    ∃ l : Layout, rawHeader 1 flags keyId fingerprint ++ payload = l.bytes ∧
      parsedOf 1 flags keyId fingerprint payload = l.parsed ∧
      payload.length = nonceLen + tagLen + l.ciphertext.length := by
  obtain ⟨nonce, rest, rfl⟩ := Block.exists_append nonceLen payload (by omega)
  rw [List.length_append, nonce.length_val] at hLen
  have hSplit : rest.take (rest.length - tagLen) ++ rest.drop (rest.length - tagLen) = rest :=
    List.take_append_drop ..
  have hTag : (rest.drop (rest.length - tagLen)).length = tagLen := by
    rw [List.length_drop]
    omega
  have hBits : flags = if decide (flags &&& flagPadded ≠ 0) then flagPadded else 0 := by
    rcases flags_cases hFlags with rfl | rfl <;> rfl
  refine ⟨⟨decide (flags &&& flagPadded ≠ 0), keyId, fingerprint, nonce,
    rest.take (rest.length - tagLen), ⟨_, hTag⟩⟩, ?_, ?_, ?_⟩
  · rw [bytes_eq_rawHeader]
    show _ = rawHeader 1 (if decide (flags &&& flagPadded ≠ 0) then flagPadded else 0) _ _ ++ _
    rw [← hBits, hSplit]
  · show _ = parsedOf 1 (if decide (flags &&& flagPadded ≠ 0) then flagPadded else 0) _ _ _
    rw [← hBits, hSplit]
  · rw [List.length_append, nonce.length_val, List.length_take]
    omega

end Layout

/-! ## Sealing writes a layout, opening decrypts one -/

section

variable {prim : Primitives}

theorem exists_deriveEncryptionKey (hTotal : prim.Total) (root : EncryptionKey) (context : Bytes)
    (formatVersion : UInt8) (suiteId : SuiteId) :
    ∃ key, deriveEncryptionKey prim root context formatVersion suiteId = .ok key := by
  obtain ⟨key, hKey⟩ := Option.isSome_iff_exists.mp (hTotal.hkdf root.bytes.val hkdfSalt
    [encryptionKeyLabel, [formatVersion, suiteId.get], root.id.asBytes.val, context].flatten)
  exact ⟨key, okOr_eq_ok.mpr hKey⟩

theorem encryptInto_eq_ok {key : prim.Derived} {nonce : Nonce} {aad plaintext out bytes : Bytes}
    (hOut : out.length + plaintext.length ≤ usizeMax) :
    encryptInto prim key nonce aad plaintext out = .ok bytes ↔
      plaintext.length ≤ maxMessageLen ∧ ∃ ciphertext tag,
        prim.encryptBytes key nonce aad plaintext = some (ciphertext, tag) ∧
        bytes = out ++ (ciphertext ++ tag.val) := by
  unfold encryptInto checkMessageLen
  simp only [bind_eq_ok, ensure_eq_ok, okOr_eq_ok, checkedAdd_eq_some, pure_eq_ok]
  constructor
  · intro h
    obtain ⟨_, hLen, _, -, ⟨ciphertext, tag⟩, hEnc, rfl⟩ := h
    exact ⟨hLen, ciphertext, tag, hEnc, List.append_assoc ..⟩
  · intro h
    obtain ⟨hLen, ciphertext, tag, hEnc, rfl⟩ := h
    exact ⟨(), hLen, _, ⟨hOut, rfl⟩, (ciphertext, tag), hEnc, List.append_assoc ..⟩

/-- **Sealing writes a layout**: the ciphertext of the plaintext under the key and AAD of
its own header, nonce and context. -/
theorem sealWithNonce_eq_ok {context : Context} {plaintext : AeadPlaintext} {key : EncryptionKey}
    {nonce : Nonce} {bytes : Bytes} :
    sealWithNonce prim context plaintext key nonce = .ok bytes ↔
      ∃ operationalKey ciphertext tag,
        deriveEncryptionKey prim key context.bytes formatVersion ⟨1⟩ = .ok operationalKey ∧
        prim.encryptBytes operationalKey nonce
          (envelopeAad (storedHead plaintext.isPadded key.id context.fingerprint nonce)
            context.bytes) plaintext.bytes = some (ciphertext, tag) ∧
        plaintext.bytes.length ≤ maxMessageLen ∧
        bytes = Layout.bytes
          ⟨plaintext.isPadded, key.id, context.fingerprint, nonce, ciphertext, tag⟩ := by
  have hHead : (envelopeHeader SupportedSuite.xChaCha20Poly1305.id plaintext.isPadded key.id
      context.fingerprint).length = headerLen := length_rawHeader ..
  have hMax : maxMessageLen = 274877906879 := rfl
  unfold sealWithNonce
  simp only [bind_eq_ok, okOr_eq_ok, checkedAdd_eq_some, withCapacity_eq_ok]
  constructor
  · intro h
    obtain ⟨_, ⟨hFits, rfl⟩, _, -, operationalKey, hKey, hInto⟩ := h
    have hOut : (storedHead plaintext.isPadded key.id context.fingerprint nonce).length
        + plaintext.bytes.length ≤ usizeMax := by
      rw [length_storedHead]
      omega
    obtain ⟨hLen, ciphertext, tag, hEnc, rfl⟩ := (encryptInto_eq_ok hOut).mp hInto
    exact ⟨operationalKey, ciphertext, tag, hKey, hEnc, hLen, rfl⟩
  · intro h
    obtain ⟨operationalKey, ciphertext, tag, hKey, hEnc, hLen, rfl⟩ := h
    have hSmall : headerLen + nonceLen + tagLen + plaintext.bytes.length ≤ isizeMax := by
      unfold isizeMax headerLen fingerprintOffset keyIdOffset flagsOffset suiteIdOffset
        formatVersionOffset nonceLen tagLen
      omega
    have hUsize : isizeMax ≤ usizeMax := by decide
    refine ⟨_, ⟨?_, rfl⟩, (), ?_, operationalKey, hKey, (encryptInto_eq_ok ?_).mpr
      ⟨hLen, ciphertext, tag, hEnc, rfl⟩⟩
    · omega
    · omega
    · have := length_storedHead plaintext.isPadded key.id context.fingerprint nonce
      unfold storedHead at this
      omega

/-- **Opening decrypts a layout** under the key and AAD of its own header, nonce and the
context the reader expects. -/
theorem open_layout (l : Layout) (context : Context) (key : EncryptionKey) :
    SupportedSuite.xChaCha20Poly1305.open prim context l.parsed key = (do
      let operationalKey ← deriveEncryptionKey prim key context.bytes formatVersion ⟨1⟩
      okOr (prim.decryptBytes operationalKey l.nonce (envelopeAad l.stored context.bytes)
        l.ciphertext l.tag) .authenticationFailed) := by
  have hNonce : splitLastChunk nonceLen l.stored = some (_, l.nonce) :=
    splitLastChunk_append _ l.nonce
  unfold SupportedSuite.open decrypt
  simp only [l.parsed_bytes, l.length_parsed_header, splitAtChecked_append l.length_stored, hNonce,
    okOr, ok_bind, splitLastChunk_append]
  rfl

/-! ## What sealing does at every length -/

variable {context : Context} {plaintext : AeadPlaintext} {key : EncryptionKey} {nonce : Nonce}

/-- Sealing starts by reserving an envelope of the plaintext's length and 71 bytes. -/
theorem sealWithNonce_reserves
    (h : headerLen + nonceLen + tagLen + plaintext.bytes.length ≤ usizeMax) :
    sealWithNonce prim context plaintext key nonce = (do
      withCapacity (headerLen + nonceLen + tagLen + plaintext.bytes.length)
      let operationalKey ← deriveEncryptionKey prim key context.bytes formatVersion ⟨1⟩
      encryptInto prim operationalKey nonce
        (envelopeAad (storedHead plaintext.isPadded key.id context.fingerprint nonce)
          context.bytes) plaintext.bytes
        (storedHead plaintext.isPadded key.id context.fingerprint nonce)) := by
  have hHead : (envelopeHeader SupportedSuite.xChaCha20Poly1305.id plaintext.isPadded key.id
      context.fingerprint).length = headerLen := length_rawHeader ..
  have hAdd : okOr (checkedAdd (headerLen + nonceLen + tagLen) plaintext.bytes.length)
      .messageTooLong = .ok (headerLen + nonceLen + tagLen + plaintext.bytes.length) :=
    okOr_eq_ok.mpr (checkedAdd_eq_some.mpr ⟨h, rfl⟩)
  unfold sealWithNonce
  simp only [hHead, hAdd, ok_bind]
  rfl

/-- The message length is checked after the reservation. -/
theorem sealWithNonce_tooLong (hTotal : prim.Total)
    (h : headerLen + nonceLen + tagLen + plaintext.bytes.length ≤ isizeMax)
    (hLong : maxMessageLen < plaintext.bytes.length) :
    sealWithNonce prim context plaintext key nonce = err .messageTooLong := by
  obtain ⟨operationalKey, hKey⟩ :=
    exists_deriveEncryptionKey hTotal key context.bytes formatVersion ⟨1⟩
  have hSizes : isizeMax ≤ usizeMax := by decide
  have hReserve : withCapacity (headerLen + nonceLen + tagLen + plaintext.bytes.length) = .ok () :=
    withCapacity_eq_ok.mpr h
  rw [sealWithNonce_reserves (h.trans hSizes), hReserve, ok_bind, hKey, ok_bind]
  exact bind_eq_error.mpr (Or.inl (ensure_eq_error.mpr ⟨Nat.not_le_of_lt hLong, rfl⟩))

theorem exists_sealWithNonce (hTotal : prim.Total) (hEncrypts : prim.Encrypts)
    (hLen : plaintext.bytes.length ≤ maxMessageLen) :
    ∃ bytes, sealWithNonce prim context plaintext key nonce = .ok bytes := by
  obtain ⟨operationalKey, hKey⟩ :=
    exists_deriveEncryptionKey hTotal key context.bytes formatVersion ⟨1⟩
  obtain ⟨⟨ciphertext, tag⟩, hEnc⟩ := Option.isSome_iff_exists.mp (hEncrypts operationalKey nonce
    (envelopeAad (storedHead plaintext.isPadded key.id context.fingerprint nonce) context.bytes)
    plaintext.bytes hLen)
  exact ⟨_, sealWithNonce_eq_ok.mpr ⟨operationalKey, ciphertext, tag, hKey, hEnc, hLen, rfl⟩⟩

end

end Cryptbox

import Cryptbox.Envelope.Suite

/-!
# Envelopes

`envelope.rs`. A reader parses an envelope, compares its fingerprint with the one the
context has, looks up exactly the key the envelope names, decrypts, and removes padding
when the authenticated flag records it.

* `parseSupported_eq_ok`, `parseSupported_rejected`: the accepted bytes are the layouts of
  suite 1, and for every other input the first check that fails gives the error.
* `check_eq_ok`, `open_checked`: what a checked envelope is and what opening it does.
* `seal_eq_ok`: what a writer produces.
-/

namespace Cryptbox

open Base

/-- The errors of the envelope parser for bytes with the magic. -/
def Error.IsMalformed : Error → Prop
  | .invalidEnvelope | .unsupportedFormatVersion _ | .unsupportedSuite _ | .unsupportedFlags _
  | .messageTooLong => True
  | _ => False

def SupportedSuite.validatePayload (suite : SupportedSuite) (payload : Bytes) : Result Unit :=
  match suite with
  | .xChaCha20Poly1305 => Cryptbox.validatePayload payload

/-- An envelope that parsed and whose fingerprint matches the context a reader expects. -/
structure CheckedEnvelope where
  suite : SupportedSuite
  parsed : ParsedEnvelope
  context : Context

/-- Parses an envelope whose suite is supported and whose payload fits that suite. -/
def Envelope.parseSupported (bytes : Bytes) : Result (SupportedSuite × ParsedEnvelope) := do
  let envelope ← parseEnvelope bytes
  let suite ← SupportedSuite.fromId envelope.info.suiteId
  envelope.checkFlags
  suite.validatePayload envelope.suitePayload
  return (suite, envelope)

/-- Parses supported envelope metadata without authenticating it. -/
def Envelope.inspectCiphertext (bytes : Bytes) : Result CiphertextInfo :=
  (fun parsed => parsed.2.info) <$> parseSupported bytes

/-- Pads `plaintext` and seals it under `context` with the current key of `keyring`. -/
def Envelope.seal (prim : Primitives) (context : Context) (padding : Padding) (plaintext : Bytes)
    (keyring : EncryptionKeyring) (draw : Option Nonce) : Result Bytes := do
  let plaintext ← AeadPlaintext.new padding plaintext
  SupportedSuite.active.seal prim context plaintext keyring.current draw

/-- Parses `ciphertext` and compares its fingerprint with the context's. -/
def Envelope.check (context : Context) (ciphertext : Bytes) : Result CheckedEnvelope := do
  let (suite, parsed) ← parseSupported ciphertext
  ensure (parsed.info.contextFingerprint = context.fingerprint) .contextMismatch
  return ⟨suite, parsed, context⟩

/-- Authenticates and decrypts under the key that the envelope names, and removes recorded
padding. -/
def CheckedEnvelope.open (prim : Primitives) (checked : CheckedEnvelope)
    (keyring : EncryptionKeyring) : Result Bytes := do
  let keyId := checked.parsed.info.keyId
  let key ← okOr (keyring.get keyId) (.unknownEncryptionKey keyId)
  let plaintext ← checked.suite.open prim checked.context checked.parsed key
  if checked.parsed.info.padded then unpad plaintext else .ok plaintext

/-- Whether the envelope differs from what a writer with `padding` and `keyring` seals. -/
def CheckedEnvelope.needsReseal (checked : CheckedEnvelope) (padding : Padding)
    (keyring : EncryptionKeyring) : Bool :=
  let info := checked.parsed.info
  info.suiteId != SupportedSuite.active.id || info.keyId != keyring.current.id
    || info.padded != padding.isPadded

namespace Envelope

/-! ## Parsing -/

/-- A layout whose message is short enough for suite 1. -/
def Supported (l : Layout) : Prop := l.ciphertext.length ≤ maxMessageLen

theorem parseSupported_bytes {l : Layout} (h : Supported l) :
    parseSupported l.bytes = .ok (.xChaCha20Poly1305, l.parsed) := by
  have hPayload : l.parsed.suitePayload.length = nonceLen + tagLen + l.ciphertext.length :=
    l.length_payload
  have hFlags : l.flags &&& ~~~flagPadded = 0 := by
    unfold Layout.flags
    split <;> decide
  unfold parseSupported
  rw [Layout.bytes_eq_rawHeader, parseEnvelope_rawHeader]
  refine bind_eq_ok.mpr ⟨l.parsed, rfl, bind_eq_ok.mpr ⟨.xChaCha20Poly1305, rfl,
    bind_eq_ok.mpr ⟨(), ensure_eq_ok.mpr hFlags, bind_eq_ok.mpr ⟨(), ?_, rfl⟩⟩⟩⟩
  refine bind_eq_ok.mpr ⟨nonceLen + tagLen, rfl, bind_eq_ok.mpr ⟨(), ?_, ?_⟩⟩
  · exact ensure_eq_ok.mpr (hPayload ▸ Nat.le_add_right ..)
  · apply ensure_eq_ok.mpr
    rw [hPayload, Nat.add_sub_cancel_left]
    exact h

/-- The bytes that the parser rejects, each with the error of the first check that fails. -/
inductive Rejected : Bytes → Error → Prop
  | magic {bytes : Bytes} (hMagic : isCiphertext bytes = false) : Rejected bytes .notCiphertext
  | noVersion : Rejected magic .invalidEnvelope
  | version {version : UInt8} {rest : Bytes} (hVersion : version ≠ formatVersion) :
      Rejected (magic ++ version :: rest) (.unsupportedFormatVersion version)
  | short {rest : Bytes} (hShort : (magic ++ formatVersion :: rest).length < headerLen) :
      Rejected (magic ++ formatVersion :: rest) .invalidEnvelope
  | suite {suite flags : UInt8} {keyId : KeyId} {fingerprint : Block 8} {payload : Bytes}
      (hSuite : suite ≠ 1) :
      Rejected (rawHeader suite flags keyId fingerprint ++ payload) (.unsupportedSuite suite)
  | flags {flags : UInt8} {keyId : KeyId} {fingerprint : Block 8} {payload : Bytes}
      (hFlags : flags &&& ~~~flagPadded ≠ 0) :
      Rejected (rawHeader 1 flags keyId fingerprint ++ payload) (.unsupportedFlags flags)
  | payload {padded : Bool} {keyId : KeyId} {fingerprint : Block 8} {payload : Bytes}
      (hPayload : payload.length < nonceLen + tagLen) :
      Rejected (envelopeHeader ⟨1⟩ padded keyId fingerprint ++ payload) .invalidEnvelope
  | tooLong {padded : Bool} {keyId : KeyId} {fingerprint : Block 8} {payload : Bytes}
      (hPayload : nonceLen + tagLen + maxMessageLen < payload.length) :
      Rejected (envelopeHeader ⟨1⟩ padded keyId fingerprint ++ payload) .messageTooLong

theorem isCiphertext_magic (rest : Bytes) : isCiphertext (magic ++ rest) = true :=
  isCiphertext_iff.mpr ⟨rest, rfl⟩

theorem flags_writer (padded : Bool) :
    (if padded then flagPadded else 0) &&& ~~~flagPadded = 0 := by
  cases padded <;> decide

/-- Bytes are a layout of suite 1, or some check is the first to fail. -/
theorem layout_or_rejected (bytes : Bytes) :
    (∃ l, Supported l ∧ bytes = l.bytes) ∨ ∃ e, Rejected bytes e := by
  by_cases hMagic : isCiphertext bytes = true
  · obtain ⟨rest, rfl⟩ := isCiphertext_iff.mp hMagic
    rcases rest with _ | ⟨version, rest⟩
    · exact Or.inr ⟨_, .noVersion⟩
    by_cases hVersion : version = formatVersion
    · subst hVersion
      by_cases hLen : headerLen ≤ (magic ++ formatVersion :: rest).length
      · obtain ⟨suite, flags, keyId, fingerprint, payload, hBytes⟩ :=
          exists_rawHeader hMagic rfl hLen
        rw [hBytes]
        by_cases hSuite : suite = 1
        · subst hSuite
          by_cases hFlags : flags &&& ~~~flagPadded = 0
          · obtain ⟨padded, rfl⟩ : ∃ padded : Bool, flags = if padded then flagPadded else 0 := by
              rcases flags_cases hFlags with rfl | rfl
              · exact ⟨false, rfl⟩
              · exact ⟨true, rfl⟩
            by_cases hMin : nonceLen + tagLen ≤ payload.length
            · obtain ⟨l, hLayout, -, hPayload⟩ :=
                Layout.exists_layout keyId fingerprint hFlags hMin
              by_cases hFits : Supported l
              · exact Or.inl ⟨l, hFits, hLayout⟩
              · refine Or.inr ⟨_, .tooLong (?_ : _ < payload.length)⟩
                unfold Supported at hFits
                omega
            · exact Or.inr ⟨_, .payload (Nat.lt_of_not_le hMin)⟩
          · exact Or.inr ⟨_, .flags hFlags⟩
        · exact Or.inr ⟨_, .suite hSuite⟩
      · exact Or.inr ⟨_, .short (Nat.lt_of_not_le hLen)⟩
    · exact Or.inr ⟨_, .version hVersion⟩
  · exact Or.inr ⟨_, .magic (Bool.eq_false_iff.mpr hMagic)⟩

/-- The parser on a header and a payload: the checks that remain. -/
theorem parseSupported_rawHeader (suite flags : UInt8) (keyId : KeyId) (fingerprint : Block 8)
    (payload : Bytes) :
    parseSupported (rawHeader suite flags keyId fingerprint ++ payload) = (do
      let supported ← SupportedSuite.fromId ⟨suite⟩
      ensure (flags &&& ~~~flagPadded = 0) (.unsupportedFlags flags)
      supported.validatePayload payload
      return (supported, parsedOf suite flags keyId fingerprint payload)) := by
  unfold parseSupported
  rw [parseEnvelope_rawHeader, ok_bind]
  rfl

/-- **The parser reports the first check that fails.** -/
theorem parseSupported_rejected {bytes : Bytes} {e : Error} (h : Rejected bytes e) :
    parseSupported bytes = err e := by
  cases h with
  | magic hMagic => simp [parseSupported, parseEnvelope, ensure, hMagic]
  | noVersion => rfl
  | @version version rest hVersion =>
    refine bind_eq_error.mpr (Or.inl ?_)
    refine bind_eq_error.mpr (Or.inr ⟨(), ensure_eq_ok.mpr (isCiphertext_magic _),
      bind_eq_error.mpr (Or.inr ⟨version, rfl, bind_eq_error.mpr (Or.inl ?_)⟩)⟩)
    exact ensure_eq_error.mpr ⟨hVersion, rfl⟩
  | short hShort =>
    refine bind_eq_error.mpr (Or.inl ?_)
    refine bind_eq_error.mpr (Or.inr ⟨(), ensure_eq_ok.mpr (isCiphertext_magic _),
      bind_eq_error.mpr (Or.inr ⟨formatVersion, rfl, bind_eq_error.mpr (Or.inr
        ⟨(), ensure_eq_ok.mpr rfl, bind_eq_error.mpr (Or.inl ?_)⟩)⟩)⟩)
    exact ensure_eq_error.mpr ⟨Nat.not_le_of_lt hShort, rfl⟩
  | suite hSuite =>
    rw [parseSupported_rawHeader]
    refine bind_eq_error.mpr (Or.inl (if_neg ?_))
    exact fun h => hSuite (congrArg SuiteId.get h)
  | flags hFlags =>
    rw [parseSupported_rawHeader]
    exact bind_eq_error.mpr (Or.inr ⟨.xChaCha20Poly1305, rfl, bind_eq_error.mpr
      (Or.inl (ensure_eq_error.mpr ⟨hFlags, rfl⟩))⟩)
  | @payload padded keyId fingerprint payload hPayload =>
    refine (parseSupported_rawHeader 1 _ keyId fingerprint payload).trans ?_
    refine bind_eq_error.mpr (Or.inr ⟨.xChaCha20Poly1305, rfl, bind_eq_error.mpr
      (Or.inr ⟨(), ensure_eq_ok.mpr (flags_writer padded), bind_eq_error.mpr (Or.inl ?_)⟩)⟩)
    exact bind_eq_error.mpr (Or.inr ⟨nonceLen + tagLen, rfl, bind_eq_error.mpr
      (Or.inl (ensure_eq_error.mpr ⟨Nat.not_le_of_lt hPayload, rfl⟩))⟩)
  | @tooLong padded keyId fingerprint payload hPayload =>
    refine (parseSupported_rawHeader 1 _ keyId fingerprint payload).trans ?_
    refine bind_eq_error.mpr (Or.inr ⟨.xChaCha20Poly1305, rfl, bind_eq_error.mpr
      (Or.inr ⟨(), ensure_eq_ok.mpr (flags_writer padded), bind_eq_error.mpr (Or.inl ?_)⟩)⟩)
    refine bind_eq_error.mpr (Or.inr ⟨nonceLen + tagLen, rfl, bind_eq_error.mpr
      (Or.inr ⟨(), ensure_eq_ok.mpr (by omega), ensure_eq_error.mpr ⟨?_, rfl⟩⟩)⟩)
    show ¬ payload.length - (nonceLen + tagLen) ≤ maxMessageLen
    omega

theorem Rejected.isCiphertext {bytes : Bytes} {e : Error} (h : Rejected bytes e) :
    (isCiphertext bytes = false ∧ e = .notCiphertext) ∨
      (isCiphertext bytes = true ∧ e.IsMalformed) := by
  cases h with
  | magic hMagic => exact Or.inl ⟨hMagic, rfl⟩
  | noVersion => exact Or.inr ⟨rfl, trivial⟩
  | version _ => exact Or.inr ⟨isCiphertext_magic _, trivial⟩
  | short _ => exact Or.inr ⟨isCiphertext_magic _, trivial⟩
  | suite _ => exact Or.inr ⟨isCiphertext_rawHeader .., trivial⟩
  | flags _ => exact Or.inr ⟨isCiphertext_rawHeader .., trivial⟩
  | payload _ => exact Or.inr ⟨isCiphertext_rawHeader .., trivial⟩
  | tooLong _ => exact Or.inr ⟨isCiphertext_rawHeader .., trivial⟩

/-- What the parser accepts, and its errors otherwise. -/
theorem parseSupported_cases (bytes : Bytes) :
    (∃ l, Supported l ∧ bytes = l.bytes) ∨
    (isCiphertext bytes = false ∧ parseSupported bytes = err .notCiphertext) ∨
    (isCiphertext bytes = true ∧
      ∃ e : Error, e.IsMalformed ∧ parseSupported bytes = err e) := by
  rcases layout_or_rejected bytes with hLayout | ⟨e, hRejected⟩
  · exact Or.inl hLayout
  · have hErr := parseSupported_rejected hRejected
    rcases hRejected.isCiphertext with ⟨hMagic, rfl⟩ | ⟨hMagic, hBad⟩
    · exact Or.inr (Or.inl ⟨hMagic, hErr⟩)
    · exact Or.inr (Or.inr ⟨hMagic, e, hBad, hErr⟩)

/-- **The parser accepts exactly the layouts of suite 1.** -/
theorem parseSupported_eq_ok {bytes : Bytes} {parsed : SupportedSuite × ParsedEnvelope} :
    parseSupported bytes = .ok parsed ↔
      ∃ l, Supported l ∧ bytes = l.bytes ∧ parsed = (.xChaCha20Poly1305, l.parsed) := by
  constructor
  · intro h
    rcases parseSupported_cases bytes with ⟨l, hFits, rfl⟩ | ⟨-, hErr⟩ | ⟨-, e, -, hErr⟩
    · exact ⟨l, hFits, rfl, Except.ok.inj (h.symm.trans (parseSupported_bytes hFits))⟩
    · cases h.symm.trans hErr
    · cases h.symm.trans hErr
  · intro h
    obtain ⟨l, hFits, rfl, rfl⟩ := h
    exact parseSupported_bytes hFits

theorem isCiphertext_bytes (l : Layout) : isCiphertext l.bytes = true := by
  rw [Layout.bytes_eq_rawHeader]
  exact isCiphertext_rawHeader ..

/-- The parser fails with `notCiphertext` exactly without the magic, and otherwise with one
of the errors for malformed envelopes. -/
theorem parseSupported_eq_error {bytes : Bytes} {f : Failure}
    (h : parseSupported bytes = .error f) :
    (isCiphertext bytes = false ∧ f = .err .notCiphertext) ∨
      (isCiphertext bytes = true ∧ ∃ e : Error, e.IsMalformed ∧ f = .err e) := by
  rcases parseSupported_cases bytes with ⟨l, hFits, rfl⟩ | ⟨hMagic, hErr⟩ | ⟨hMagic, e, hBad, hErr⟩
  · cases h.symm.trans (parseSupported_bytes hFits)
  · exact Or.inl ⟨hMagic, Except.error.inj (h.symm.trans hErr)⟩
  · exact Or.inr ⟨hMagic, e, hBad, Except.error.inj (h.symm.trans hErr)⟩

/-! ## Inspection -/

theorem inspectCiphertext_bytes {l : Layout} (h : Supported l) :
    inspectCiphertext l.bytes = .ok l.parsed.info := by
  rw [inspectCiphertext, parseSupported_bytes h]
  rfl

theorem inspectCiphertext_eq_ok {bytes : Bytes} {info : CiphertextInfo} :
    inspectCiphertext bytes = .ok info ↔
      ∃ l, Supported l ∧ bytes = l.bytes ∧ info = l.parsed.info := by
  refine map_eq_ok.trans ?_
  constructor
  · intro h
    obtain ⟨parsed, hParse, rfl⟩ := h
    obtain ⟨l, hFits, hBytes, rfl⟩ := parseSupported_eq_ok.mp hParse
    exact ⟨l, hFits, hBytes, rfl⟩
  · intro h
    obtain ⟨l, hFits, rfl, rfl⟩ := h
    exact ⟨_, parseSupported_bytes hFits, rfl⟩

/-- Bytes with the magic are an envelope of suite 1 or malformed; all others are not
ciphertext. -/
theorem inspectCiphertext_cases (bytes : Bytes) :
    (isCiphertext bytes = true ∧
      ∃ l, Supported l ∧ bytes = l.bytes ∧ inspectCiphertext bytes = .ok l.parsed.info) ∨
    (isCiphertext bytes = false ∧ inspectCiphertext bytes = err .notCiphertext) ∨
    (isCiphertext bytes = true ∧
      ∃ e : Error, e.IsMalformed ∧ inspectCiphertext bytes = err e) := by
  rcases parseSupported_cases bytes with ⟨l, hFits, rfl⟩ | ⟨hMagic, hErr⟩ | ⟨hMagic, e, hBad, hErr⟩
  · exact Or.inl ⟨isCiphertext_bytes l, l, hFits, rfl, inspectCiphertext_bytes hFits⟩
  · exact Or.inr (Or.inl ⟨hMagic, map_eq_error.mpr hErr⟩)
  · exact Or.inr (Or.inr ⟨hMagic, e, hBad, map_eq_error.mpr hErr⟩)

theorem inspectCiphertext_notCiphertext {bytes : Bytes} (h : isCiphertext bytes = false) :
    inspectCiphertext bytes = err .notCiphertext := by
  rcases inspectCiphertext_cases bytes with ⟨hMagic, -⟩ | ⟨-, hErr⟩ | ⟨hMagic, -⟩
  · rw [h] at hMagic
    cases hMagic
  · exact hErr
  · rw [h] at hMagic
    cases hMagic

/-! ## Checking and opening -/

/-- A layout checked against the context a reader expects. -/
def checked (l : Layout) (context : Context) : CheckedEnvelope :=
  ⟨.xChaCha20Poly1305, l.parsed, context⟩

theorem check_eq_ok {context : Context} {bytes : Bytes} {c : CheckedEnvelope} :
    check context bytes = .ok c ↔ ∃ l, Supported l ∧ bytes = l.bytes ∧
      l.fingerprint = context.fingerprint ∧ c = checked l context := by
  unfold check
  rw [bind_eq_ok]
  constructor
  · intro h
    obtain ⟨parsed, hParse, h⟩ := h
    obtain ⟨l, hFits, rfl, rfl⟩ := parseSupported_eq_ok.mp hParse
    obtain ⟨_, hFingerprint, h⟩ := bind_eq_ok.mp h
    exact ⟨l, hFits, rfl, ensure_eq_ok.mp hFingerprint, (pure_eq_ok.mp h).symm⟩
  · intro h
    obtain ⟨l, hFits, rfl, hFingerprint, rfl⟩ := h
    exact ⟨_, parseSupported_bytes hFits,
      bind_eq_ok.mpr ⟨(), ensure_eq_ok.mpr hFingerprint, rfl⟩⟩

theorem check_bytes {l : Layout} (h : Supported l) (context : Context) :
    check context l.bytes =
      if l.fingerprint = context.fingerprint then .ok (checked l context)
      else err .contextMismatch := by
  unfold check
  rw [parseSupported_bytes h, ok_bind]
  by_cases hFingerprint : l.fingerprint = context.fingerprint
  · rw [if_pos hFingerprint]
    exact bind_eq_ok.mpr ⟨(), ensure_eq_ok.mpr hFingerprint, rfl⟩
  · rw [if_neg hFingerprint]
    exact bind_eq_error.mpr (Or.inl (ensure_eq_error.mpr ⟨hFingerprint, rfl⟩))

theorem check_eq_error {context : Context} {bytes : Bytes} {f : Failure}
    (h : check context bytes = .error f) :
    (isCiphertext bytes = false ∧ f = .err .notCiphertext) ∨
      (isCiphertext bytes = true ∧
        ∃ e : Error, (e.IsMalformed ∨ e = .contextMismatch) ∧ f = .err e) := by
  unfold check at h
  rcases bind_eq_error.mp h with h | ⟨parsed, hParse, h⟩
  · rcases parseSupported_eq_error h with ⟨hMagic, hErr⟩ | ⟨hMagic, e, hBad, hErr⟩
    · exact Or.inl ⟨hMagic, hErr⟩
    · exact Or.inr ⟨hMagic, e, Or.inl hBad, hErr⟩
  · obtain ⟨l, hFits, rfl, rfl⟩ := parseSupported_eq_ok.mp hParse
    rcases bind_eq_error.mp h with h | ⟨_, -, h⟩
    · exact Or.inr ⟨isCiphertext_bytes l, _, Or.inr rfl, (ensure_eq_error.mp h).2⟩
    · cases h

/-- Opening a checked layout, step by step. -/
theorem open_checked (prim : Primitives) (l : Layout) (context : Context)
    (keyring : EncryptionKeyring) :
    (checked l context).open prim keyring = (do
      let key ← okOr (keyring.get l.keyId) (.unknownEncryptionKey l.keyId)
      let operationalKey ← deriveEncryptionKey prim key context.bytes formatVersion ⟨1⟩
      let plaintext ← okOr (prim.decryptBytes operationalKey l.nonce
        (envelopeAad l.stored context.bytes) l.ciphertext l.tag) .authenticationFailed
      AeadPlaintext.decode l.padded plaintext) := by
  show (do
    let key ← okOr (keyring.get l.keyId) (.unknownEncryptionKey l.keyId)
    let plaintext ← SupportedSuite.xChaCha20Poly1305.open prim context l.parsed key
    AeadPlaintext.decode l.parsed.info.padded plaintext) = _
  rw [Layout.parsed_padded]
  simp only [open_layout, bind_assoc]

theorem open_checked_eq_ok {prim : Primitives} {l : Layout} {context : Context}
    {keyring : EncryptionKeyring} {plaintext : Bytes} :
    (checked l context).open prim keyring = .ok plaintext ↔
      ∃ key operationalKey decrypted, keyring.get l.keyId = some key ∧
        deriveEncryptionKey prim key context.bytes formatVersion ⟨1⟩ = .ok operationalKey ∧
        prim.decryptBytes operationalKey l.nonce (envelopeAad l.stored context.bytes)
          l.ciphertext l.tag = some decrypted ∧
        AeadPlaintext.decode l.padded decrypted = .ok plaintext := by
  rw [open_checked]
  simp only [bind_eq_ok, okOr_eq_ok]
  constructor
  · intro h
    obtain ⟨key, hGet, operationalKey, hKey, decrypted, hDec, hUnpad⟩ := h
    exact ⟨key, operationalKey, decrypted, hGet, hKey, hDec, hUnpad⟩
  · intro h
    obtain ⟨key, operationalKey, decrypted, hGet, hKey, hDec, hUnpad⟩ := h
    exact ⟨key, hGet, operationalKey, hKey, decrypted, hDec, hUnpad⟩

@[simp] theorem needsReseal_checked (l : Layout) (context : Context) (padding : Padding)
    (keyring : EncryptionKeyring) :
    (checked l context).needsReseal padding keyring = false ↔
      l.keyId = keyring.current.id ∧ l.padded = padding.isPadded := by
  have hSuite : l.parsed.info.suiteId = SupportedSuite.active.id := rfl
  unfold CheckedEnvelope.needsReseal checked
  simp [hSuite]

/-! ## Sealing -/

/-- Once padded, a plaintext is sealed under the current key and the nonce drawn. -/
theorem seal_of_new {prim : Primitives} {context : Context} {padding : Padding}
    {plaintext : Bytes} {keyring : EncryptionKeyring} {nonce : Nonce} {aead : AeadPlaintext}
    (h : AeadPlaintext.new padding plaintext = .ok aead) :
    Envelope.seal prim context padding plaintext keyring (some nonce)
      = sealWithNonce prim context aead keyring.current nonce := by
  rw [Envelope.seal, h, ok_bind]
  rfl

/-- **Sealing writes a layout** under the keyring's current key, with the padding policy's
flag, that decrypts to the padded plaintext. -/
theorem seal_eq_ok {prim : Primitives} {context : Context} {padding : Padding} {plaintext : Bytes}
    {keyring : EncryptionKeyring} {draw : Option Nonce} {bytes : Bytes} :
    Envelope.seal prim context padding plaintext keyring draw = .ok bytes ↔
      ∃ nonce aead operationalKey ciphertext tag,
        draw = some nonce ∧ AeadPlaintext.new padding plaintext = .ok aead ∧
        deriveEncryptionKey prim keyring.current context.bytes formatVersion ⟨1⟩
          = .ok operationalKey ∧
        prim.encryptBytes operationalKey nonce
          (envelopeAad (storedHead aead.isPadded keyring.current.id context.fingerprint nonce)
            context.bytes) aead.bytes = some (ciphertext, tag) ∧
        aead.bytes.length ≤ maxMessageLen ∧
        bytes = Layout.bytes
          ⟨aead.isPadded, keyring.current.id, context.fingerprint, nonce, ciphertext, tag⟩ := by
  unfold Envelope.seal SupportedSuite.active SupportedSuite.seal randomBytes
  simp only [bind_eq_ok, okOr_eq_ok, sealWithNonce_eq_ok]
  constructor
  · intro h
    obtain ⟨aead, hPad, nonce, hDraw, operationalKey, ciphertext, tag, h⟩ := h
    exact ⟨nonce, aead, operationalKey, ciphertext, tag, hDraw, hPad, h⟩
  · intro h
    obtain ⟨nonce, aead, operationalKey, ciphertext, tag, hDraw, hPad, h⟩ := h
    exact ⟨aead, hPad, nonce, hDraw, operationalKey, ciphertext, tag, h⟩

end Envelope

end Cryptbox

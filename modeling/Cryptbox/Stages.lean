import Cryptbox.Bound

/-!
# The stages of opening

`bound::open` parses, compares the fingerprint, looks up the key, derives the operational key,
authenticates and unpads. Each stage runs when all before it passed, and reports errors of its
own.

* `Bound.open_iff_stage`: how opening ends, for all bytes.
* `Bound.open_eq_early`, `Bound.needsReseal_eq_error`: what is reported before the key.
* `Envelope.splits_parsed`: the splits after the parser do not fail.
* `Bound.opens_in_stages`: what each stage depends on.
-/

namespace Cryptbox

open Base Envelope

/-- The errors that are reported before a key is looked up. -/
def Error.IsEarly (e : Error) : Prop := e = .notCiphertext ∨ e.IsMalformed ∨ e = .contextMismatch

section

variable (prim : Primitives) (context : SealContext)

/-- An envelope that parses and has the fingerprint of the context. -/
structure Admits (l : Layout) : Prop where
  fits : Supported l
  fingerprint : l.fingerprint = context.fingerprint

/-- What the AEAD makes of an envelope under a key: nothing, or the bytes it authenticated. -/
def Decrypts (l : Layout) (key : EncryptionKey) (decrypted : Option Bytes) : Prop :=
  ∃ operationalKey,
    deriveEncryptionKey prim key context.bytes formatVersion ⟨1⟩ = .ok operationalKey ∧
      prim.decryptBytes operationalKey l.nonce (envelopeAad l.stored context.bytes)
        l.ciphertext l.tag = decrypted

/-- **How opening ends**, for each stage at which it may. -/
inductive OpenStage (keyring : EncryptionKeyring) : Bytes → Result Bytes → Prop
  | parse {bytes : Bytes} {f : Failure} (hParse : parseSupported bytes = .error f) :
      OpenStage keyring bytes (.error f)
  | fingerprint {l : Layout} (hFits : Supported l) (hOther : l.fingerprint ≠ context.fingerprint) :
      OpenStage keyring l.bytes (err .contextMismatch)
  | key {l : Layout} (hAdmits : Admits context l) (hKey : keyring.get l.keyId = none) :
      OpenStage keyring l.bytes (err (.unknownEncryptionKey l.keyId))
  | derive {l : Layout} {key : EncryptionKey} (hAdmits : Admits context l)
      (hKey : keyring.get l.keyId = some key)
      (hDerive : deriveEncryptionKey prim key context.bytes formatVersion ⟨1⟩ = err .internal) :
      OpenStage keyring l.bytes (err .internal)
  | authenticate {l : Layout} {key : EncryptionKey} (hAdmits : Admits context l)
      (hKey : keyring.get l.keyId = some key) (hDecrypts : Decrypts prim context l key none) :
      OpenStage keyring l.bytes (err .authenticationFailed)
  | padding {l : Layout} {key : EncryptionKey} {decrypted : Bytes} (hAdmits : Admits context l)
      (hKey : keyring.get l.keyId = some key)
      (hDecrypts : Decrypts prim context l key (some decrypted)) (hPadded : l.padded = true)
      (hMarker : ∀ plaintext zeros, decrypted ≠ plaintext ++ paddingTail zeros) :
      OpenStage keyring l.bytes (err .invalidPadding)
  | opened {l : Layout} {key : EncryptionKey} {decrypted plaintext : Bytes}
      (hAdmits : Admits context l) (hKey : keyring.get l.keyId = some key)
      (hDecrypts : Decrypts prim context l key (some decrypted))
      (hDecode : AeadPlaintext.decode l.padded decrypted = .ok plaintext) :
      OpenStage keyring l.bytes (.ok plaintext)

end

section

variable {prim : Primitives} {context context' : SealContext} {keyring keyring' : EncryptionKeyring}
  {padding : Padding} {bytes : Bytes} {f : Failure} {e : Error}

theorem Admits.open_bytes {l : Layout} (h : Admits context l) :
    Bound.open prim context l.bytes keyring = (do
      let key ← okOr (keyring.get l.keyId) (.unknownEncryptionKey l.keyId)
      let operationalKey ← deriveEncryptionKey prim key context.bytes formatVersion ⟨1⟩
      let plaintext ← okOr (prim.decryptBytes operationalKey l.nonce
        (envelopeAad l.stored context.bytes) l.ciphertext l.tag) .authenticationFailed
      AeadPlaintext.decode l.padded plaintext) := by
  rw [Bound.open_bytes h.fits, if_pos h.fingerprint, open_checked]
  rfl

/-- Each stage gives the result of opening. -/
theorem OpenStage.open_eq {result : Result Bytes}
    (h : OpenStage prim context keyring bytes result) :
    Bound.open prim context bytes keyring = result := by
  cases h with
  | parse hParse =>
    exact bind_eq_error.mpr (Or.inl (bind_eq_error.mpr (Or.inl hParse)))
  | fingerprint hFits hOther => rw [Bound.open_bytes hFits, if_neg hOther]
  | key hAdmits hKey =>
    rw [hAdmits.open_bytes, hKey]
    rfl
  | derive hAdmits hKey hDerive =>
    rw [hAdmits.open_bytes, hKey]
    exact bind_eq_error.mpr (Or.inr ⟨_, rfl, bind_eq_error.mpr (Or.inl hDerive)⟩)
  | authenticate hAdmits hKey hDecrypts =>
    obtain ⟨operationalKey, hDerive, hDecrypt⟩ := hDecrypts
    rw [hAdmits.open_bytes, hKey]
    simp only [okOr, ok_bind, hDerive, hDecrypt, error_bind]
  | padding hAdmits hKey hDecrypts hPadded hMarker =>
    obtain ⟨operationalKey, hDerive, hDecrypt⟩ := hDecrypts
    rw [hAdmits.open_bytes, hKey]
    simp only [okOr, ok_bind, hDerive, hDecrypt, hPadded]
    exact unpad_eq_error.mpr ⟨rfl, hMarker⟩
  | opened hAdmits hKey hDecrypts hDecode =>
    obtain ⟨operationalKey, hDerive, hDecrypt⟩ := hDecrypts
    rw [hAdmits.open_bytes, hKey]
    simp only [okOr, ok_bind, hDerive, hDecrypt, hDecode]

theorem deriveEncryptionKey_eq_error {root : EncryptionKey} {info : Bytes} {version : UInt8}
    {suite : SuiteId} (h : deriveEncryptionKey prim root info version suite = .error f) :
    f = .err .internal :=
  (okOr_eq_error.mp h).2

/-- Opening ends at some stage. -/
theorem exists_openStage (prim : Primitives) (context : SealContext) (keyring : EncryptionKeyring)
    (bytes : Bytes) : ∃ result, OpenStage prim context keyring bytes result := by
  cases hParse : parseSupported bytes with
  | error f => exact ⟨_, .parse hParse⟩
  | ok parsed =>
    obtain ⟨l, hFits, rfl, -⟩ := parseSupported_eq_ok.mp hParse
    by_cases hFingerprint : l.fingerprint = context.fingerprint
    · have hAdmits : Admits context l := ⟨hFits, hFingerprint⟩
      cases hKey : keyring.get l.keyId with
      | none => exact ⟨_, .key hAdmits hKey⟩
      | some key =>
        cases hDerive : deriveEncryptionKey prim key context.bytes formatVersion ⟨1⟩ with
        | error f =>
          rw [deriveEncryptionKey_eq_error hDerive] at hDerive
          exact ⟨_, .derive hAdmits hKey hDerive⟩
        | ok operationalKey =>
          cases hDecrypt : prim.decryptBytes operationalKey l.nonce
            (envelopeAad l.stored context.bytes) l.ciphertext l.tag with
          | none => exact ⟨_, .authenticate hAdmits hKey ⟨operationalKey, hDerive, hDecrypt⟩⟩
          | some decrypted =>
            have hDecrypts : Decrypts prim context l key (some decrypted) :=
              ⟨operationalKey, hDerive, hDecrypt⟩
            cases hDecode : AeadPlaintext.decode l.padded decrypted with
            | ok plaintext => exact ⟨_, .opened hAdmits hKey hDecrypts hDecode⟩
            | error f =>
              cases hPadded : l.padded with
              | false =>
                rw [hPadded] at hDecode
                cases hDecode
              | true =>
                rw [hPadded] at hDecode
                exact ⟨_, .padding hAdmits hKey hDecrypts hPadded (unpad_eq_error.mp hDecode).2⟩
    · exact ⟨_, .fingerprint hFits hFingerprint⟩

/-- **The stages are how opening ends.** -/
theorem Bound.open_iff_stage {result : Result Bytes} :
    Bound.open prim context bytes keyring = result ↔
      OpenStage prim context keyring bytes result := by
  constructor
  · intro h
    obtain ⟨result', hStage⟩ := exists_openStage prim context keyring bytes
    rwa [← h, hStage.open_eq]
  · exact OpenStage.open_eq

/-! ## Before the key -/

theorem parseSupported_early (h : parseSupported bytes = .error f) :
    ∃ e : Error, f = .err e ∧ e.IsEarly := by
  rcases parseSupported_eq_error h with ⟨-, rfl⟩ | ⟨-, e, hBad, rfl⟩
  · exact ⟨_, rfl, Or.inl rfl⟩
  · exact ⟨e, rfl, Or.inr (Or.inl hBad)⟩

/-- What is reported before the key: the parse error, or the mismatch of the fingerprints. -/
theorem Bound.open_eq_early (hEarly : e.IsEarly) :
    Bound.open prim context bytes keyring = err e ↔
      parseSupported bytes = err e ∨
        (e = .contextMismatch ∧
          ∃ l, Supported l ∧ bytes = l.bytes ∧ l.fingerprint ≠ context.fingerprint) := by
  rw [open_iff_stage]
  constructor
  · intro h
    cases h with
    | parse hParse => exact Or.inl hParse
    | @fingerprint l hFits hOther => exact Or.inr ⟨rfl, l, hFits, rfl, hOther⟩
    | key => rcases hEarly with h | h | h <;> cases h
    | derive => rcases hEarly with h | h | h <;> cases h
    | authenticate => rcases hEarly with h | h | h <;> cases h
    | padding => rcases hEarly with h | h | h <;> cases h
  · intro h
    rcases h with hParse | ⟨rfl, l, hFits, rfl, hOther⟩
    · exact .parse hParse
    · exact .fingerprint hFits hOther

/-- The same is reported without the key and the context's bytes. -/
theorem Bound.needsReseal_eq_error {fingerprint : Block 8} :
    Bound.needsReseal fingerprint padding bytes keyring = .error f ↔
      parseSupported bytes = .error f ∨
        (f = .err .contextMismatch ∧
          ∃ l, Supported l ∧ bytes = l.bytes ∧ l.fingerprint ≠ fingerprint) := by
  cases hParse : parseSupported bytes with
  | error g =>
    have hError : Bound.needsReseal fingerprint padding bytes keyring = .error g :=
      bind_eq_error.mpr (Or.inl (bind_eq_error.mpr (Or.inl hParse)))
    rw [hError]
    constructor
    · intro h
      cases h
      exact Or.inl rfl
    · intro h
      rcases h with h | ⟨-, l, hFits, rfl, -⟩
      · cases h
        rfl
      · cases hParse.symm.trans (parseSupported_bytes hFits)
  | ok parsed =>
    obtain ⟨l, hFits, rfl, -⟩ := parseSupported_eq_ok.mp hParse
    rw [Bound.needsReseal_bytes hFits]
    by_cases hFingerprint : l.fingerprint = fingerprint
    · rw [if_pos hFingerprint]
      constructor
      · intro h
        cases h
      · intro h
        rcases h with h | ⟨-, l', -, hBytes, hOther⟩
        · cases h
        · rw [← Layout.bytes_injective hBytes] at hOther
          exact absurd hFingerprint hOther
    · rw [if_neg hFingerprint]
      constructor
      · intro h
        cases h
        exact Or.inr ⟨rfl, l, hFits, rfl, hFingerprint⟩
      · intro h
        rcases h with h | ⟨rfl, -⟩
        · cases h
        · rfl

/-! ## The key -/

theorem Bound.open_eq_unknownKey {id : KeyId} :
    Bound.open prim context bytes keyring = err (.unknownEncryptionKey id) ↔
      ∃ l, Admits context l ∧ bytes = l.bytes ∧ l.keyId = id ∧
        id ∉ keyring.readable.map KeyMaterial.id := by
  rw [open_iff_stage]
  constructor
  · intro h
    generalize hResult : (err (.unknownEncryptionKey id) : Result Bytes) = result at h
    cases h with
    | parse hParse =>
      obtain ⟨e, rfl, hEarly⟩ := parseSupported_early hParse
      cases hResult
      rcases hEarly with h | h | h <;> cases h
    | @key l hAdmits hKey =>
      cases hResult
      exact ⟨l, hAdmits, rfl, rfl, Ring.get_eq_none.mp hKey⟩
    | fingerprint => cases hResult
    | derive => cases hResult
    | authenticate => cases hResult
    | padding => cases hResult
    | opened => cases hResult
  · rintro ⟨l, hAdmits, rfl, rfl, hAbsent⟩
    exact .key hAdmits (Ring.get_eq_none.mpr hAbsent)

/-! ## The splits -/

/-- The splits of a parsed envelope: the stored prefix ends with the nonce, the rest with the
tag. -/
theorem Envelope.splits_parsed {suite : SupportedSuite} {parsed : ParsedEnvelope}
    (h : parseSupported bytes = .ok (suite, parsed)) :
    ∃ stored ciphertext header nonce message tag,
      splitAtChecked parsed.bytes (parsed.header.length + nonceLen) = some (stored, ciphertext) ∧
        splitLastChunk nonceLen stored = some (header, nonce) ∧
        splitLastChunk tagLen ciphertext = some (message, tag) := by
  obtain ⟨l, -, rfl, hParsed⟩ := parseSupported_eq_ok.mp h
  cases hParsed
  refine ⟨l.stored, l.ciphertext ++ l.tag.val, _, l.nonce, l.ciphertext, l.tag, ?_,
    splitLastChunk_append _ l.nonce, splitLastChunk_append l.ciphertext l.tag⟩
  rw [l.parsed_bytes, l.length_parsed_header]
  exact splitAtChecked_append l.length_stored

/-! ## What staleness depends on -/

theorem Bound.needsReseal_early {fingerprint : Block 8}
    (h : Bound.needsReseal fingerprint padding bytes keyring = .error f) :
    ∃ e : Error, f = .err e ∧ e.IsEarly := by
  rcases needsReseal_eq_error.mp h with hParse | ⟨rfl, -⟩
  · exact parseSupported_early hParse
  · exact ⟨_, rfl, Or.inr (Or.inr rfl)⟩

/-- Layouts with the same header need a reseal alike. -/
theorem Bound.needsReseal_header {l l' : Layout} (hFits : Supported l) (hFits' : Supported l')
    (hHeader : l.bytes.take headerLen = l'.bytes.take headerLen) (fingerprint : Block 8) :
    Bound.needsReseal fingerprint padding l.bytes keyring
      = Bound.needsReseal fingerprint padding l'.bytes keyring := by
  have hTake (l : Layout) : l.bytes.take headerLen
      = rawHeader 1 l.flags l.keyId l.fingerprint ++ [] := by
    rw [List.append_nil, l.bytes_eq_rawHeader]
    exact List.take_left' (length_rawHeader ..)
  rw [hTake, hTake] at hHeader
  obtain ⟨-, hFlags, hKey, hFingerprint, -⟩ := rawHeader_append_inj hHeader
  have hPadded : l.padded = l'.padded := Layout.flags_injective hFlags
  have hInfo : l.parsed.info = l'.parsed.info := by
    rw [l.parsed_info, l'.parsed_info, hPadded, hKey, hFingerprint]
  rw [needsReseal_bytes hFits, needsReseal_bytes hFits', hFingerprint]
  unfold CheckedEnvelope.needsReseal checked
  simp only [hInfo]

end

/-- What each stage of opening depends on. -/
structure OpensInStages (prim : Primitives) : Prop where
  stages : ∀ context keyring bytes result,
    Bound.open prim context bytes keyring = result ↔ OpenStage prim context keyring bytes result
  errors : ∀ context keyring bytes f, Bound.open prim context bytes keyring = .error f →
    ∃ e : Error, f = .err e ∧ (e.IsEarly ∨ (∃ id, e = .unknownEncryptionKey id) ∨ e = .internal ∨
      e = .authenticationFailed ∨ e = .invalidPadding)
  /-- Contexts of one kind have one fingerprint. -/
  kind : ∀ id id' record record', record.map RecordValue.kind = record'.map RecordValue.kind →
    (SealContext.new prim id record).fingerprint = (SealContext.new prim id' record').fingerprint
  early : ∀ context context', context.fingerprint = context'.fingerprint →
    ∀ keyring keyring' bytes e, e.IsEarly →
      (Bound.open prim context bytes keyring = err e ↔
        Bound.open prim context' bytes keyring' = err e)
  unknownKey : ∀ context context', context.fingerprint = context'.fingerprint →
    ∀ keyring keyring' : EncryptionKeyring,
      (∀ id, id ∈ keyring.readable.map KeyMaterial.id ↔
        id ∈ keyring'.readable.map KeyMaterial.id) →
      ∀ bytes id, (Bound.open prim context bytes keyring = err (.unknownEncryptionKey id) ↔
        Bound.open prim context' bytes keyring' = err (.unknownEncryptionKey id))
  /-- Only what was authenticated with the flag is unpadded. -/
  invalidPadding : ∀ context keyring bytes,
    Bound.open prim context bytes keyring = err .invalidPadding →
    ∃ l key decrypted, bytes = l.bytes ∧ l.padded = true ∧ keyring.get l.keyId = some key ∧
      Decrypts prim context l key (some decrypted)
  splits : ∀ bytes suite parsed, parseSupported bytes = .ok (suite, parsed) →
    ∃ stored ciphertext header nonce message tag,
      splitAtChecked parsed.bytes (parsed.header.length + nonceLen) = some (stored, ciphertext) ∧
        splitLastChunk nonceLen stored = some (header, nonce) ∧
        splitLastChunk tagLen ciphertext = some (message, tag)
  /-- Staleness reports what opening reports before the key, and nothing else. -/
  resealErrors : ∀ context padding keyring keyring' bytes,
    (∀ f, Bound.needsReseal context.fingerprint padding bytes keyring = .error f →
      ∃ e : Error, f = .err e ∧ e.IsEarly) ∧
    ∀ e : Error, e.IsEarly →
      (Bound.needsReseal context.fingerprint padding bytes keyring = err e ↔
        Bound.open prim context bytes keyring' = err e)
  /-- Staleness is that of the envelope checked against any context with the fingerprint. -/
  resealContext : ∀ fingerprint padding keyring bytes contextBytes, (do
      let checked ← check ⟨contextBytes, fingerprint⟩ bytes
      return checked.needsReseal padding keyring)
    = Bound.needsReseal fingerprint padding bytes keyring
  resealPayload : ∀ fingerprint padding keyring bytes bytes' suite suite' parsed parsed',
    parseSupported bytes = .ok (suite, parsed) → parseSupported bytes' = .ok (suite', parsed') →
    bytes.take headerLen = bytes'.take headerLen →
    Bound.needsReseal fingerprint padding bytes keyring
      = Bound.needsReseal fingerprint padding bytes' keyring

section

variable {prim : Primitives} {context : SealContext} {keyring : EncryptionKeyring} {bytes : Bytes}
  {f : Failure}

theorem Bound.open_errors (h : Bound.open prim context bytes keyring = .error f) :
    ∃ e : Error, f = .err e ∧ (e.IsEarly ∨ (∃ id, e = .unknownEncryptionKey id) ∨ e = .internal ∨
      e = .authenticationFailed ∨ e = .invalidPadding) := by
  cases open_iff_stage.mp h with
  | parse hParse =>
    obtain ⟨e, rfl, hEarly⟩ := parseSupported_early hParse
    exact ⟨e, rfl, Or.inl hEarly⟩
  | fingerprint => exact ⟨_, rfl, Or.inl (Or.inr (Or.inr rfl))⟩
  | key => exact ⟨_, rfl, Or.inr (Or.inl ⟨_, rfl⟩)⟩
  | derive => exact ⟨_, rfl, Or.inr (Or.inr (Or.inl rfl))⟩
  | authenticate => exact ⟨_, rfl, Or.inr (Or.inr (Or.inr (Or.inl rfl)))⟩
  | padding => exact ⟨_, rfl, Or.inr (Or.inr (Or.inr (Or.inr rfl)))⟩

/-- Padding is judged last. -/
theorem Bound.open_eq_invalidPadding
    (h : Bound.open prim context bytes keyring = err .invalidPadding) :
    ∃ l key decrypted, bytes = l.bytes ∧ l.padded = true ∧ keyring.get l.keyId = some key ∧
      Decrypts prim context l key (some decrypted) := by
  cases open_iff_stage.mp h with
  | parse hParse =>
    obtain ⟨e, hError, hEarly⟩ := parseSupported_early hParse
    cases hError
    rcases hEarly with h | h | h <;> cases h
  | @padding l key decrypted hAdmits hKey hDecrypts hPadded hMarker =>
    exact ⟨l, key, decrypted, rfl, hPadded, hKey, hDecrypts⟩

end

/-- **The errors of opening are ordered**, and each stage depends only on what it may. -/
theorem Bound.opens_in_stages (prim : Primitives) : OpensInStages prim where
  stages := fun _ _ _ _ => open_iff_stage
  errors := fun _ _ _ _ => open_errors
  kind := fun _ _ _ _ hKind => SealContext.new_fingerprint prim hKind
  early := fun context context' hFingerprint keyring keyring' bytes e hEarly => by
    rw [open_eq_early hEarly, open_eq_early hEarly, hFingerprint]
  unknownKey := fun context context' hFingerprint keyring keyring' hIds bytes id => by
    have hAdmits (l : Layout) : Admits context l ↔ Admits context' l :=
      ⟨fun h => ⟨h.fits, h.fingerprint.trans hFingerprint⟩,
        fun h => ⟨h.fits, h.fingerprint.trans hFingerprint.symm⟩⟩
    simp only [open_eq_unknownKey, hAdmits, hIds]
  invalidPadding := fun _ _ _ => open_eq_invalidPadding
  splits := fun _ _ _ => splits_parsed
  resealErrors := fun context padding keyring keyring' bytes => by
    refine ⟨fun f => needsReseal_early, fun e hEarly => ?_⟩
    rw [needsReseal_eq_error, open_eq_early hEarly]
    simp
  resealContext := fun fingerprint padding keyring bytes contextBytes => by
    unfold needsReseal check
    rw [bind_assoc, bind_assoc]
    refine congrArg _ (funext fun parsed => ?_)
    rw [bind_assoc, bind_assoc]
    rfl
  resealPayload := by
    intro fingerprint padding keyring bytes bytes' suite suite' parsed parsed' hParse hParse'
      hHeader
    obtain ⟨l, hFits, rfl, -⟩ := parseSupported_eq_ok.mp hParse
    obtain ⟨l', hFits', rfl, -⟩ := parseSupported_eq_ok.mp hParse'
    exact needsReseal_header hFits hFits' hHeader fingerprint

end Cryptbox

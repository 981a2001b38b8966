import Cryptbox.SealContext

/-!
# Envelope operations under a seal's context

`bound.rs`: the one path that typed values, records and the migration planner share.

* `Bound.open_eq_ok`: what it takes for bytes to open.
* `Bound.seal_layout`: what sealing writes.
* `Bound.open_seal`: opening under the context and key of the writer gives the plaintext
  back, whatever the padding policies on either side.
* `Bound.reseal_eq_ok`: a rewrite is an open followed by a seal of the same plaintext.
-/

namespace Cryptbox

open Base Envelope

section

variable (prim : Primitives)

/-- Pads and seals `plaintext` under `context` with the current key of `keyring`. -/
def Bound.seal (context : SealContext) (padding : Padding) (plaintext : Bytes)
    (keyring : EncryptionKeyring) (draw : Option Nonce) : Result Bytes :=
  Envelope.seal prim context.envelope padding plaintext keyring draw

/-- Authenticates and decrypts `ciphertext` under `context`, removing recorded padding. -/
def Bound.open (context : SealContext) (ciphertext : Bytes) (keyring : EncryptionKeyring) :
    Result Bytes := do
  let checked ← check context.envelope ciphertext
  checked.open prim keyring

/-- Whether `ciphertext` differs from what `padding` currently writes, without decrypting
it. No context bytes are needed: checking compares only the fingerprint. -/
def Bound.needsReseal (fingerprint : Block 8) (padding : Padding) (ciphertext : Bytes)
    (keyring : EncryptionKeyring) : Result Bool := do
  let checked ← check ⟨[], fingerprint⟩ ciphertext
  return checked.needsReseal padding keyring

/-- Opens `ciphertext` under the context and keyring of `source` and seals its plaintext
under those of `target`, returning the plaintext too. -/
def Bound.reseal (source target : SealContext × EncryptionKeyring) (padding : Padding)
    (ciphertext : Bytes) (draw : Option Nonce) : Result (Bytes × Bytes) := do
  let plaintext ← Bound.open prim source.1 ciphertext source.2
  let ciphertext ← Bound.seal prim target.1 padding plaintext target.2 draw
  return (plaintext, ciphertext)

end

namespace Bound

variable {prim : Primitives} {context : SealContext} {padding : Padding}
  {keyring : EncryptionKeyring} {draw : Option Nonce}

/-! ## Opening -/

theorem open_bytes {l : Layout} (hFits : Supported l) :
    Bound.open prim context l.bytes keyring =
      if l.fingerprint = context.fingerprint then
        (checked l context.envelope).open prim keyring
      else err .contextMismatch := by
  unfold Bound.open
  rw [check_bytes hFits]
  by_cases hFingerprint : l.fingerprint = context.fingerprint
  · rw [if_pos hFingerprint, if_pos (show _ = context.envelope.fingerprint from hFingerprint),
      ok_bind]
  · rw [if_neg hFingerprint, if_neg (show ¬ _ = context.envelope.fingerprint from hFingerprint),
      error_bind]

/-- **Opening**: the bytes are a layout of the expected fingerprint, the keyring holds the
key it names, and the payload decrypts under that key and the expected context. -/
theorem open_eq_ok {bytes plaintext : Bytes} :
    Bound.open prim context bytes keyring = .ok plaintext ↔
      ∃ l key operationalKey decrypted, Supported l ∧ bytes = l.bytes ∧
        l.fingerprint = context.fingerprint ∧ keyring.get l.keyId = some key ∧
        deriveEncryptionKey prim key context.bytes formatVersion ⟨1⟩ = .ok operationalKey ∧
        prim.decryptBytes operationalKey l.nonce (envelopeAad l.stored context.bytes)
          l.ciphertext l.tag = some decrypted ∧
        AeadPlaintext.decode l.padded decrypted = .ok plaintext := by
  unfold Bound.open
  rw [bind_eq_ok]
  constructor
  · intro h
    obtain ⟨_, hCheck, hOpen⟩ := h
    obtain ⟨l, hFits, rfl, hFingerprint, rfl⟩ := check_eq_ok.mp hCheck
    obtain ⟨key, operationalKey, decrypted, h⟩ := open_checked_eq_ok.mp hOpen
    exact ⟨l, key, operationalKey, decrypted, hFits, rfl, hFingerprint, h⟩
  · intro h
    obtain ⟨l, key, operationalKey, decrypted, hFits, rfl, hFingerprint, h⟩ := h
    exact ⟨checked l context.envelope, check_eq_ok.mpr ⟨l, hFits, rfl, hFingerprint, rfl⟩,
      open_checked_eq_ok.mpr ⟨key, operationalKey, decrypted, h⟩⟩

/-- Legacy bytes never open. -/
theorem isCiphertext_of_open {bytes plaintext : Bytes}
    (h : Bound.open prim context bytes keyring = .ok plaintext) : isCiphertext bytes = true := by
  obtain ⟨l, -, -, -, -, rfl, -⟩ := open_eq_ok.mp h
  exact isCiphertext_bytes l

/-- Bytes open under a keyring only as their named key in that keyring opens them. -/
theorem open_congr {bytes : Bytes} {keyring' : EncryptionKeyring}
    (h : ∀ l, Supported l → bytes = l.bytes → keyring.get l.keyId = keyring'.get l.keyId) :
    Bound.open prim context bytes keyring = Bound.open prim context bytes keyring' := by
  rcases parseSupported_cases bytes with ⟨l, hFits, rfl⟩ | ⟨-, hErr⟩ | ⟨-, e, -, hErr⟩
  · rw [open_bytes hFits, open_bytes hFits, open_checked, open_checked, h l hFits rfl]
  · unfold Bound.open check
    rw [hErr]
    rfl
  · unfold Bound.open check
    rw [hErr]
    rfl

/-! ## Sealing -/

/-- What sealing writes: a layout under the current key, the policy's flag and the
context's fingerprint. -/
theorem seal_layout {plaintext bytes : Bytes}
    (h : Bound.seal prim context padding plaintext keyring draw = .ok bytes) :
    ∃ l, Supported l ∧ bytes = l.bytes ∧ l.fingerprint = context.fingerprint ∧
      l.keyId = keyring.current.id ∧ l.padded = padding.isPadded := by
  obtain ⟨nonce, aead, operationalKey, ciphertext, tag, -, hPad, -, hEnc, hLen, rfl⟩ :=
    seal_eq_ok.mp h
  refine ⟨_, ?_, rfl, rfl, rfl, (AeadPlaintext.new_eq_ok hPad).1⟩
  show ciphertext.length ≤ maxMessageLen
  rw [prim.encryptBytes_length hEnc]
  exact hLen

/-- What inspection finds in a sealed value. -/
theorem inspect_seal {plaintext bytes : Bytes}
    (h : Bound.seal prim context padding plaintext keyring draw = .ok bytes) :
    inspectCiphertext bytes
      = .ok ⟨formatVersion, ⟨1⟩, padding.isPadded, keyring.current.id, context.fingerprint⟩ := by
  obtain ⟨l, hFits, rfl, hFingerprint, hKey, hPadded⟩ := seal_layout h
  rw [inspectCiphertext_bytes hFits, l.parsed_info, hPadded, hKey, hFingerprint]

/-- **Opening inverts sealing**, under any keyring that maps the writer's key ID to the
writer's key. -/
theorem open_seal (hAead : prim.DecryptsEncrypted) {plaintext bytes : Bytes}
    {reader : EncryptionKeyring}
    (h : Bound.seal prim context padding plaintext keyring draw = .ok bytes)
    (hKey : reader.get keyring.current.id = some keyring.current) :
    Bound.open prim context bytes reader = .ok plaintext := by
  obtain ⟨nonce, aead, operationalKey, ciphertext, tag, -, hPad, hDerive, hEnc, hLen, rfl⟩ :=
    seal_eq_ok.mp h
  refine open_eq_ok.mpr ⟨_, keyring.current, operationalKey, aead.bytes, ?_, rfl, rfl, hKey,
    hDerive, hAead _ _ _ _ _ _ hEnc, (AeadPlaintext.new_eq_ok hPad).2⟩
  show ciphertext.length ≤ maxMessageLen
  rw [prim.encryptBytes_length hEnc]
  exact hLen

/-- When the primitives do not fail, sealing does for want of padding or of space only. -/
theorem exists_seal (hTotal : prim.Total) (hEncrypts : prim.Encrypts) {plaintext : Bytes}
    {nonce : Nonce} :
    (∃ bytes, Bound.seal prim context padding plaintext keyring (some nonce) = .ok bytes) ↔
      ∃ aead, AeadPlaintext.new padding plaintext = .ok aead ∧
        aead.bytes.length ≤ maxMessageLen := by
  constructor
  · intro h
    obtain ⟨bytes, hSeal⟩ := h
    obtain ⟨_, aead, _, _, _, -, hPad, -, -, hLen, -⟩ := seal_eq_ok.mp hSeal
    exact ⟨aead, hPad, hLen⟩
  · intro h
    obtain ⟨aead, hPad, hLen⟩ := h
    obtain ⟨bytes, hSeal⟩ := exists_sealWithNonce hTotal hEncrypts hLen
    exact ⟨bytes, (seal_of_new hPad).trans hSeal⟩

/-! ## Staleness and resealing -/

theorem needsReseal_bytes {l : Layout} (hFits : Supported l) (fingerprint : Block 8) :
    Bound.needsReseal fingerprint padding l.bytes keyring =
      if l.fingerprint = fingerprint then
        .ok ((checked l ⟨[], fingerprint⟩).needsReseal padding keyring)
      else err .contextMismatch := by
  unfold Bound.needsReseal
  rw [check_bytes hFits]
  by_cases hFingerprint : l.fingerprint = fingerprint
  · rw [if_pos hFingerprint, if_pos (show _ = (Context.mk [] fingerprint).fingerprint from
      hFingerprint)]
    rfl
  · rw [if_neg hFingerprint, if_neg (show ¬ _ = (Context.mk [] fingerprint).fingerprint from
      hFingerprint)]
    rfl

/-- An envelope is current when it names the current key and carries the policy's flag. -/
theorem needsReseal_eq_false {fingerprint : Block 8} {bytes : Bytes} :
    Bound.needsReseal fingerprint padding bytes keyring = .ok false ↔
      ∃ l, Supported l ∧ bytes = l.bytes ∧ l.fingerprint = fingerprint ∧
        l.keyId = keyring.current.id ∧ l.padded = padding.isPadded := by
  unfold Bound.needsReseal
  rw [bind_eq_ok]
  constructor
  · intro h
    obtain ⟨_, hCheck, h⟩ := h
    obtain ⟨l, hFits, rfl, hFingerprint, rfl⟩ := check_eq_ok.mp hCheck
    exact ⟨l, hFits, rfl, hFingerprint, (needsReseal_checked ..).mp (pure_eq_ok.mp h)⟩
  · intro h
    obtain ⟨l, hFits, rfl, hFingerprint, h⟩ := h
    exact ⟨_, check_eq_ok.mpr ⟨l, hFits, rfl, hFingerprint, rfl⟩,
      pure_eq_ok.mpr ((needsReseal_checked ..).mpr h)⟩

/-- What was just sealed needs no reseal. -/
theorem needsReseal_seal {plaintext bytes : Bytes}
    (h : Bound.seal prim context padding plaintext keyring draw = .ok bytes) :
    Bound.needsReseal context.fingerprint padding bytes keyring = .ok false :=
  needsReseal_eq_false.mpr (seal_layout h)

theorem reseal_eq_ok {source target : SealContext × EncryptionKeyring} {bytes : Bytes}
    {out : Bytes × Bytes} :
    Bound.reseal prim source target padding bytes draw = .ok out ↔
      Bound.open prim source.1 bytes source.2 = .ok out.1 ∧
        Bound.seal prim target.1 padding out.1 target.2 draw = .ok out.2 := by
  unfold Bound.reseal
  simp only [bind_eq_ok, pure_eq_ok]
  constructor
  · intro h
    obtain ⟨plaintext, hOpen, ciphertext, hSeal, rfl⟩ := h
    exact ⟨hOpen, hSeal⟩
  · intro h
    obtain ⟨hOpen, hSeal⟩ := h
    exact ⟨out.1, hOpen, out.2, hSeal, rfl⟩

end Bound

end Cryptbox

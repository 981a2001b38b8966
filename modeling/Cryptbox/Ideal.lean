import Cryptbox.Vectors
import Cryptbox.Separation

/-!
# Idealised primitives

Derived keys are equal only for equal key material and info, and a ciphertext with its tag
decrypts only under the key, nonce and AAD of the encryption that returned them. `encrypt`
then answers for the encryptions that were made: it is partial, and what it has not
answered does not decrypt (`Primitives.Ideal`).

* `decrypt_sealed`: whoever decrypts the ciphertext and tag of a sealed layout has that
  layout, the root key it was sealed under and the context it was sealed for.
* `Bound.open_cases`: a reader decrypts, or is refused before any plaintext exists.
* `Bound.open_seal_iff`: an honest envelope opens for its own context and key, and for no
  other.
* `Bound.open_unique`: whatever opens, opens for one context.
* `Bound.open_foreign`: how an honest envelope fails for another context of its kind.
-/

namespace Cryptbox

open Base Envelope

/-- HKDF without collisions and an AEAD without forgeries. -/
structure Primitives.Ideal (prim : Primitives) : Prop where
  /-- Derived keys are equal only for equal key material and info. -/
  derives : ∀ {ikm ikm' info info' : Bytes} {key : prim.Derived},
    prim.hkdf ikm hkdfSalt info = some key → prim.hkdf ikm' hkdfSalt info' = some key →
      ikm = ikm' ∧ info = info'
  /-- What decrypts was encrypted, under the same key, nonce and AAD. -/
  decrypts : ∀ {key : prim.Derived} {nonce : Nonce} {aad ciphertext plaintext : Bytes} {tag : Tag},
    prim.decryptBytes key nonce aad ciphertext tag = some plaintext ↔
      prim.encryptBytes key nonce aad plaintext = some (ciphertext, tag)
  /-- No ciphertext and tag come from two encryptions. -/
  binds : ∀ {key key' : prim.Derived} {nonce nonce' : Nonce} {aad aad' plaintext plaintext' : Bytes}
    {out : Bytes × Tag},
    prim.encryptBytes key nonce aad plaintext = some out →
      prim.encryptBytes key' nonce' aad' plaintext' = some out →
        key = key' ∧ nonce = nonce' ∧ aad = aad'

theorem Primitives.Ideal.decryptsEncrypted {prim : Primitives} (hIdeal : prim.Ideal) :
    prim.DecryptsEncrypted :=
  fun _ _ _ _ _ _ h => hIdeal.decrypts.mpr h

/-- A reader's errors before it has any plaintext: the parse errors, and those of a context,
a key or a tag that does not fit. -/
def Error.IsRefusal : Error → Prop
  | .notCiphertext | .contextMismatch | .unknownEncryptionKey _ | .authenticationFailed => True
  | e => e.IsMalformed

theorem Error.IsMalformed.isRefusal {e : Error} (h : e.IsMalformed) : e.IsRefusal := by
  cases e <;> trivial

namespace KnownAnswers

variable {known : KnownAnswers}

/-- No two encryptions of the tables returned the same ciphertext and tag. -/
def Binding (known : KnownAnswers) : Prop :=
  ∀ a ∈ known.aead, ∀ b ∈ known.aead, a.ciphertext.val = b.ciphertext.val → a.tag = b.tag →
    a.key = b.key ∧ a.nonce = b.nonce ∧ a.aad = b.aad

instance : Decidable known.Binding :=
  inferInstanceAs (Decidable (∀ a ∈ known.aead, ∀ b ∈ known.aead, _ → _ → _ ∧ _ ∧ _))

theorem ideal (h : known.Binding) : (Primitives.answering known).Ideal where
  derives := by
    intro ikm ikm' info info' key hKey hKey'
    have hSame : (ikm, hkdfSalt, info) = (ikm', hkdfSalt, info') :=
      Option.some.inj (hKey.trans hKey'.symm)
    cases hSame
    exact ⟨rfl, rfl⟩
  decrypts := decryptBytes_iff_encryptBytes
  binds := by
    intro key key' nonce nonce' aad aad' plaintext plaintext' out hEnc hEnc'
    obtain ⟨a, ha, ⟨hKey, hNonce, hAad, -⟩, -, -, -, hCiphertext, hTag⟩ :=
      encryptBytes_eq_some.mp hEnc
    obtain ⟨b, hb, ⟨hKey', hNonce', hAad', -⟩, -, -, -, hCiphertext', hTag'⟩ :=
      encryptBytes_eq_some.mp hEnc'
    obtain ⟨h₁, h₂, h₃⟩ :=
      h a ha b hb (hCiphertext.trans hCiphertext'.symm) (hTag.trans hTag'.symm)
    subst hKey hNonce hAad hKey' hNonce' hAad'
    exact ⟨h₁, h₂, h₃⟩

end KnownAnswers

section

variable {prim : Primitives}

/-! ## What a ciphertext and its tag determine -/

/-- An envelope key comes from one root key and one context. -/
theorem Primitives.Ideal.deriveEncryptionKey_inj (hIdeal : prim.Ideal) {root root' : EncryptionKey}
    {context context' : Bytes} {key : prim.Derived}
    (h : deriveEncryptionKey prim root context formatVersion ⟨1⟩ = .ok key)
    (h' : deriveEncryptionKey prim root' context' formatVersion ⟨1⟩ = .ok key) :
    root = root' ∧ context = context' := by
  obtain ⟨hBytes, hInfo⟩ := hIdeal.derives (okOr_eq_ok.mp h) (okOr_eq_ok.mp h')
  obtain ⟨-, -, hId, hContext⟩ := encryptionKeyInfo_inj hInfo
  refine ⟨?_, hContext⟩
  cases root
  cases root'
  exact congrArg₂ KeyMaterial.mk hId (Subtype.ext hBytes)

/-- **A ciphertext and its tag belong to one layout, root key and context.** -/
theorem decrypt_sealed (hIdeal : prim.Ideal) {l l' : Layout} {root root' : EncryptionKey}
    {context context' plaintext plaintext' : Bytes} {key key' : prim.Derived}
    (hKey : deriveEncryptionKey prim root context formatVersion ⟨1⟩ = .ok key)
    (hEnc : prim.encryptBytes key l.nonce (envelopeAad l.stored context) plaintext
      = some (l.ciphertext, l.tag))
    (hKey' : deriveEncryptionKey prim root' context' formatVersion ⟨1⟩ = .ok key')
    (hDec : prim.decryptBytes key' l'.nonce (envelopeAad l'.stored context') l'.ciphertext l'.tag
      = some plaintext')
    (hCiphertext : l'.ciphertext = l.ciphertext) (hTag : l'.tag = l.tag) :
    l' = l ∧ root' = root ∧ context' = context ∧ plaintext' = plaintext := by
  rw [hCiphertext, hTag] at hDec
  obtain ⟨rfl, hNonce, hAad⟩ := hIdeal.binds (hIdeal.decrypts.mp hDec) hEnc
  obtain ⟨hRoot, rfl⟩ := hIdeal.deriveEncryptionKey_inj hKey' hKey
  obtain ⟨hStored, -⟩ := envelopeAad_inj (l'.length_stored.trans l.length_stored.symm) hAad
  have hLayout : l' = l := by
    apply Layout.bytes_injective
    rw [Layout.bytes, Layout.bytes, hStored, hCiphertext, hTag]
  refine ⟨hLayout, hRoot, rfl, ?_⟩
  have hSame := hIdeal.decrypts.mpr hEnc
  rw [hNonce, hAad] at hDec
  exact Option.some.inj (hDec.symm.trans hSame)

/-! ## Opening -/

namespace Bound

variable {context : SealContext} {keyring : EncryptionKeyring}

/-- A reader decrypts a layout and decodes it by its flag, or is refused. -/
theorem open_cases (hTotal : prim.Total) (context : SealContext) (keyring : EncryptionKeyring)
    (bytes : Bytes) :
    (∃ l key operationalKey decrypted, Supported l ∧ bytes = l.bytes ∧
      keyring.get l.keyId = some key ∧
      deriveEncryptionKey prim key context.bytes formatVersion ⟨1⟩ = .ok operationalKey ∧
      prim.decryptBytes operationalKey l.nonce (envelopeAad l.stored context.bytes)
        l.ciphertext l.tag = some decrypted ∧
      Bound.open prim context bytes keyring = AeadPlaintext.decode l.padded decrypted) ∨
    ∃ e : Error, e.IsRefusal ∧ Bound.open prim context bytes keyring = err e := by
  rcases parseSupported_cases bytes with ⟨l, hFits, rfl⟩ | ⟨-, hErr⟩ | ⟨-, e, hBad, hErr⟩
  · rw [open_bytes hFits]
    by_cases hFingerprint : l.fingerprint = context.fingerprint
    · rw [if_pos hFingerprint, open_checked]
      cases hGet : keyring.get l.keyId with
      | none => exact Or.inr ⟨.unknownEncryptionKey l.keyId, trivial, rfl⟩
      | some key =>
        obtain ⟨operationalKey, hKey⟩ := exists_deriveEncryptionKey hTotal key context.bytes
          formatVersion ⟨1⟩
        cases hDec : prim.decryptBytes operationalKey l.nonce
          (envelopeAad l.stored context.bytes) l.ciphertext l.tag with
        | none =>
          refine Or.inr ⟨.authenticationFailed, trivial, ?_⟩
          rw [okOr, ok_bind, show context.envelope.bytes = context.bytes from rfl, hKey, ok_bind,
            hDec]
          rfl
        | some decrypted =>
          refine Or.inl ⟨l, key, operationalKey, decrypted, hFits, rfl, hGet, hKey, hDec, ?_⟩
          rw [okOr, ok_bind, show context.envelope.bytes = context.bytes from rfl, hKey, ok_bind,
            hDec]
          rfl
    · rw [if_neg hFingerprint]
      exact Or.inr ⟨.contextMismatch, trivial, rfl⟩
  · refine Or.inr ⟨.notCiphertext, trivial, ?_⟩
    unfold Bound.open check
    rw [hErr]
    rfl
  · refine Or.inr ⟨e, hBad.isRefusal, ?_⟩
    unfold Bound.open check
    rw [hErr]
    rfl

/-- **An honest envelope opens for the context and the key it was sealed under, and for no
others**, whatever the reader's keyring holds besides. -/
theorem open_seal_iff (hIdeal : prim.Ideal) {id id' : SealId} {record record' : Option RecordValue}
    {padding : Padding} {plaintext plaintext' bytes : Bytes} {writer : EncryptionKeyring}
    {draw : Option Nonce}
    (h : Bound.seal prim (.new prim id record) padding plaintext writer draw = .ok bytes) :
    Bound.open prim (.new prim id' record') bytes keyring = .ok plaintext' ↔
      id' = id ∧ record' = record ∧ keyring.get writer.current.id = some writer.current ∧
        plaintext' = plaintext := by
  constructor
  · intro hOpen
    obtain ⟨nonce, aead, key, ciphertext, tag, -, hPad, hKey, hEnc, -, rfl⟩ := seal_eq_ok.mp h
    obtain ⟨l, root, key', decrypted, -, hBytes, -, hGet, hKey', hDec, hDecode⟩ :=
      open_eq_ok.mp hOpen
    have hLayout := Layout.bytes_injective hBytes
    obtain ⟨-, rfl, hContext, rfl⟩ := decrypt_sealed hIdeal (l := ⟨aead.isPadded,
      writer.current.id, _, nonce, ciphertext, tag⟩) hKey hEnc hKey' hDec
      (by rw [← hLayout]) (by rw [← hLayout])
    obtain ⟨rfl, rfl⟩ := contextBytes_injective hContext
    refine ⟨rfl, rfl, ?_, ?_⟩
    · rw [← hLayout] at hGet
      exact hGet
    · rw [← hLayout] at hDecode
      exact Except.ok.inj (hDecode.symm.trans (AeadPlaintext.new_eq_ok hPad).2)
  · rintro ⟨rfl, rfl, hGet, rfl⟩
    exact open_seal hIdeal.decryptsEncrypted h hGet

/-- **What opens, opens for one context**, whoever holds the keys. -/
theorem open_unique (hIdeal : prim.Ideal) {id id' : SealId} {record record' : Option RecordValue}
    {bytes plaintext plaintext' : Bytes} {keyring' : EncryptionKeyring}
    (h : Bound.open prim (.new prim id record) bytes keyring = .ok plaintext)
    (h' : Bound.open prim (.new prim id' record') bytes keyring' = .ok plaintext') :
    id' = id ∧ record' = record ∧ plaintext' = plaintext := by
  obtain ⟨l, root, key, decrypted, -, rfl, -, -, hKey, hDec, hDecode⟩ := open_eq_ok.mp h
  obtain ⟨l', root', key', decrypted', -, hBytes, -, -, hKey', hDec', hDecode'⟩ :=
    open_eq_ok.mp h'
  obtain rfl := Layout.bytes_injective hBytes
  obtain ⟨-, -, hContext, rfl⟩ := decrypt_sealed hIdeal hKey (hIdeal.decrypts.mp hDec) hKey' hDec'
    rfl rfl
  obtain ⟨rfl, rfl⟩ := contextBytes_injective hContext
  exact ⟨rfl, rfl, Except.ok.inj (hDecode'.symm.trans hDecode)⟩

/-- **An honest envelope is refused for any other context of its kind**: its key is unknown, or
it does not authenticate. -/
theorem open_foreign (hIdeal : prim.Ideal) (hTotal : prim.Total) {id id' : SealId}
    {record record' : Option RecordValue} {padding : Padding} {plaintext bytes : Bytes}
    {writer : EncryptionKeyring} {draw : Option Nonce}
    (h : Bound.seal prim (.new prim id record) padding plaintext writer draw = .ok bytes)
    (hKind : record'.map RecordValue.kind = record.map RecordValue.kind)
    (hOther : ¬ (id' = id ∧ record' = record)) (keyring : EncryptionKeyring) :
    Bound.open prim (.new prim id' record') bytes keyring =
      if (keyring.get writer.current.id).isSome then err .authenticationFailed
      else err (.unknownEncryptionKey writer.current.id) := by
  obtain ⟨nonce, aead, key, ciphertext, tag, -, -, hKey, hEnc, hLen, rfl⟩ := seal_eq_ok.mp h
  let l : Layout := ⟨aead.isPadded, writer.current.id,
    (SealContext.new prim id record).fingerprint, nonce, ciphertext, tag⟩
  have hFits : Supported l := by
    show ciphertext.length ≤ maxMessageLen
    rw [prim.encryptBytes_length hEnc]
    exact hLen
  have hFingerprint : l.fingerprint = (SealContext.new prim id' record').fingerprint :=
    congrArg (fingerprint prim) hKind.symm
  show Bound.open prim _ l.bytes keyring = _
  rw [open_bytes hFits, if_pos hFingerprint, open_checked]
  show (okOr (keyring.get writer.current.id) _ >>= _) = _
  cases keyring.get writer.current.id with
  | none => rfl
  | some root =>
    obtain ⟨key', hKey'⟩ := exists_deriveEncryptionKey hTotal root (contextBytes id' record')
      formatVersion ⟨1⟩
    have hDec : prim.decryptBytes key' l.nonce (envelopeAad l.stored (contextBytes id' record'))
        l.ciphertext l.tag = none := by
      apply Option.eq_none_iff_forall_ne_some.mpr
      intro decrypted hDec
      -- It would have been encrypted for this context.
      obtain ⟨-, -, hContext, -⟩ := decrypt_sealed hIdeal (l := l) hKey hEnc hKey' hDec rfl rfl
      exact hOther (contextBytes_injective hContext)
    rw [okOr, ok_bind]
    show (deriveEncryptionKey prim root (contextBytes id' record') formatVersion ⟨1⟩ >>= _) = _
    rw [hKey', ok_bind]
    show (okOr (prim.decryptBytes key' l.nonce (envelopeAad l.stored (contextBytes id' record'))
      l.ciphertext l.tag) _ >>= _) = _
    rw [hDec]
    rfl

end Bound

end

end Cryptbox

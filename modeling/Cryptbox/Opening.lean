import Cryptbox.Ideal

/-!
# Opening accepts exactly what was sealed

Under idealised primitives a reader accepts a byte string exactly when a writer with the
reader's key sealed it for the reader's context. One envelope is accepted that no policy
writes: unpadding does not ask which policy wrote the marker, so the padded envelope of a
bare marker opens to the empty plaintext (`marker_opens`).

* `open_iff_sealWithNonce`: what opens is what the suite sealed, if its flag decodes it.
* `AeadPlaintext.decode_cases`: what decodes is what some policy writes, or the bare marker.
* `open_exactly_sealed`: what opens, and what happens to an honest envelope that is changed
  or read elsewhere.
-/

namespace Cryptbox

open Base Envelope

section

variable (prim : Primitives) (context : SealContext) (keyring : EncryptionKeyring)

/-- Sealing `plaintext` for `context` writes `bytes`, under some policy and nonce and the key
that `keyring` holds under the ID the envelope names. -/
def SealedFor (bytes plaintext : Bytes) : Prop :=
  ∃ (padding : Padding) (writer : EncryptionKeyring) (nonce : Nonce),
    keyring.get writer.current.id = some writer.current ∧
      Bound.seal prim context padding plaintext writer (some nonce) = .ok bytes

/-- `bytes` is the padded envelope for `context` of a marker and nothing else. -/
def MarkerFor (bytes : Bytes) : Prop :=
  ∃ (key : EncryptionKey) (nonce : Nonce), keyring.get key.id = some key ∧
    sealWithNonce prim context.envelope (.padded [0x80]) key nonce = .ok bytes

end

/-- The ciphertext and tag of `bytes` come from no encryption other than that of `honest`. -/
def CarriesOnly (prim : Primitives) (bytes honest : Bytes) : Prop :=
  ∀ (l : Layout) (key : prim.Derived) (nonce : Nonce) (aad plaintext : Bytes), bytes = l.bytes →
    prim.encryptBytes key nonce aad plaintext = some (l.ciphertext, l.tag) →
      ∃ l' : Layout, honest = l'.bytes ∧ l.ciphertext = l'.ciphertext ∧ l.tag = l'.tag

/-! ## What decodes -/

/-- What decodes to `plaintext` by its flag is what some policy makes of it, or the bare
marker. -/
theorem AeadPlaintext.decode_cases {aead : AeadPlaintext} {plaintext : Bytes}
    (h : decode aead.isPadded aead.bytes = .ok plaintext) (hFits : aead.bytes.length ≤ isizeMax) :
    (∃ padding, new padding plaintext = .ok aead) ∨ (plaintext = [] ∧ aead = .padded [0x80]) := by
  cases aead with
  | unpadded payload =>
    have hSame : payload = plaintext := Except.ok.inj h
    subst hSame
    exact Or.inl ⟨.none, rfl⟩
  | padded expanded =>
    obtain ⟨zeros, hTail⟩ := unpad_eq_ok.mp h
    have hTail : expanded = plaintext ++ paddingTail zeros := hTail
    subst hTail
    have hLen : plaintext.length + zeros + 1 ≤ isizeMax := by
      simpa [AeadPlaintext.bytes, Nat.add_assoc] using hFits
    by_cases hLong : 1 ≤ plaintext.length + zeros
    · obtain ⟨padding, hPad⟩ := exists_pad hLong hLen
      exact Or.inl ⟨padding, bind_eq_ok.mpr ⟨_, hPad, rfl⟩⟩
    · have hEmpty : plaintext = [] := List.length_eq_zero_iff.mp (by omega)
      have hZeros : zeros = 0 := by omega
      subst hEmpty hZeros
      exact Or.inr ⟨rfl, rfl⟩

section

variable {prim : Primitives} {context : SealContext} {keyring : EncryptionKeyring}

/-- Sealing pads, then runs the suite under the drawn nonce. -/
theorem Bound.seal_iff {padding : Padding} {plaintext bytes : Bytes} {nonce : Nonce} :
    Bound.seal prim context padding plaintext keyring (some nonce) = .ok bytes ↔
      ∃ aead, AeadPlaintext.new padding plaintext = .ok aead ∧
        sealWithNonce prim context.envelope aead keyring.current nonce = .ok bytes := by
  unfold Bound.seal Envelope.seal
  rw [bind_eq_ok]
  rfl

/-- **A reader accepts what the suite sealed** under its own key and context, if the flag
decodes the payload. -/
theorem Bound.open_iff_sealWithNonce (hIdeal : prim.Ideal) {bytes plaintext : Bytes} :
    Bound.open prim context bytes keyring = .ok plaintext ↔
      ∃ key nonce aead, keyring.get key.id = some key ∧
        sealWithNonce prim context.envelope aead key nonce = .ok bytes ∧
        AeadPlaintext.decode aead.isPadded aead.bytes = .ok plaintext := by
  constructor
  · intro hOpen
    obtain ⟨⟨padded, keyId, fingerprint, nonce, ciphertext, tag⟩, key, operationalKey, decrypted,
      hFits, rfl, hFingerprint, hGet, hKey, hDec, hDecode⟩ := open_eq_ok.mp hOpen
    have hId : key.id = keyId := Ring.get_id hGet
    have hFingerprint : fingerprint = context.fingerprint := hFingerprint
    subst hId hFingerprint
    have hEnc := hIdeal.decrypts.mp hDec
    have hLen : decrypted.length ≤ maxMessageLen := by
      rw [← prim.encryptBytes_length hEnc]
      exact hFits
    cases padded with
    | false =>
      exact ⟨key, nonce, .unpadded decrypted, hGet, sealWithNonce_eq_ok.mpr
        ⟨operationalKey, ciphertext, tag, hKey, hEnc, hLen, rfl⟩, hDecode⟩
    | true =>
      exact ⟨key, nonce, .padded decrypted, hGet, sealWithNonce_eq_ok.mpr
        ⟨operationalKey, ciphertext, tag, hKey, hEnc, hLen, rfl⟩, hDecode⟩
  · intro h
    obtain ⟨key, nonce, aead, hGet, hSeal, hDecode⟩ := h
    obtain ⟨operationalKey, ciphertext, tag, hKey, hEnc, hLen, rfl⟩ :=
      sealWithNonce_eq_ok.mp hSeal
    refine open_eq_ok.mpr ⟨_, key, operationalKey, aead.bytes, ?_, rfl, rfl, hGet, hKey,
      hIdeal.decrypts.mpr hEnc, hDecode⟩
    show ciphertext.length ≤ maxMessageLen
    rw [prim.encryptBytes_length hEnc]
    exact hLen

/-- What opens was sealed for this reader, or is the bare marker. -/
theorem Bound.open_iff_sealedFor (hIdeal : prim.Ideal) {bytes plaintext : Bytes} :
    Bound.open prim context bytes keyring = .ok plaintext ↔
      SealedFor prim context keyring bytes plaintext ∨
        (plaintext = [] ∧ MarkerFor prim context keyring bytes) := by
  rw [open_iff_sealWithNonce hIdeal]
  constructor
  · intro h
    obtain ⟨key, nonce, aead, hGet, hSeal, hDecode⟩ := h
    obtain ⟨-, -, -, -, -, hLen, -⟩ := sealWithNonce_eq_ok.mp hSeal
    have hMax : maxMessageLen ≤ isizeMax := by decide
    rcases AeadPlaintext.decode_cases hDecode (hLen.trans hMax) with ⟨padding, hPad⟩ | ⟨rfl, rfl⟩
    · exact Or.inl ⟨padding, .single key, nonce, hGet, Bound.seal_iff.mpr ⟨aead, hPad, hSeal⟩⟩
    · exact Or.inr ⟨rfl, key, nonce, hGet, hSeal⟩
  · intro h
    rcases h with ⟨padding, writer, nonce, hGet, hSeal⟩ | ⟨rfl, key, nonce, hGet, hSeal⟩
    · obtain ⟨aead, hPad, hSeal⟩ := Bound.seal_iff.mp hSeal
      exact ⟨writer.current, nonce, aead, hGet, hSeal, (AeadPlaintext.new_eq_ok hPad).2⟩
    · exact ⟨key, nonce, .padded [0x80], hGet, hSeal, rfl⟩

/-! ## Honest envelopes -/

/-- A reader who decrypts the encryption of an honest envelope has that envelope, its
context and its key; every other reader of it is refused. -/
theorem Bound.open_honest (hIdeal : prim.Ideal) (hTotal : prim.Total) {id id' : SealId}
    {record record' : Option RecordValue} {padding : Padding} {plaintext bytes honest : Bytes}
    {writer : EncryptionKeyring} {draw : Option Nonce}
    (hSeal : Bound.seal prim (.new prim id' record') padding plaintext writer draw = .ok honest)
    (hOnly : CarriesOnly prim bytes honest) :
    (bytes = honest ∧ id = id' ∧ record = record' ∧
        keyring.get writer.current.id = some writer.current) ∨
      ∃ e : Error, e.IsRefusal ∧ Bound.open prim (.new prim id record) bytes keyring = err e := by
  rcases open_cases hTotal (.new prim id record) keyring bytes with
    ⟨l, root, key, decrypted, -, hBytes, hGet, hKey, hDec, -⟩ | hRefused
  · obtain ⟨l', hHonest, hCiphertext, hTag⟩ := hOnly l key l.nonce _ decrypted hBytes
      (hIdeal.decrypts.mp hDec)
    obtain ⟨nonce, aead, key', ciphertext, tag, -, -, hKey', hEnc, -, hWritten⟩ :=
      seal_eq_ok.mp hSeal
    obtain rfl := Layout.bytes_injective (hHonest.symm.trans hWritten)
    obtain ⟨rfl, rfl, hContext, -⟩ :=
      decrypt_sealed hIdeal hKey' hEnc hKey hDec hCiphertext hTag
    obtain ⟨rfl, rfl⟩ := contextBytes_injective hContext
    exact Or.inl ⟨hBytes.trans hWritten.symm, rfl, rfl, hGet⟩
  · exact Or.inr hRefused

end

/-- **Opening accepts exactly what was sealed for the reader**, and the bare marker. Of the
bytes that carry no other encryption than that of an honest envelope, that envelope alone
opens, under its own context and key alone; everything else is refused. -/
theorem Bound.open_exactly_sealed {prim : Primitives} (hIdeal : prim.Ideal) (hTotal : prim.Total)
    (id : SealId) (record : Option RecordValue) (keyring : EncryptionKeyring) (bytes : Bytes) :
    (∀ plaintext, Bound.open prim (.new prim id record) bytes keyring = .ok plaintext ↔
      SealedFor prim (.new prim id record) keyring bytes plaintext ∨
        (plaintext = [] ∧ MarkerFor prim (.new prim id record) keyring bytes)) ∧
    ∀ (id' : SealId) (record' : Option RecordValue) (padding : Padding) (plaintext honest : Bytes)
      (writer : EncryptionKeyring) (draw : Option Nonce),
      Bound.seal prim (.new prim id' record') padding plaintext writer draw = .ok honest →
      CarriesOnly prim bytes honest →
      if bytes = honest ∧ id = id' ∧ record = record' ∧
          keyring.get writer.current.id = some writer.current then
        Bound.open prim (.new prim id record) bytes keyring = .ok plaintext
      else
        ∃ e : Error, e.IsRefusal ∧
          Bound.open prim (.new prim id record) bytes keyring = err e := by
  refine ⟨fun plaintext => open_iff_sealedFor hIdeal, ?_⟩
  intro id' record' padding plaintext honest writer draw hSeal hOnly
  split
  · next hOwn =>
    obtain ⟨rfl, rfl, rfl, hGet⟩ := hOwn
    exact open_seal hIdeal.decryptsEncrypted hSeal hGet
  · next hOther =>
    rcases open_honest hIdeal hTotal hSeal hOnly with hOwn | hRefused
    · exact absurd hOwn hOther
    · exact hRefused

/-! ## The bare marker -/

/-- No policy writes the envelope of the bare marker. -/
theorem not_sealedFor_marker {prim : Primitives} {context : SealContext}
    {keyring : EncryptionKeyring} {bytes plaintext : Bytes}
    (h : MarkerFor prim context keyring bytes) :
    ¬ SealedFor prim context keyring bytes plaintext := by
  rintro ⟨padding, writer, nonce', -, hSeal⟩
  obtain ⟨key, nonce, -, hMarker⟩ := h
  obtain ⟨_, ciphertext, tag, -, hEnc, -, hBytes⟩ := sealWithNonce_eq_ok.mp hMarker
  obtain ⟨aead, hPad, hSeal⟩ := Bound.seal_iff.mp hSeal
  obtain ⟨_, ciphertext', tag', -, hEnc', -, hBytes'⟩ := sealWithNonce_eq_ok.mp hSeal
  have hLayout := Layout.bytes_injective (hBytes.symm.trans hBytes')
  have hFlag : true = aead.isPadded := congrArg Layout.padded hLayout
  have hCiphertext : ciphertext = ciphertext' := congrArg Layout.ciphertext hLayout
  have hLen : aead.bytes.length = 1 := by
    rw [← prim.encryptBytes_length hEnc', ← hCiphertext, prim.encryptBytes_length hEnc]
    rfl
  obtain ⟨out, hOut, hAead⟩ := bind_eq_ok.mp hPad
  rcases pad_cases hOut with ⟨-, rfl⟩ | ⟨-, zeros, rfl⟩
  · cases pure_eq_ok.mp hAead
    cases hFlag
  · cases pure_eq_ok.mp hAead
    have hLen : (plaintext ++ paddingTail zeros).length = 1 := hLen
    rw [List.length_append, length_paddingTail] at hLen
    have hEmpty : plaintext = [] := List.length_eq_zero_iff.mp (by omega)
    have hZeros : zeros = 0 := by omega
    subst hEmpty hZeros
    exact pad_ne_marker padding hOut

namespace Vectors

/-- The envelope of the bare marker under the standalone context and the encryption key. -/
def markerHead : Bytes :=
  be 31 0x4342580002010111111111222243338444555555555555502de8fcfb838c80 ++ nonce.val

def markerEnvelope : Bytes := markerHead ++ be 17 0xd98c9b41572b9b10abc7d4cb1acb857396

/-- The known answers and the encryption of the bare marker. -/
def knownMarker : KnownAnswers where
  hashes := known.hashes
  macs := known.macs
  aead := {
    key := operationalKey standaloneContext
    nonce := nonce
    aad := byteString "cryptbox/envelope-aad/v1\x00" ++ markerHead ++ standaloneContext
    plaintext := [0x80]
    ciphertext := ⟨[0xd9], rfl⟩
    tag := beBlock 16 0x8c9b41572b9b10abc7d4cb1acb857396 } :: known.aead
  unambiguous := by decide

def markerPrim : Primitives := .answering knownMarker

end Vectors

/-- The reader accepts the envelope of the bare marker, which was not sealed for it. -/
theorem Bound.marker_opens :
    Vectors.markerPrim.Ideal ∧ Vectors.markerPrim.Total ∧
      Bound.open Vectors.markerPrim (.new Vectors.markerPrim Vectors.vectorSeal.id none)
        Vectors.markerEnvelope Vectors.encryptionKeyring = .ok [] ∧
      ¬ SealedFor Vectors.markerPrim (.new Vectors.markerPrim Vectors.vectorSeal.id none)
        Vectors.encryptionKeyring Vectors.markerEnvelope [] := by
  have hMarker : MarkerFor Vectors.markerPrim
      (.new Vectors.markerPrim Vectors.vectorSeal.id none) Vectors.encryptionKeyring
      Vectors.markerEnvelope :=
    ⟨Vectors.encryptionKey, Vectors.nonce, Ring.get_current Vectors.encryptionKeyring,
      by decide +kernel⟩
  exact ⟨KnownAnswers.ideal (by decide), KnownAnswers.primitives_total _, by decide +kernel,
    not_sealedFor_marker hMarker⟩

theorem Bound.open_exactly_sealed_vector :
    Bound.open Vectors.prim (.new Vectors.prim Vectors.vectorSeal.id none) Vectors.envelope
        Vectors.encryptionKeyring = .ok Vectors.plaintext.val ∧
      ∃ e : Error, e.IsRefusal ∧
        Bound.open Vectors.prim (.new Vectors.prim Vectors.vectorSeal.id (some (.i64 7)))
          Vectors.envelope Vectors.encryptionKeyring = err e := by
  have hIdeal : Vectors.prim.Ideal := KnownAnswers.ideal (by decide)
  have hOnly : CarriesOnly Vectors.prim Vectors.envelope Vectors.envelope :=
    fun l _ _ _ _ hBytes _ => ⟨l, hBytes, rfl, rfl⟩
  constructor
  · refine (if_pos ?_).mp ((open_exactly_sealed hIdeal Vectors.total Vectors.vectorSeal.id none
      Vectors.encryptionKeyring Vectors.envelope).2 Vectors.vectorSeal.id none _ _ _ _ _
      Vectors.seal_plaintext hOnly)
    exact ⟨rfl, rfl, rfl, Ring.get_current Vectors.encryptionKeyring⟩
  · refine (if_neg ?_).mp ((open_exactly_sealed hIdeal Vectors.total Vectors.vectorSeal.id
      (some (.i64 7)) Vectors.encryptionKeyring Vectors.envelope).2 Vectors.vectorSeal.id none
      _ _ _ _ _ Vectors.seal_plaintext hOnly)
    intro h
    obtain ⟨-, -, hRecord, -⟩ := h
    cases hRecord

end Cryptbox

import Cryptbox.Blind

/-!
# Known answers

Primitives that answer from tables of what the real ones answered: those of
`tests/vectors.rs` and the hashes and digests that go with them. A derived key stands for
the inputs it was derived from. Whatever the tables hold, such primitives decrypt what they
encrypted (`KnownAnswers.decryptsEncrypted`) and nothing else
(`KnownAnswers.decryptBytes_iff_encryptBytes`).
-/

namespace Cryptbox

open Base

/-- A derived key, named by the key material, salt and info it was derived from. -/
abbrev DerivedFrom := Bytes × Bytes × Bytes

/-- One encryption of the AEAD and what it returned. -/
structure AeadAnswer where
  key : DerivedFrom
  nonce : Nonce
  aad : Bytes
  plaintext : Bytes
  ciphertext : { c : Bytes // c.length = plaintext.length }
  tag : Tag

namespace AeadAnswer

def IsEncryption (a : AeadAnswer) (key : DerivedFrom) (nonce : Nonce) (aad plaintext : Bytes) :
    Prop :=
  a.key = key ∧ a.nonce = nonce ∧ a.aad = aad ∧ a.plaintext = plaintext

def IsDecryption (a : AeadAnswer) (key : DerivedFrom) (nonce : Nonce) (aad ciphertext : Bytes)
    (tag : Tag) : Prop :=
  a.key = key ∧ a.nonce = nonce ∧ a.aad = aad ∧ a.ciphertext.val = ciphertext ∧ a.tag = tag

instance (a : AeadAnswer) (key : DerivedFrom) (nonce : Nonce) (aad plaintext : Bytes) :
    Decidable (a.IsEncryption key nonce aad plaintext) :=
  inferInstanceAs (Decidable (_ ∧ _ ∧ _ ∧ _))

instance (a : AeadAnswer) (key : DerivedFrom) (nonce : Nonce) (aad ciphertext : Bytes) (tag : Tag) :
    Decidable (a.IsDecryption key nonce aad ciphertext tag) :=
  inferInstanceAs (Decidable (_ ∧ _ ∧ _ ∧ _ ∧ _))

end AeadAnswer

/-- Tables of known answers. -/
structure KnownAnswers where
  hashes : List (Bytes × Block 32)
  macs : List ((DerivedFrom × Bytes) × Block 32)
  aead : List AeadAnswer
  /-- No two encryptions differ in the plaintext alone, or in the ciphertext alone. -/
  unambiguous : ∀ a ∈ aead, ∀ b ∈ aead, a.key = b.key → a.nonce = b.nonce → a.aad = b.aad →
    (a.plaintext = b.plaintext ↔ a.ciphertext.val = b.ciphertext.val ∧ a.tag = b.tag)

/-- Primitives that know only the answers of the tables; hashes and digests that are not
there are zero. -/
def Primitives.answering (known : KnownAnswers) : Primitives where
  Derived := DerivedFrom
  hkdf ikm salt info := some (ikm, salt, info)
  hmac key input := some ((known.macs.lookup (key, input)).getD (.zero 32))
  sha256 input := (known.hashes.lookup input).getD (.zero 32)
  encrypt key nonce aad plaintext :=
    match known.aead.find? fun a => a.IsEncryption key nonce aad plaintext with
    | none => none
    | some a =>
      if h : a.plaintext = plaintext then
        some (⟨a.ciphertext.val, h ▸ a.ciphertext.property⟩, a.tag)
      else none
  decrypt key nonce aad ciphertext tag :=
    match known.aead.find? fun a => a.IsDecryption key nonce aad ciphertext tag with
    | none => none
    | some a =>
      if h : a.ciphertext.val = ciphertext then
        some ⟨a.plaintext, by rw [← h, a.ciphertext.property]⟩
      else none

namespace KnownAnswers

variable {known : KnownAnswers} {key : DerivedFrom} {nonce : Nonce}
  {aad plaintext ciphertext : Bytes} {tag : Tag}

theorem primitives_total (known : KnownAnswers) : (Primitives.answering known).Total :=
  ⟨fun _ _ _ => rfl, fun _ _ => rfl⟩

theorem encryptBytes_eq_some :
    (Primitives.answering known).encryptBytes key nonce aad plaintext = some (ciphertext, tag) ↔
      ∃ a ∈ known.aead, a.IsEncryption key nonce aad plaintext ∧
        a.IsDecryption key nonce aad ciphertext tag := by
  unfold Primitives.encryptBytes Primitives.answering
  dsimp only
  constructor
  · intro h
    split at h
    · cases h
    · next a hFind =>
      have hFound := List.find?_some hFind
      obtain ⟨hKey, hNonce, hAad, hPlaintext⟩ := of_decide_eq_true hFound
      rw [dif_pos hPlaintext] at h
      cases h
      exact ⟨a, List.mem_of_find?_eq_some hFind, ⟨hKey, hNonce, hAad, hPlaintext⟩,
        hKey, hNonce, hAad, rfl, rfl⟩
  · intro h
    obtain ⟨a, hMem, hEnc, hDec⟩ := h
    cases hFind : known.aead.find? fun a => decide (a.IsEncryption key nonce aad plaintext) with
    | none => exact absurd (decide_eq_true hEnc) (List.find?_eq_none.mp hFind a hMem)
    | some b =>
      have hFound := List.find?_some hFind
      have hB : b.IsEncryption key nonce aad plaintext := of_decide_eq_true hFound
      obtain ⟨hCiphertext, hTag⟩ := (known.unambiguous b (List.mem_of_find?_eq_some hFind) a hMem
        (hB.1.trans hEnc.1.symm) (hB.2.1.trans hEnc.2.1.symm) (hB.2.2.1.trans hEnc.2.2.1.symm)).mp
        (hB.2.2.2.trans hEnc.2.2.2.symm)
      simp only [dif_pos hB.2.2.2, Option.map_some]
      rw [hCiphertext, hDec.2.2.2.1, hTag, hDec.2.2.2.2]

theorem decryptBytes_eq_some :
    (Primitives.answering known).decryptBytes key nonce aad ciphertext tag = some plaintext ↔
      ∃ a ∈ known.aead, a.IsEncryption key nonce aad plaintext ∧
        a.IsDecryption key nonce aad ciphertext tag := by
  unfold Primitives.decryptBytes Primitives.answering
  dsimp only
  constructor
  · intro h
    split at h
    · cases h
    · next a hFind =>
      have hFound := List.find?_some hFind
      obtain ⟨hKey, hNonce, hAad, hCiphertext, hTag⟩ := of_decide_eq_true hFound
      rw [dif_pos hCiphertext] at h
      cases h
      exact ⟨a, List.mem_of_find?_eq_some hFind, ⟨hKey, hNonce, hAad, rfl⟩,
        hKey, hNonce, hAad, hCiphertext, hTag⟩
  · intro h
    obtain ⟨a, hMem, hEnc, hDec⟩ := h
    cases hFind :
      known.aead.find? fun a => decide (a.IsDecryption key nonce aad ciphertext tag) with
    | none => exact absurd (decide_eq_true hDec) (List.find?_eq_none.mp hFind a hMem)
    | some b =>
      have hFound := List.find?_some hFind
      have hB : b.IsDecryption key nonce aad ciphertext tag := of_decide_eq_true hFound
      have hSame : b.plaintext = a.plaintext :=
        (known.unambiguous b (List.mem_of_find?_eq_some hFind) a hMem (hB.1.trans hDec.1.symm)
          (hB.2.1.trans hDec.2.1.symm) (hB.2.2.1.trans hDec.2.2.1.symm)).mpr
          ⟨hB.2.2.2.1.trans hDec.2.2.2.1.symm, hB.2.2.2.2.trans hDec.2.2.2.2.symm⟩
      simp only [dif_pos hB.2.2.2.1, Option.map_some]
      rw [hSame, hEnc.2.2.2]

/-- Such primitives decrypt exactly what they encrypted. -/
theorem decryptBytes_iff_encryptBytes :
    (Primitives.answering known).decryptBytes key nonce aad ciphertext tag = some plaintext ↔
      (Primitives.answering known).encryptBytes key nonce aad plaintext
        = some (ciphertext, tag) :=
  decryptBytes_eq_some.trans encryptBytes_eq_some.symm

theorem decryptsEncrypted (known : KnownAnswers) :
    (Primitives.answering known).DecryptsEncrypted :=
  fun _ _ _ _ _ _ h => decryptBytes_iff_encryptBytes.mpr h

end KnownAnswers

/-- Primitives that also encrypt what `prim` has no answer for. -/
def Primitives.completed (prim : Primitives) : Primitives where
  Derived := prim.Derived
  hkdf := prim.hkdf
  hmac := prim.hmac
  sha256 := prim.sha256
  encrypt key nonce aad plaintext :=
    some ((prim.encrypt key nonce aad plaintext).getD (⟨plaintext, rfl⟩, .zero 16))
  decrypt := prim.decrypt

theorem Primitives.completed_encrypts (prim : Primitives) : prim.completed.Encrypts :=
  fun _ _ _ _ _ => rfl

theorem Primitives.Total.completed {prim : Primitives} (h : prim.Total) : prim.completed.Total :=
  ⟨h.hkdf, h.hmac⟩

/-! ## The vectors -/

namespace Vectors

def keyId : KeyId := ⟨beBlock 16 0x11111111222243338444555555555555⟩

def encryptionKey : EncryptionKey := ⟨keyId, ⟨List.replicate 32 0x11, List.length_replicate⟩⟩

def encryptionKeyring : EncryptionKeyring := .single encryptionKey

/-- A key of an earlier generation. -/
def previousKey : EncryptionKey :=
  ⟨⟨beBlock 16 0x99999999888847778666555555555555⟩, ⟨List.replicate 32 0x33, List.length_replicate⟩⟩

/-- The keyring after a rotation. -/
def rotatedKeyring : EncryptionKeyring :=
  (EncryptionKeyring.new encryptionKey [previousKey]).toOption.getD encryptionKeyring

def nonce : Nonce := ⟨(List.range 24).map UInt8.ofNat, rfl⟩

def plaintext : Vec := ⟨byteString "cryptbox vector", by decide⟩

/-- The seal context of a standalone value. -/
def standaloneContext : Bytes := be 18 0x123456781234423482341234567890ab0000

/-- The header and nonce of the unpadded envelope. -/
def standaloneHead : Bytes :=
  be 31 0x4342580002010011111111222243338444555555555555502de8fcfb838c80 ++ nonce.val

/-- `UNPADDED`. -/
def envelope : Bytes :=
  standaloneHead ++ be 31 0x3a8e058803722f56b0ffc9ecbbb7e30624c444239c62d73be5eac7459c548f

/-- The key an envelope of `context` is encrypted under. -/
def operationalKey (context : Bytes) : DerivedFrom :=
  (List.replicate 32 0x11, byteString "cryptbox/hkdf-sha256/v1\x00",
    byteString "cryptbox/encryption-key/v1\x00" ++ [2, 1] ++ keyId.asBytes.val ++ context)

/-- `VectorSeal`. -/
def vectorSeal : Seal where
  id := ⟨beBlock 16 0x123456781234423482341234567890ab⟩
  padding := .none
  Value := Vec
  codec := .raw

def indexKey : BlindIndexKey :=
  ⟨⟨beBlock 16 0xaaaaaaaabbbb4ccc8dddeeeeeeeeeeee⟩,
    ⟨List.replicate 32 0x22, List.length_replicate⟩⟩

def indexKeyring : BlindIndexKeyring := .single indexKey

/-- `VectorIndex`, which keeps 13 bits. -/
def vectorIndex : BlindIndexSpec vectorSeal where
  id := ⟨beBlock 16 0xabcdefabcdef4def8defabcdefabcdef⟩
  bits := 13
  valid := rfl
  Query := Vec
  normalizeQuery query := .ok query
  normalizeValue value := .ok value

/-- Version, index key ID and precision of an index of `VectorIndex`. -/
def indexHead : Bytes := be 19 0x02aaaaaaaabbbb4ccc8dddeeeeeeeeeeee000d

/-- The index of the plaintext. -/
def index : Bytes := indexHead ++ [0xb5, 0xe8]

def indexBinding : Bytes :=
  indexHead ++ standaloneContext ++ be 16 0xabcdefabcdef4def8defabcdefabcdef

def known : KnownAnswers where
  hashes := [
    (byteString "cryptbox/context-fingerprint/v1\x00" ++ [0, 0],
      beBlock 32 0x502de8fcfb838c80064384bf5170ce7ac5d2658c1191482f643fc27f4376fa9b)]
  macs := [
    (((List.replicate 32 0x22, byteString "cryptbox/hkdf-sha256/v1\x00",
        byteString "cryptbox/blind-index-key/v1\x00" ++ indexBinding),
      byteString "cryptbox/blind-index-value/v1\x00" ++ indexBinding ++ be 8 15 ++ plaintext.val),
      beBlock 32 0xb5e913c951fdf6e5437d608dab92747586055913ec01de3ff9c12fdeef400012)]
  aead := [{
    key := operationalKey standaloneContext
    nonce := nonce
    aad := byteString "cryptbox/envelope-aad/v1\x00" ++ standaloneHead ++ standaloneContext
    plaintext := plaintext.val
    ciphertext := ⟨be 15 0x3a8e058803722f56b0ffc9ecbbb7e3, rfl⟩
    tag := beBlock 16 0x0624c444239c62d73be5eac7459c548f }]
  unambiguous := by decide

/-- An index key of an earlier generation. -/
def previousIndexKey : BlindIndexKey :=
  ⟨⟨beBlock 16 0xbbbbbbbbbbbb4ccc8dddeeeeeeeeeeee⟩,
    ⟨List.replicate 32 0x55, List.length_replicate⟩⟩

/-- The index of the plaintext under that key. -/
def previousIndex : Bytes := be 21 0x02bbbbbbbbbbbb4ccc8dddeeeeeeeeeeee000dae58

/-- The index keyring after a rotation. -/
def rotatedIndexes : BlindIndexKeyring :=
  (BlindIndexKeyring.new indexKey [previousIndexKey]).toOption.getD indexKeyring

/-- A value whose index is that of the plaintext. -/
def collision : Vec := ⟨byteString "cryptbox value 6607", by decide⟩

/-- The digest of `value` that `VectorIndex` truncates under `key`. -/
def digestAnswer (key : BlindIndexKey) (value : Vec) (digest : Block 32) :
    (DerivedFrom × Bytes) × Block 32 :=
  let binding := indexFormatVersion :: (key.id.asBytes.val ++ be 2 13) ++ standaloneContext
    ++ vectorIndex.id.asBytes.val
  (((key.bytes.val, hkdfSalt, indexKeyLabel ++ binding),
    indexValueLabel ++ binding ++ be 8 value.val.length ++ value.val), digest)

/-- The digests of both generations. -/
def knownDigests : List ((DerivedFrom × Bytes) × Block 32) := [
  digestAnswer indexKey plaintext
    (beBlock 32 0xb5e913c951fdf6e5437d608dab92747586055913ec01de3ff9c12fdeef400012),
  digestAnswer previousIndexKey plaintext
    (beBlock 32 0xae5b0f043c9beae462729cc0f7aa7c763db14713206b24af5084dd1c4893c5e3),
  digestAnswer indexKey collision
    (beBlock 32 0xb5e896a0bfe60badacd47fb8a773d5fefdb48e5090db321679c28a1fe9d2527a)]

/-- The primitives of the vectors. -/
def prim : Primitives := .answering known

theorem decryptsEncrypted : prim.DecryptsEncrypted := KnownAnswers.decryptsEncrypted known

theorem total : prim.Total := KnownAnswers.primitives_total known

theorem roundTrips : vectorSeal.codec.RoundTrips := Codec.raw_roundTrips

theorem seal_plaintext : Bound.seal prim (.standalone prim vectorSeal) .none plaintext.val
    encryptionKeyring (some nonce) = .ok envelope := by decide +kernel

theorem open_envelope : Bound.open prim (.standalone prim vectorSeal) envelope encryptionKeyring
    = .ok plaintext.val := by decide +kernel

theorem open_plaintext : Bound.open prim (.standalone prim vectorSeal) plaintext.val
    encryptionKeyring = err .notCiphertext := by decide +kernel

theorem decode_plaintext : vectorSeal.codec.decode plaintext.val = .ok plaintext :=
  roundTrips plaintext plaintext rfl

end Vectors

end Cryptbox

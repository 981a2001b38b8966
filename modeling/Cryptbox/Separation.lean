import Cryptbox.Blind

/-!
# What the primitives are asked for

Key derivation, the AAD and the index MAC are given plain concatenations. Every part but the
last has a fixed length or, as a seal context, is prefix-free, so a concatenation is read in
one way only; and the labels keep apart the keys of envelopes and of indexes.

* `encryptionKeyInfo_inj`, `envelopeAad_inj`: the inputs of an envelope.
* `indexKeyInfo_inj`, `indexValueInput_inj`: the inputs of an index.
* `encryptionKeyInfo_ne_indexKeyInfo`: no key serves both.
-/

namespace Cryptbox

open Base

/-- The info of the key of an envelope. -/
def encryptionKeyInfo (keyId : KeyId) (context : Bytes) (formatVersion : UInt8)
    (suiteId : SuiteId) : Bytes :=
  [encryptionKeyLabel, [formatVersion, suiteId.get], keyId.asBytes.val, context].flatten

/-- The info of the key of an index. -/
def indexKeyInfo (keyId : IndexKeyId) (bits : UInt16) (sealContext : Bytes) (indexId : IndexId) :
    Bytes :=
  [indexKeyLabel, indexHeader keyId bits, sealContext, indexId.asBytes.val].flatten

/-- What the MAC of an index covers. -/
def indexValueInput (keyId : IndexKeyId) (bits : UInt16) (sealContext : Bytes)
    (indexId : IndexId) (normalized : Bytes) : Bytes :=
  [indexValueLabel, indexHeader keyId bits, sealContext, indexId.asBytes.val,
    be 8 normalized.length, normalized].flatten

/-! ## Envelopes -/

theorem encryptionKeyInfo_inj {keyId keyId' : KeyId} {context context' : Bytes}
    {version version' : UInt8} {suiteId suiteId' : SuiteId}
    (h : encryptionKeyInfo keyId context version suiteId
      = encryptionKeyInfo keyId' context' version' suiteId') :
    version = version' ∧ suiteId = suiteId' ∧ keyId = keyId' ∧ context = context' := by
  have hTail := (List.append_cancel_left_eq encryptionKeyLabel _ _).mp h
  obtain ⟨hHead, hTail⟩ := List.append_inj hTail rfl
  obtain ⟨hVersion, hSuite⟩ := List.cons.inj hHead
  obtain ⟨hId, hContext⟩ := Block.append_inj hTail
  refine ⟨hVersion, ?_, Identifier.asBytes_injective (congrArg Subtype.val hId), ?_⟩
  · cases suiteId
    cases suiteId'
    exact congrArg SuiteId.mk (List.cons.inj hSuite).1
  · simpa using hContext

/-- The AAD determines the stored prefix, among prefixes of one length, and the context. -/
theorem envelopeAad_inj {stored stored' context context' : Bytes}
    (hLen : stored.length = stored'.length)
    (h : envelopeAad stored context = envelopeAad stored' context') :
    stored = stored' ∧ context = context' := by
  unfold envelopeAad at h
  rw [List.append_assoc, List.append_assoc, List.append_cancel_left_eq] at h
  exact List.append_inj h hLen

/-! ## Indexes -/

theorem indexKeyInfo_inj {keyId keyId' : IndexKeyId} {bits bits' : UInt16} {id id' : SealId}
    {record record' : Option RecordValue} {indexId indexId' : IndexId}
    (h : indexKeyInfo keyId bits (contextBytes id record) indexId
      = indexKeyInfo keyId' bits' (contextBytes id' record') indexId') :
    keyId = keyId' ∧ bits = bits' ∧ id = id' ∧ record = record' ∧ indexId = indexId' := by
  have hTail := (List.append_cancel_left_eq indexKeyLabel _ _).mp h
  obtain ⟨hKey, hBits, hTail⟩ := indexHeader_append_inj hTail
  obtain ⟨hId, hRecord, hTail⟩ := contextBytes_append_inj hTail
  obtain ⟨hIndex, -⟩ := Block.append_inj hTail
  exact ⟨hKey, hBits, hId, hRecord,
    Identifier.asBytes_injective (congrArg Subtype.val hIndex)⟩

theorem indexValueInput_inj {keyId keyId' : IndexKeyId} {bits bits' : UInt16} {id id' : SealId}
    {record record' : Option RecordValue} {indexId indexId' : IndexId}
    {normalized normalized' : Bytes}
    (h : indexValueInput keyId bits (contextBytes id record) indexId normalized
      = indexValueInput keyId' bits' (contextBytes id' record') indexId' normalized') :
    keyId = keyId' ∧ bits = bits' ∧ id = id' ∧ record = record' ∧ indexId = indexId' ∧
      normalized = normalized' := by
  have hTail := (List.append_cancel_left_eq indexValueLabel _ _).mp h
  obtain ⟨hKey, hBits, hTail⟩ := indexHeader_append_inj hTail
  obtain ⟨hId, hRecord, hTail⟩ := contextBytes_append_inj hTail
  obtain ⟨hIndex, hTail⟩ := Block.append_inj hTail
  obtain ⟨-, hNormalized⟩ := List.append_inj hTail (by simp)
  exact ⟨hKey, hBits, hId, hRecord,
    Identifier.asBytes_injective (congrArg Subtype.val hIndex), by simpa using hNormalized⟩

/-! ## Labels -/

/-- The labels of the two kinds of keys differ at their tenth byte. -/
theorem encryptionKeyInfo_ne_indexKeyInfo (keyId : KeyId) (context : Bytes) (version : UInt8)
    (suiteId : SuiteId) (indexKeyId : IndexKeyId) (bits : UInt16) (sealContext : Bytes)
    (indexId : IndexId) :
    encryptionKeyInfo keyId context version suiteId
      ≠ indexKeyInfo indexKeyId bits sealContext indexId := by
  intro h
  have hByte := congrArg (fun info => info[9]?) h
  have hEncryption : (encryptionKeyInfo keyId context version suiteId)[9]? = some 101 :=
    List.getElem?_append_left (by decide)
  have hIndex : (indexKeyInfo indexKeyId bits sealContext indexId)[9]? = some 98 :=
    List.getElem?_append_left (by decide)
  rw [hEncryption, hIndex] at hByte
  cases hByte

/-- **No input of a primitive is ambiguous.** Seal contexts are prefix-free; the AAD determines
the stored prefix and the context; the info of a key determines what the key is for, and so
does the input of a MAC; and no key is one of an envelope and of an index. -/
theorem inputs_unambiguous (prim : Primitives) :
    -- What the primitives are asked for.
    (∀ root context version suiteId, deriveEncryptionKey prim root context version suiteId
      = okOr (prim.hkdf root.bytes.val hkdfSalt
          (encryptionKeyInfo root.id context version suiteId)) .internal) ∧
    (∀ normalized sealContext indexId bits key,
      deriveIndex prim normalized sealContext indexId bits key = (do
        ensure (normalized.length < 2 ^ 64) .invalidBlindIndex
        let indexKey ← okOr (prim.hkdf key.bytes.val hkdfSalt
          (indexKeyInfo key.id bits sealContext indexId)) .internal
        let digest ← okOr (prim.hmac indexKey
          (indexValueInput key.id bits sealContext indexId normalized)) .internal
        encodeIndex (indexHeader key.id bits) digest bits)) ∧
    (∀ id id' record record' x y,
      (SealContext.new prim id record).bytes ++ x = (SealContext.new prim id' record').bytes ++ y →
        id = id' ∧ record = record' ∧ x = y) ∧
    (∀ (stored stored' : Block (headerLen + nonceLen)) id id' record record',
      envelopeAad stored.val (SealContext.new prim id record).bytes
        = envelopeAad stored'.val (SealContext.new prim id' record').bytes →
        stored = stored' ∧ id = id' ∧ record = record') ∧
    (∀ keyId keyId' context context' version version' suiteId suiteId',
      encryptionKeyInfo keyId context version suiteId
        = encryptionKeyInfo keyId' context' version' suiteId' →
        version = version' ∧ suiteId = suiteId' ∧ keyId = keyId' ∧ context = context') ∧
    (∀ keyId keyId' bits bits' id id' record record' indexId indexId',
      indexKeyInfo keyId bits (SealContext.new prim id record).bytes indexId
        = indexKeyInfo keyId' bits' (SealContext.new prim id' record').bytes indexId' →
        keyId = keyId' ∧ bits = bits' ∧ id = id' ∧ record = record' ∧ indexId = indexId') ∧
    (∀ keyId keyId' bits bits' id id' record record' indexId indexId' normalized normalized',
      indexValueInput keyId bits (SealContext.new prim id record).bytes indexId normalized
        = indexValueInput keyId' bits' (SealContext.new prim id' record').bytes indexId'
          normalized' →
        keyId = keyId' ∧ bits = bits' ∧ id = id' ∧ record = record' ∧ indexId = indexId' ∧
          normalized = normalized') ∧
    ∀ keyId context version suiteId indexKeyId bits sealContext indexId,
      encryptionKeyInfo keyId context version suiteId
        ≠ indexKeyInfo indexKeyId bits sealContext indexId := by
  refine ⟨fun _ _ _ _ => rfl, fun _ _ _ _ _ => rfl, fun _ _ _ _ _ _ => contextBytes_append_inj,
    ?_, fun _ _ _ _ _ _ _ _ => encryptionKeyInfo_inj, fun _ _ _ _ _ _ _ _ _ _ => indexKeyInfo_inj,
    fun _ _ _ _ _ _ _ _ _ _ _ _ => indexValueInput_inj, encryptionKeyInfo_ne_indexKeyInfo⟩
  intro stored stored' id id' record record' h
  have hLen : stored.val.length = stored'.val.length := by
    rw [stored.length_val, stored'.length_val]
  obtain ⟨hStored, hContext⟩ := envelopeAad_inj hLen h
  obtain ⟨hId, hRecord⟩ := contextBytes_injective hContext
  exact ⟨Subtype.ext hStored, hId, hRecord⟩

end Cryptbox

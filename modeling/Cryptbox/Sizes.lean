import Mathlib.Order.Bounds.Basic
import Cryptbox.Vectors

/-!
# Stored sizes

The size arithmetic of `padding.rs` and of suite 1, as `docs/wire-format.md` states it: `E`
bytes of plaintext are padded to `P` bytes, and the envelope has 71 bytes more.

* `AeadPlaintext.new_length`: `P` is the padded length of the policy.
* `StoredSizes`: the law, the buckets that hide a length, the caps, and that what is written
  can be read.
-/

namespace Cryptbox

open Base Envelope

/-- The bytes an envelope adds to what it encrypts. -/
def overhead : Nat := headerLen + nonceLen + tagLen

/-! ## What is encrypted -/

namespace AeadPlaintext

variable {padding : Padding} {plaintext : Bytes}

theorem new_eq_error {f : Failure} :
    new padding plaintext = .error f ↔ padding.pad plaintext = .error f := by
  constructor
  · intro h
    rcases bind_eq_error.mp h with h | ⟨out, -, h⟩
    · exact h
    · cases h
  · intro h
    exact bind_eq_error.mpr (Or.inl h)

/-- **What is encrypted has the padded length**, of a plaintext that fits. -/
theorem new_length {aead : AeadPlaintext} (h : new padding plaintext = .ok aead) :
    padding.Fits plaintext.length ∧ aead.bytes.length = padding.paddedLen plaintext.length := by
  obtain ⟨out, hPad, h⟩ := bind_eq_ok.mp h
  cases hPadded : padding.isPadded with
  | false =>
    obtain rfl := Except.ok.inj ((Padding.pad_none hPadded).symm.trans hPad)
    obtain rfl := pure_eq_ok.mp h
    obtain ⟨policy, hValid⟩ := padding
    cases policy with
    | none => exact ⟨trivial, rfl⟩
    | block size => cases hPadded
    | length length => cases hPadded
  | true =>
    obtain ⟨hFits, -, rfl⟩ := (Padding.pad_eq_ok hPadded).mp hPad
    obtain rfl := pure_eq_ok.mp h
    have hMarker := Padding.lt_paddedLen hPadded hFits
    refine ⟨hFits, ?_⟩
    show (plaintext ++ paddingTail _).length = _
    rw [List.length_append, length_paddingTail]
    omega

theorem exists_new (hFits : padding.Fits plaintext.length)
    (hAlloc : padding.isPadded = true → padding.paddedLen plaintext.length ≤ isizeMax) :
    ∃ aead, new padding plaintext = .ok aead := by
  cases hPadded : padding.isPadded with
  | false => exact ⟨_, bind_eq_ok.mpr ⟨none, Padding.pad_none hPadded, rfl⟩⟩
  | true =>
    exact ⟨_, bind_eq_ok.mpr ⟨_, (Padding.pad_eq_ok hPadded).mpr ⟨hFits, hAlloc hPadded, rfl⟩,
      rfl⟩⟩

end AeadPlaintext

/-! ## What is stored -/

section

variable {prim : Primitives} {context : Context} {padding : Padding} {plaintext : Bytes}
  {keyring : EncryptionKeyring} {draw : Option Nonce} {bytes : Bytes}

theorem Envelope.seal_length
    (h : Envelope.seal prim context padding plaintext keyring draw = .ok bytes) :
    bytes.length = padding.paddedLen plaintext.length + overhead := by
  obtain ⟨_, aead, _, ciphertext, _, -, hNew, -, hEnc, -, rfl⟩ := seal_eq_ok.mp h
  have hLen : ciphertext.length = aead.bytes.length := prim.encryptBytes_length hEnc
  rw [Layout.length_bytes, hLen, (AeadPlaintext.new_length hNew).2]
  exact Nat.add_comm ..

/-- The header depends on the policy, the key and the context alone. -/
theorem Envelope.seal_header
    (h : Envelope.seal prim context padding plaintext keyring draw = .ok bytes) :
    bytes.take headerLen
      = envelopeHeader ⟨1⟩ padding.isPadded keyring.current.id context.fingerprint := by
  obtain ⟨_, aead, _, _, _, -, hNew, -, -, -, rfl⟩ := seal_eq_ok.mp h
  rw [Layout.bytes_eq_rawHeader, List.take_left' (length_rawHeader ..),
    ← (AeadPlaintext.new_eq_ok hNew).1]
  rfl

/-- What is written is within the length that the parser accepts. -/
theorem Envelope.parseSupported_seal
    (h : Envelope.seal prim context padding plaintext keyring draw = .ok bytes) :
    (∃ parsed, parseSupported bytes = .ok parsed) ∧ bytes.length ≤ maxMessageLen + overhead := by
  have hLength := Envelope.seal_length h
  obtain ⟨_, aead, _, ciphertext, _, -, hNew, -, hEnc, hLen, rfl⟩ := seal_eq_ok.mp h
  have hFits : ciphertext.length ≤ maxMessageLen := (prim.encryptBytes_length hEnc).trans_le hLen
  refine ⟨⟨_, parseSupported_bytes hFits⟩, ?_⟩
  rw [hLength, ← (AeadPlaintext.new_length hNew).2]
  exact Nat.add_le_add_right hLen _

/-- When the primitives do not fail and an envelope can be reserved, sealing fails for want of
room in the suite only. -/
theorem Envelope.seal_stored (hTotal : prim.Total) (hEncrypts : prim.Encrypts)
    {aead : AeadPlaintext} (hNew : AeadPlaintext.new padding plaintext = .ok aead)
    (hAlloc : aead.bytes.length + overhead ≤ isizeMax) (context : Context)
    (keyring : EncryptionKeyring) (nonce : Nonce) :
    (Envelope.seal prim context padding plaintext keyring (some nonce) = err .messageTooLong ↔
      maxMessageLen < aead.bytes.length) ∧
    (aead.bytes.length ≤ maxMessageLen → ∃ bytes,
      Envelope.seal prim context padding plaintext keyring (some nonce) = .ok bytes ∧
        bytes.length = aead.bytes.length + overhead) := by
  have hShort (hLen : aead.bytes.length ≤ maxMessageLen) : ∃ bytes,
      Envelope.seal prim context padding plaintext keyring (some nonce) = .ok bytes := by
    rw [seal_of_new hNew]
    exact exists_sealWithNonce hTotal hEncrypts hLen
  constructor
  · constructor
    · intro hErr
      apply Nat.lt_of_not_le
      intro hLen
      obtain ⟨bytes, hSeal⟩ := hShort hLen
      cases hErr.symm.trans hSeal
    · intro hLong
      rw [Nat.add_comm] at hAlloc
      rw [seal_of_new hNew]
      exact sealWithNonce_tooLong hTotal hAlloc hLong
  · intro hLen
    obtain ⟨bytes, hSeal⟩ := hShort hLen
    refine ⟨bytes, hSeal, ?_⟩
    rw [Envelope.seal_length hSeal, (AeadPlaintext.new_length hNew).2]

end

/-! ## The law -/

/-- Padding to blocks goes to the next multiple. -/
theorem isLeast_multiple {size len : Nat} (hSize : 0 < size) :
    IsLeast {p | size ∣ p ∧ len < p} (size * (len / size + 1)) := by
  refine ⟨⟨Nat.dvd_mul_right .., Nat.lt_mul_div_succ len hSize⟩, ?_⟩
  intro p hp
  obtain ⟨⟨blocks, rfl⟩, hLt⟩ := hp
  apply Nat.mul_le_mul_left
  exact Nat.div_lt_of_lt_mul hLt

/-- A cap admits the lengths below the last block that ends within it. -/
theorem multiple_le_iff {size len cap : Nat} (hSize : 0 < size) :
    size * (len / size + 1) ≤ cap ↔ size ≤ cap ∧ len ≤ size * (cap / size) - 1 := by
  have hBlocks : size * (len / size + 1) ≤ cap ↔ len < size * (cap / size) := by
    rw [Nat.mul_comm, ← Nat.le_div_iff_mul_le hSize, Nat.succ_le_iff, Nat.div_lt_iff_lt_mul hSize,
      Nat.mul_comm]
  rw [hBlocks]
  constructor
  · intro h
    have hOne : 0 < cap / size := Nat.pos_of_mul_pos_left (Nat.zero_lt_of_lt h)
    exact ⟨(Nat.div_pos_iff.mp hOne).2, by omega⟩
  · intro h
    obtain ⟨hCap, hLen⟩ := h
    have hOne : 0 < cap / size := Nat.div_pos hCap hSize
    have hPos : 0 < size * (cap / size) := Nat.mul_pos hSize hOne
    omega

/-- Two lengths that the policy is there to hide from each other. -/
def Padding.SameBucket (padding : Padding) (len len' : Nat) : Prop :=
  match padding.policy with
  | .none => len = len'
  | .block size => len / size.toNat = len' / size.toNat
  | .length length => len ≤ length.toNat ∧ len' ≤ length.toNat

theorem Padding.SameBucket.paddedLen {padding : Padding} {len len' : Nat}
    (h : padding.SameBucket len len') : padding.paddedLen len = padding.paddedLen len' := by
  obtain ⟨policy, hValid⟩ := padding
  cases policy with
  | none => exact h
  | block size => exact congrArg (fun blocks => size.toNat * (blocks + 1)) h
  | length length => rfl

/-- **The size law** of a policy, over every plaintext, context, keyring and nonce. -/
structure StoredSizes (prim : Primitives) (padding : Padding) : Prop where
  none : padding.policy = .none → ∀ plaintext, ∃ aead,
    AeadPlaintext.new padding plaintext = .ok aead ∧ aead.bytes.length = plaintext.length
  /-- The least multiple of the block size above the length, when such a buffer can exist. -/
  block : ∀ size, padding.policy = .block size → ∀ plaintext : Bytes, ∀ p ≤ isizeMax,
    IsLeast {p | size.toNat ∣ p ∧ plaintext.length < p} p →
      ∃ aead, AeadPlaintext.new padding plaintext = .ok aead ∧ aead.bytes.length = p
  length : ∀ length, padding.policy = .length length → ∀ plaintext,
    (AeadPlaintext.new padding plaintext = err .paddingOverflow ↔
      length.toNat < plaintext.length) ∧
    (length.toNat + 1 ≤ isizeMax → plaintext.length ≤ length.toNat →
      ∃ aead, AeadPlaintext.new padding plaintext = .ok aead ∧
        aead.bytes.length = length.toNat + 1)
  /-- The envelope has 71 bytes more, or the suite cannot encrypt so many. -/
  stored : ∀ plaintext aead, AeadPlaintext.new padding plaintext = .ok aead →
    aead.bytes.length + 71 ≤ isizeMax → ∀ context keyring nonce,
      (Envelope.seal prim context padding plaintext keyring (some nonce) = err .messageTooLong ↔
        274877906879 < aead.bytes.length) ∧
      (aead.bytes.length ≤ 274877906879 → ∃ bytes,
        Envelope.seal prim context padding plaintext keyring (some nonce) = .ok bytes ∧
          bytes.length = aead.bytes.length + 71)
  /-- Lengths in a bucket look alike: so do the headers, under one key and context. -/
  bucket : ∀ plaintext plaintext' : Bytes,
    padding.SameBucket plaintext.length plaintext'.length →
    ∀ context context' keyring keyring' draw draw' bytes bytes',
      Envelope.seal prim context padding plaintext keyring draw = .ok bytes →
      Envelope.seal prim context' padding plaintext' keyring' draw' = .ok bytes' →
        bytes.length = bytes'.length ∧
        (context = context' → keyring.current = keyring'.current →
          bytes.take headerLen = bytes'.take headerLen)
  blockCap : ∀ size, padding.policy = .block size → ∀ plaintext aead,
    AeadPlaintext.new padding plaintext = .ok aead → ∀ cap, aead.bytes.length ≤ cap ↔
      size.toNat ≤ cap ∧ plaintext.length ≤ size.toNat * (cap / size.toNat) - 1
  lengthCap : ∀ length, padding.policy = .length length → length.toNat + 1 ≤ isizeMax →
    ∀ plaintext cap,
      (∃ aead, AeadPlaintext.new padding plaintext = .ok aead ∧ aead.bytes.length ≤ cap) ↔
        plaintext.length ≤ length.toNat ∧ length.toNat + 1 ≤ cap
  /-- What is written is within the length that the parser accepts. -/
  readable : ∀ plaintext context keyring draw bytes,
    Envelope.seal prim context padding plaintext keyring draw = .ok bytes →
      (∃ parsed, parseSupported bytes = .ok parsed) ∧ bytes.length ≤ 274877906879 + 71

namespace AeadPlaintext

variable {padding : Padding} {plaintext : Bytes}

theorem new_block {size : UInt64} (hPolicy : padding.policy = .block size) {p : Nat}
    (hAlloc : p ≤ isizeMax) (hLeast : IsLeast {p | size.toNat ∣ p ∧ plaintext.length < p} p) :
    ∃ aead, new padding plaintext = .ok aead ∧ aead.bytes.length = p := by
  obtain ⟨policy, hValid⟩ := padding
  obtain rfl : policy = .block size := hPolicy
  have hFits : Padding.Fits ⟨.block size, hValid⟩ plaintext.length := trivial
  have hSize : 0 < size.toNat := Nat.lt_of_lt_of_le (by omega) hValid
  have hPadded : p = Padding.paddedLen ⟨.block size, hValid⟩ plaintext.length :=
    hLeast.unique (isLeast_multiple hSize)
  obtain ⟨aead, hNew⟩ := exists_new hFits fun _ => hPadded.symm.trans_le hAlloc
  exact ⟨aead, hNew, (new_length hNew).2.trans hPadded.symm⟩

theorem new_length_policy {length : UInt64} (hPolicy : padding.policy = .length length) :
    (new padding plaintext = err .paddingOverflow ↔ length.toNat < plaintext.length) ∧
      (length.toNat + 1 ≤ isizeMax → plaintext.length ≤ length.toNat →
        ∃ aead, new padding plaintext = .ok aead ∧ aead.bytes.length = length.toNat + 1) := by
  obtain ⟨policy, hValid⟩ := padding
  obtain rfl : policy = .length length := hPolicy
  constructor
  · rw [new_eq_error, Padding.pad_paddingOverflow_iff, ← Nat.not_le]
    rfl
  · intro hAlloc hFits
    have hFits : Padding.Fits ⟨.length length, hValid⟩ plaintext.length := hFits
    obtain ⟨aead, hNew⟩ := exists_new hFits fun _ => hAlloc
    exact ⟨aead, hNew, (new_length hNew).2⟩

theorem new_block_le_iff {size : UInt64} (hPolicy : padding.policy = .block size)
    {aead : AeadPlaintext} (hNew : new padding plaintext = .ok aead) (cap : Nat) :
    aead.bytes.length ≤ cap ↔
      size.toNat ≤ cap ∧ plaintext.length ≤ size.toNat * (cap / size.toNat) - 1 := by
  obtain ⟨policy, hValid⟩ := padding
  obtain rfl : policy = .block size := hPolicy
  rw [(new_length hNew).2]
  exact multiple_le_iff (Nat.lt_of_lt_of_le (by omega) hValid)

theorem new_length_le_iff {length : UInt64} (hPolicy : padding.policy = .length length)
    (hAlloc : length.toNat + 1 ≤ isizeMax) (cap : Nat) :
    (∃ aead, new padding plaintext = .ok aead ∧ aead.bytes.length ≤ cap) ↔
      plaintext.length ≤ length.toNat ∧ length.toNat + 1 ≤ cap := by
  constructor
  · intro h
    obtain ⟨aead, hNew, hCap⟩ := h
    obtain ⟨hFits, hLen⟩ := new_length hNew
    obtain ⟨policy, hValid⟩ := padding
    obtain rfl : policy = .length length := hPolicy
    exact ⟨hFits, hLen.symm.trans_le hCap⟩
  · intro h
    obtain ⟨aead, hNew, hLen⟩ := (new_length_policy hPolicy).2 hAlloc h.1
    exact ⟨aead, hNew, hLen.trans_le h.2⟩

end AeadPlaintext

/-- **Stored sizes follow the law**, whatever the policy. -/
theorem storedSizes {prim : Primitives} (hTotal : prim.Total) (hEncrypts : prim.Encrypts)
    (padding : Padding) : StoredSizes prim padding where
  none := by
    intro hPolicy plaintext
    obtain ⟨policy, hValid⟩ := padding
    obtain rfl : policy = .none := hPolicy
    exact ⟨.unpadded plaintext, rfl, rfl⟩
  block := fun size hPolicy plaintext p hAlloc hLeast =>
    AeadPlaintext.new_block hPolicy hAlloc hLeast
  length := fun length hPolicy plaintext => AeadPlaintext.new_length_policy hPolicy
  stored := fun plaintext aead hNew hAlloc context keyring nonce =>
    seal_stored hTotal hEncrypts hNew hAlloc context keyring nonce
  bucket := by
    intro plaintext plaintext' hBucket context context' keyring keyring' draw draw' bytes bytes'
      hSeal hSeal'
    constructor
    · rw [seal_length hSeal, seal_length hSeal', hBucket.paddedLen]
    · intro hContext hKey
      rw [seal_header hSeal, seal_header hSeal', hContext, hKey]
  blockCap := fun size hPolicy plaintext aead hNew cap =>
    AeadPlaintext.new_block_le_iff hPolicy hNew cap
  lengthCap := fun length hPolicy hAlloc plaintext cap =>
    AeadPlaintext.new_length_le_iff hPolicy hAlloc cap
  readable := fun plaintext context keyring draw bytes hSeal => parseSupported_seal hSeal

/-- 16 bytes take two blocks of 16. -/
theorem storedSizes_block16 :
    ∃ bytes, Envelope.seal Vectors.prim.completed ⟨[], .zero 8⟩ ⟨.block 16, by decide⟩
        (List.replicate 16 0x61) Vectors.encryptionKeyring (some Vectors.nonce) = .ok bytes ∧
      bytes.length = 103 := by
  have hSizes := storedSizes Vectors.total.completed Vectors.prim.completed_encrypts
    ⟨.block 16, by decide⟩
  have hLeast : IsLeast {p | 16 ∣ p ∧ (List.replicate 16 (0x61 : UInt8)).length < p} 32 :=
    isLeast_multiple (by decide)
  obtain ⟨aead, hNew, hLen⟩ := hSizes.block 16 rfl _ 32 (by decide) hLeast
  obtain ⟨bytes, hSeal, hBytes⟩ := (hSizes.stored _ aead hNew (by rw [hLen]; decide) ⟨[], .zero 8⟩
    Vectors.encryptionKeyring Vectors.nonce).2 (by omega)
  exact ⟨bytes, hSeal, by rw [hBytes, hLen]⟩

/-! ## Lengths near the word size -/

/-- Lengths that cannot be padded or sealed are reported by the two errors for them. A capacity
above `isize::MAX` panics, so that without a panic each buffer is requested within it. -/
structure ReportsSizes (prim : Primitives) (padding : Padding) (plaintext : Bytes) : Prop where
  newError : ∀ f, AeadPlaintext.new padding plaintext = .error f →
    f = .err .paddingOverflow ∨ f = .err .messageTooLong
  sealError : ∀ context keyring nonce f,
    Envelope.seal prim context padding plaintext keyring (some nonce) = .error f →
      f = .err .paddingOverflow ∨ f = .err .messageTooLong
  /-- The buffer of the AAD does not depend on the plaintext. -/
  aadLen : ∀ id record padded keyId nonce,
    (envelopeAad (storedHead padded keyId (SealContext.new prim id record).fingerprint nonce)
      (SealContext.new prim id record).bytes).length ≤ isizeMax
  tooLong : padding.Fits plaintext.length → maxMessageLen < padding.paddedLen plaintext.length →
    ∀ context keyring nonce,
      Envelope.seal prim context padding plaintext keyring (some nonce) = err .messageTooLong

section

variable {prim : Primitives} {padding : Padding} {plaintext : Bytes}

theorem length_contextBytes_le (id : SealId) (record : Option RecordValue) :
    (contextBytes id record).length ≤ 39 := by
  have hPart : ((record.map RecordValue.part).getD []).length ≤ 21 := by
    cases record with
    | none => exact Nat.zero_le _
    | some value => cases value <;> simp [RecordValue.part, RecordValue.bytes]
  unfold contextBytes
  rw [List.length_append, List.length_append, Block.length_val, length_be]
  omega

theorem length_envelopeAad_le (id : SealId) (record : Option RecordValue) (padded : Bool)
    (keyId : KeyId) (nonce : Nonce) :
    (envelopeAad (storedHead padded keyId (SealContext.new prim id record).fingerprint nonce)
      (SealContext.new prim id record).bytes).length ≤ isizeMax := by
  have hContext : (SealContext.new prim id record).bytes.length ≤ 39 :=
    length_contextBytes_le id record
  have hLabel : envelopeAadLabel.length = 25 := by decide
  have hHead : headerLen + nonceLen = 55 := rfl
  have hSize : 25 + 55 + 39 ≤ isizeMax := by decide
  rw [envelopeAad, List.length_append, List.length_append, length_storedHead]
  omega

theorem Envelope.seal_of_new_error {f : Failure} {context : Context} {keyring : EncryptionKeyring}
    {draw : Option Nonce} (h : AeadPlaintext.new padding plaintext = .error f) :
    Envelope.seal prim context padding plaintext keyring draw = .error f := by
  rw [Envelope.seal, h, error_bind]

/-- A padded length between `isize::MAX` and `usize::MAX` passes the checked arithmetic, and no
buffer of that length can be reserved. -/
theorem AeadPlaintext.new_panics (hPadded : padding.isPadded = true)
    (hFits : padding.Fits plaintext.length)
    (hUsize : padding.paddedLen plaintext.length ≤ usizeMax)
    (hIsize : isizeMax < padding.paddedLen plaintext.length) :
    AeadPlaintext.new padding plaintext = panics := by
  apply AeadPlaintext.new_eq_error.mpr
  rw [Padding.pad_reserves hPadded hFits hUsize, Padding.padToLength_of_lt hIsize, map_eq_error]

/-- Just below, the envelope cannot be reserved: its length is compared with the limit of the
suite only afterwards. -/
theorem Envelope.seal_panics {context : Context} {keyring : EncryptionKeyring} {nonce : Nonce}
    (hFits : padding.Fits plaintext.length)
    (hAlloc : padding.paddedLen plaintext.length ≤ isizeMax)
    (hOver : isizeMax < padding.paddedLen plaintext.length + overhead) :
    Envelope.seal prim context padding plaintext keyring (some nonce) = panics := by
  obtain ⟨aead, hNew⟩ := AeadPlaintext.exists_new hFits fun _ => hAlloc
  have hLen := (AeadPlaintext.new_length hNew).2
  have hOverhead : headerLen + nonceLen + tagLen = overhead := rfl
  have hSizes : isizeMax + overhead ≤ usizeMax := by decide
  rw [seal_of_new hNew, sealWithNonce_reserves (by omega), withCapacity_of_lt (by omega),
    error_bind]

theorem ReportsSizes.of_error {e : Error} (he : e = .paddingOverflow ∨ e = .messageTooLong)
    (hFits : padding.Fits plaintext.length → e = .messageTooLong)
    (hNew : AeadPlaintext.new padding plaintext = err e) : ReportsSizes prim padding plaintext where
  newError := by
    intro f hError
    cases hNew.symm.trans hError
    exact he.imp (congrArg Failure.err) (congrArg Failure.err)
  sealError := by
    intro context keyring nonce f hError
    cases (Envelope.seal_of_new_error hNew).symm.trans hError
    exact he.imp (congrArg Failure.err) (congrArg Failure.err)
  aadLen := length_envelopeAad_le
  tooLong := by
    intro hFit _ context keyring nonce
    rw [Envelope.seal_of_new_error hNew, hFits hFit]

theorem ReportsSizes.of_alloc (hTotal : prim.Total) (hEncrypts : prim.Encrypts)
    (hFits : padding.Fits plaintext.length)
    (hAlloc : padding.paddedLen plaintext.length + overhead ≤ isizeMax) :
    ReportsSizes prim padding plaintext := by
  obtain ⟨aead, hNew⟩ := AeadPlaintext.exists_new hFits fun _ =>
    (Nat.le_add_right _ overhead).trans hAlloc
  have hLen := (AeadPlaintext.new_length hNew).2
  rw [← hLen] at hAlloc
  refine ⟨?_, ?_, length_envelopeAad_le, ?_⟩
  · intro f hError
    cases hNew.symm.trans hError
  · intro context keyring nonce f hError
    obtain ⟨hLong, hShort⟩ := Envelope.seal_stored hTotal hEncrypts hNew hAlloc context
      keyring nonce
    rcases Nat.lt_or_ge maxMessageLen aead.bytes.length with h | h
    · cases (hLong.mpr h).symm.trans hError
      exact Or.inr rfl
    · obtain ⟨bytes, hSeal, -⟩ := hShort h
      cases hSeal.symm.trans hError
  · intro _ hOver context keyring nonce
    rw [← hLen] at hOver
    exact (Envelope.seal_stored hTotal hEncrypts hNew hAlloc ..).1.mpr hOver

/-- **What cannot be sealed is reported** unless its padded length, or that of its envelope, lies
between `isize::MAX` and `usize::MAX`. Requests up to `isize::MAX` are taken as granted. -/
theorem reportsSizes_iff (hTotal : prim.Total) (hEncrypts : prim.Encrypts)
    (hPadded : padding.isPadded = true) :
    ReportsSizes prim padding plaintext ↔
      ¬ padding.Fits plaintext.length ∨ usizeMax < padding.paddedLen plaintext.length ∨
        padding.paddedLen plaintext.length + 71 ≤ isizeMax := by
  constructor
  · intro h
    by_contra hNot
    obtain ⟨hFits, hUsize, hOver⟩ : padding.Fits plaintext.length ∧
        padding.paddedLen plaintext.length ≤ usizeMax ∧
        isizeMax < padding.paddedLen plaintext.length + 71 := by
      simpa only [not_or, not_not, Nat.not_lt, Nat.not_le] using hNot
    rcases Nat.lt_or_ge isizeMax (padding.paddedLen plaintext.length) with hIsize | hIsize
    · rcases h.newError _ (AeadPlaintext.new_panics hPadded hFits hUsize hIsize) with h | h
      · cases h
      · cases h
    · rcases h.sealError ⟨[], .zero 8⟩ Vectors.encryptionKeyring Vectors.nonce _
        (Envelope.seal_panics hFits hIsize hOver) with h | h
      · cases h
      · cases h
  · intro h
    by_cases hFits : padding.Fits plaintext.length
    swap
    · refine .of_error (Or.inl rfl) (fun hFit => absurd hFit hFits) ?_
      exact AeadPlaintext.new_eq_error.mpr (Padding.pad_not_fits hFits)
    rcases h with hNot | hUsize | hAlloc
    · exact absurd hFits hNot
    · refine .of_error (Or.inr rfl) (fun _ => rfl) ?_
      exact AeadPlaintext.new_eq_error.mpr (Padding.pad_overflow hPadded hFits hUsize)
    · exact .of_alloc hTotal hEncrypts hFits hAlloc

/-- A length of the padding that `Padding::length` accepts, and the capacity overflow. -/
theorem not_reportsSizes_length : ∃ padding, Padding.length 9223372036854775808 = .ok padding ∧
    AeadPlaintext.new padding [] = panics ∧
    ¬ ReportsSizes Vectors.prim.completed padding [] := by
  have hNew : AeadPlaintext.new ⟨.length 9223372036854775808, by decide⟩ [] = panics :=
    AeadPlaintext.new_panics rfl (Nat.zero_le _) (by decide) (by decide)
  refine ⟨⟨.length 9223372036854775808, by decide⟩, rfl, hNew, ?_⟩
  intro h
  rcases h.newError _ hNew with h | h
  · cases h
  · cases h

/-- Blocks of 16 bytes are far from the word size. -/
theorem reportsSizes_block16 :
    ReportsSizes Vectors.prim.completed ⟨.block 16, by decide⟩ (List.replicate 16 0x61) :=
  (reportsSizes_iff Vectors.total.completed Vectors.prim.completed_encrypts rfl).mpr
    (Or.inr (Or.inr (by decide)))

end

end Cryptbox

import Cryptbox.Migrate.Rewrite

/-!
# Histories of a value

A value is sealed and then rewritten any number of times: resealed with the same keys,
moved to other keys, or rewritten by a planner. Every step may come from a version of the
application with another padding policy, and use another keyring. What is stored at the end
still opens to the plaintext of the first step, because a reader takes the key from the ID
in the envelope and the padding from its flag.

* `Written`: what the last writer left, as a reader sees it.
* `Written.of_seal`, `Written.of_current`: the two ways to be the last writer.
* `History.round_trip`: every history reads as the value it started with.
-/

namespace Cryptbox

open Base Envelope

/-- The seal as a version of the application with another padding policy declares it. -/
def Seal.withPadding (F : Seal) (padding : Padding) : Seal := { F with padding }

/-- Where a value belongs: on its own, or in the record with an ID. -/
inductive Place where
  | standalone
  | inRecord (kind : RecordKind) (id : kind.Id)

namespace Place

def kind : Place → Option RecordKind
  | standalone => none
  | inRecord kind _ => some kind

def recordId : Place → Option RecordValue
  | standalone => none
  | inRecord kind id => some (kind.recordValue id)

/-- The context of a value of seal `F` at this place. -/
def context (place : Place) (prim : Primitives) (F : Seal) : SealContext :=
  .new prim F.id place.recordId

theorem kind_recordId (place : Place) : place.recordId.map RecordValue.kind = place.kind := by
  cases place with
  | standalone => rfl
  | inRecord kind id => exact congrArg some (kind.kind_recordValue id)

end Place

section

variable (prim : Primitives) {F : Seal}

/-- `Sealed::seal` or `Sealed::seal_in`. -/
def Sealed.sealAt (place : Place) (value : F.Value) (keys : EncryptionKeys) (draw : Option Nonce) :
    Result (Sealed F place.kind) :=
  match place with
  | .standalone => Sealed.seal prim value keys draw
  | .inRecord _ id => Sealed.sealIn prim value id keys draw

/-- `Sealed::open` or `Sealed::open_in`. -/
def Sealed.openAt (place : Place) (s : Sealed F place.kind) (keys : EncryptionKeys) :
    Result F.Value :=
  match place, s with
  | .standalone, s => s.open prim keys
  | .inRecord _ id, s => s.openIn prim id keys

end

/-- The bytes a row holds once a plan is carried out. -/
def RowOutcome.stored (outcome : RowOutcome) (bytes : Bytes) : Bytes :=
  (outcome.write.map RowWrite.ciphertext).getD bytes

/-- How `bytes` came to be stored for `value`; `padding` and `writer` are the policy and the
keyring of the last step. Every step reads with a keyring that maps the key ID the envelope
names to the key that wrote it. -/
inductive History (prim : Primitives) (F : Seal) (place : Place) (value : F.Value) :
    Padding → EncryptionKeyring → Bytes → Prop
  | sealed {padding : Padding} {keys : EncryptionKeys} {draw : Option Nonce}
      {s : Sealed (F.withPadding padding) place.kind}
      (hSeal : Sealed.sealAt prim (F := F.withPadding padding) place value keys draw = .ok s) :
      History prim F place value padding keys.encryptionKeyring s.asBytes
  | resealed {padding last : Padding} {writer : EncryptionKeyring} {bytes : Bytes}
      {keys : EncryptionKeys} {draw : Option Nonce} {s out : Sealed (F.withPadding padding) none}
      (before : History prim F place value last writer bytes) (hPlace : place = .standalone)
      (hBytes : Sealed.fromBytes bytes = .ok s)
      (hKey : keys.encryptionKeyring.get writer.current.id = some writer.current)
      (hReseal : s.reseal prim keys draw = .ok out) :
      History prim F place value padding keys.encryptionKeyring out.asBytes
  | resealedAcross {padding last : Padding} {writer : EncryptionKeyring} {bytes : Bytes}
      {fromKeys toKeys : EncryptionKeys} {draw : Option Nonce}
      {s out : Sealed (F.withPadding padding) none}
      (before : History prim F place value last writer bytes) (hPlace : place = .standalone)
      (hBytes : Sealed.fromBytes bytes = .ok s)
      (hKey : fromKeys.encryptionKeyring.get writer.current.id = some writer.current)
      (hReseal : s.resealAcross prim fromKeys toKeys draw = .ok out) :
      History prim F place value padding toKeys.encryptionKeyring out.asBytes
  | planned {padding last : Padding} {writer : EncryptionKeyring} {bytes : Bytes} {R : Type}
      {planner : RowPlanner prim (F.withPadding padding) R} {row : R} {indexes : List Bytes}
      {draw : Option Nonce} {outcome : RowOutcome}
      (before : History prim F place value last writer bytes)
      (hRow : planner.recordId row = place.recordId)
      (hKey : planner.keys.get writer.current.id = some writer.current)
      (hPlan : planner.planRow row bytes indexes draw = .ok outcome) :
      History prim F place value padding planner.keys (outcome.stored bytes)

/-- What the last writer left: `bytes` opens to `plaintext` for everyone who has the writer's
current key, and the writer itself has nothing to reseal. -/
structure Written (prim : Primitives) (context : SealContext) (padding : Padding)
    (writer : EncryptionKeyring) (plaintext bytes : Bytes) : Prop where
  opens : ∀ reader : EncryptionKeyring, reader.get writer.current.id = some writer.current →
    Bound.open prim context bytes reader = .ok plaintext
  current : Bound.needsReseal context.fingerprint padding bytes writer = .ok false

namespace Written

variable {prim : Primitives} {context : SealContext} {padding last : Padding}
  {writer keyring : EncryptionKeyring} {plaintext bytes : Bytes}

/-- Sealing leaves its own envelope. -/
theorem of_seal (hAead : prim.DecryptsEncrypted) {draw : Option Nonce}
    (h : Bound.seal prim context padding plaintext keyring draw = .ok bytes) :
    Written prim context padding keyring plaintext bytes :=
  ⟨fun _ hKey => Bound.open_seal hAead h hKey, Bound.needsReseal_seal h⟩

/-- Whoever finds nothing to reseal could have been the writer. -/
theorem of_current (h : Written prim context last writer plaintext bytes)
    (hKey : keyring.get writer.current.id = some writer.current)
    (hCurrent : Bound.needsReseal context.fingerprint padding bytes keyring = .ok false) :
    Written prim context padding keyring plaintext bytes := by
  obtain ⟨l, -, rfl, -, hWriter, -⟩ := Bound.needsReseal_eq_false.mp h.current
  obtain ⟨l', -, hBytes, -, hKeyring, -⟩ := Bound.needsReseal_eq_false.mp hCurrent
  obtain rfl := Layout.bytes_injective hBytes
  -- The envelope names one key ID, which is the current one of both keyrings.
  have hSame : keyring.current = writer.current := by
    rw [← hWriter, hKeyring, Ring.get_current] at hKey
    exact Option.some.inj hKey
  refine ⟨fun reader hReader => h.opens reader ?_, hCurrent⟩
  rwa [hSame] at hReader

end Written

/-! ## The steps keep it -/

section

variable {prim : Primitives} {F : Seal} {place : Place} {padding last : Padding}
  {writer : EncryptionKeyring} {plaintext bytes : Bytes}

theorem Sealed.sealAt_eq_ok {value : F.Value} {keys : EncryptionKeys} {draw : Option Nonce}
    {s : Sealed F place.kind} :
    sealAt prim place value keys draw = .ok s ↔ ∃ encoded, F.codec.encode value = .ok encoded ∧
      Bound.seal prim (place.context prim F) F.padding encoded.val keys.encryptionKeyring draw
        = .ok s.asBytes := by
  cases place with
  | standalone => exact sealUnder_eq_ok
  | inRecord kind id => exact sealUnder_eq_ok

theorem Sealed.openAt_eq (s : Sealed F place.kind) (keys : EncryptionKeys) :
    s.openAt prim place keys = s.openUnder prim (place.context prim F) keys := by
  cases place with
  | standalone => rfl
  | inRecord kind id => rfl

/-- Resealing rewrites the plaintext that the last writer left. -/
theorem Written.resealUnder (hAead : prim.DecryptsEncrypted)
    (h : Written prim (place.context prim F) last writer plaintext bytes)
    {C : Option RecordKind} {s out : Sealed (F.withPadding padding) C}
    {fromKeys toKeys : EncryptionKeys} {draw : Option Nonce}
    (hBytes : Sealed.fromBytes bytes = .ok s)
    (hKey : fromKeys.encryptionKeyring.get writer.current.id = some writer.current)
    (hReseal : s.resealUnder prim (place.context prim F) fromKeys toKeys draw = .ok out) :
    Written prim (place.context prim F) padding toKeys.encryptionKeyring plaintext out.asBytes := by
  obtain ⟨opened, hOpen, hSeal⟩ := Sealed.resealUnder_eq_ok.mp hReseal
  rw [Sealed.fromBytes_eq_ok.mp hBytes, h.opens _ hKey] at hOpen
  obtain rfl := Except.ok.inj hOpen
  exact of_seal hAead hSeal

/-- A planner rewrites it too, or leaves it alone. -/
theorem Written.planRow (hAead : prim.DecryptsEncrypted)
    (h : Written prim (place.context prim F) last writer plaintext bytes) {R : Type}
    {planner : RowPlanner prim (F.withPadding padding) R} {row : R} {indexes : List Bytes}
    {draw : Option Nonce} {outcome : RowOutcome} (hRow : planner.recordId row = place.recordId)
    (hKey : planner.keys.get writer.current.id = some writer.current)
    (hPlan : planner.planRow row bytes indexes draw = .ok outcome) :
    Written prim (place.context prim F) padding planner.keys plaintext (outcome.stored bytes) := by
  have hContext : planner.context row = place.context prim F :=
    congrArg (SealContext.new prim F.id) hRow
  have hOpens := h.opens planner.keys hKey
  obtain ⟨-, ⟨rfl, hCurrent⟩ | ⟨write, plaintext', rfl, hRewrite⟩ |
    ⟨write, recovered, value, encoded, rfl, hRewrite⟩⟩ := RowPlanner.planRow_cases hPlan
  · obtain ⟨-, hReseal, -⟩ := RowPlanner.classifyRow_eq_current.mp hCurrent
    rw [hContext] at hReseal
    exact h.of_current hKey hReseal
  · have hOpened := hRewrite.opens
    have hCiphertext := hRewrite.ciphertext
    rw [hContext] at hOpened hCiphertext
    obtain rfl := Except.ok.inj (hOpens.symm.trans hOpened)
    rcases hCiphertext with ⟨-, hSeal⟩ | ⟨hReseal, hKept⟩
    · exact of_seal hAead hSeal
    · show Written prim _ padding planner.keys plaintext write.ciphertext
      rw [hKept]
      exact h.of_current hKey hReseal
  · have hLegacy := hRewrite.legacy
    rw [Bound.isCiphertext_of_open hOpens] at hLegacy
    cases hLegacy

/-- Every history leaves an envelope of the value's encoding. -/
theorem History.written (hAead : prim.DecryptsEncrypted) {value : F.Value}
    (h : History prim F place value padding writer bytes) :
    ∃ encoded, F.codec.encode value = .ok encoded ∧
      Written prim (place.context prim F) padding writer encoded.val bytes := by
  induction h with
  | sealed hSeal =>
    obtain ⟨encoded, hEncode, hSeal⟩ := Sealed.sealAt_eq_ok.mp hSeal
    exact ⟨encoded, hEncode, .of_seal hAead hSeal⟩
  | resealed before hPlace hBytes hKey hReseal ih =>
    obtain ⟨encoded, hEncode, hWritten⟩ := ih
    subst hPlace
    exact ⟨encoded, hEncode, hWritten.resealUnder hAead hBytes hKey hReseal⟩
  | resealedAcross before hPlace hBytes hKey hReseal ih =>
    obtain ⟨encoded, hEncode, hWritten⟩ := ih
    subst hPlace
    exact ⟨encoded, hEncode, hWritten.resealUnder hAead hBytes hKey hReseal⟩
  | planned before hRow hKey hPlan ih =>
    obtain ⟨encoded, hEncode, hWritten⟩ := ih
    exact ⟨encoded, hEncode, hWritten.planRow hAead hRow hKey hPlan⟩

/-! ## What a reader sees -/

/-- What the last writer left is a typed envelope of any version of the seal. -/
theorem Written.fromBytes (h : Written prim (place.context prim F) last writer plaintext bytes)
    (policy : Padding) :
    ∃ s : Sealed (F.withPadding policy) place.kind, Sealed.fromBytes bytes = .ok s ∧
      s.keyId = .ok writer.current.id := by
  obtain ⟨l, hFits, rfl, -, hKeyId, -⟩ := Bound.needsReseal_eq_false.mp h.current
  refine ⟨⟨l.bytes, _, inspectCiphertext_bytes hFits⟩, Sealed.fromBytes_eq_ok.mpr rfl, ?_⟩
  show validatedKeyId l.bytes = _
  rw [← hKeyId, Layout.bytes_eq_rawHeader, validatedKeyId_rawHeader]

/-- **Every history reads as the value it started with**, for every reader with the last
writer's key and under every reader's policy; the last writer's key is the one named, and
nothing is left to reseal. -/
theorem History.round_trip (hAead : prim.DecryptsEncrypted) {value : F.Value}
    (h : History prim F place value padding writer bytes) :
    ∃ encoded, F.codec.encode value = .ok encoded ∧
      (∀ (reader : EncryptionKeys) (policy : Padding),
        reader.encryptionKeyring.get writer.current.id = some writer.current →
          Bound.open prim (place.context prim F) bytes reader.encryptionKeyring
            = .ok encoded.val ∧
          ∃ s : Sealed (F.withPadding policy) place.kind, Sealed.fromBytes bytes = .ok s ∧
            s.openAt prim place reader = mapErr (F.codec.decode encoded.val) .codecFailed) ∧
      ∃ s : Sealed (F.withPadding padding) place.kind, Sealed.fromBytes bytes = .ok s ∧
        s.keyId = .ok writer.current.id ∧ s.needsReseal prim (.keyring writer) = .ok false := by
  obtain ⟨encoded, hEncode, hWritten⟩ := h.written hAead
  refine ⟨encoded, hEncode, ?_, ?_⟩
  · intro reader policy hKey
    have hOpen := hWritten.opens _ hKey
    obtain ⟨s, hBytes, -⟩ := hWritten.fromBytes policy
    refine ⟨hOpen, s, hBytes, ?_⟩
    rw [Sealed.openAt_eq, Sealed.openUnder, Sealed.fromBytes_eq_ok.mp hBytes]
    exact congrArg (· >>= _) hOpen
  · obtain ⟨s, hBytes, hKeyId⟩ := hWritten.fromBytes padding
    refine ⟨s, hBytes, hKeyId, ?_⟩
    have hFingerprint : fingerprint prim place.kind = (place.context prim F).fingerprint :=
      congrArg (fingerprint prim) place.kind_recordId.symm
    rw [Sealed.needsReseal, Sealed.fromBytes_eq_ok.mp hBytes, hFingerprint]
    exact hWritten.current

end

namespace Vectors

/-- The envelope of the plaintext under the key of the earlier generation. -/
def previousHead : Bytes :=
  be 31 0x4342580002010099999999888847778666555555555555502de8fcfb838c80 ++ nonce.val

def previousEnvelope : Bytes :=
  previousHead ++ be 31 0x919ed1dbb2bf15eaa2afd6486fb1637c1103da01fb1bbb4651d57e95492a83

def paddedHead : Bytes :=
  be 31 0x4342580002010111111111222243338444555555555555502de8fcfb838c80 ++ nonce.val

/-- `PADDED`. -/
def paddedEnvelope : Bytes :=
  paddedHead ++ be 32 0x3a8e058803722f56b0ffc9ecbbb7e3c5bd94437a46143e4373c11bdfdfbc47b4

/-- Padding to blocks of 16 bytes. -/
def block16 : Padding := ⟨.block 16, by decide⟩

/-- The known answers of a rotation that also turns padding on. -/
def knownRotation : KnownAnswers where
  hashes := known.hashes
  macs := known.macs
  aead := [{
    key := (previousKey.bytes.val, hkdfSalt,
      encryptionKeyLabel ++ [2, 1] ++ previousKey.id.asBytes.val ++ standaloneContext)
    nonce := nonce
    aad := envelopeAadLabel ++ previousHead ++ standaloneContext
    plaintext := plaintext.val
    ciphertext := ⟨be 15 0x919ed1dbb2bf15eaa2afd6486fb163, rfl⟩
    tag := beBlock 16 0x7c1103da01fb1bbb4651d57e95492a83 }, {
    key := operationalKey standaloneContext
    nonce := nonce
    aad := envelopeAadLabel ++ paddedHead ++ standaloneContext
    plaintext := plaintext.val ++ [0x80]
    ciphertext := ⟨be 16 0x3a8e058803722f56b0ffc9ecbbb7e3c5, rfl⟩
    tag := beBlock 16 0xbd94437a46143e4373c11bdfdfbc47b4 }]
  unambiguous := by decide

def rotationPrim : Primitives := .answering knownRotation

end Vectors

/-- A value sealed unpadded before a rotation and resealed padded after it. -/
theorem History.round_trip_vector :
    Bound.open Vectors.rotationPrim (Place.standalone.context Vectors.rotationPrim
      Vectors.vectorSeal) Vectors.paddedEnvelope Vectors.encryptionKeyring
        = .ok Vectors.plaintext.val := by
  let context : SealContext := .standalone Vectors.rotationPrim Vectors.vectorSeal
  have hSeal : Bound.seal Vectors.rotationPrim context .none Vectors.plaintext.val
      (.single Vectors.previousKey) (some Vectors.nonce) = .ok Vectors.previousEnvelope := by
    decide +kernel
  have hOpen : Bound.open Vectors.rotationPrim context Vectors.previousEnvelope
      Vectors.rotatedKeyring = .ok Vectors.plaintext.val := by decide +kernel
  have hReseal : Bound.seal Vectors.rotationPrim context Vectors.block16 Vectors.plaintext.val
      Vectors.rotatedKeyring (some Vectors.nonce) = .ok Vectors.paddedEnvelope := by
    decide +kernel
  let first : Sealed (Vectors.vectorSeal.withPadding .none) none :=
    ⟨Vectors.previousEnvelope, inspectCiphertext_seal hSeal⟩
  let before : Sealed (Vectors.vectorSeal.withPadding Vectors.block16) none :=
    ⟨Vectors.previousEnvelope, inspectCiphertext_seal hSeal⟩
  let after : Sealed (Vectors.vectorSeal.withPadding Vectors.block16) none :=
    ⟨Vectors.paddedEnvelope, inspectCiphertext_seal hReseal⟩
  have hFirst : Sealed.sealAt Vectors.rotationPrim .standalone Vectors.plaintext
      (.keyring (.single Vectors.previousKey)) (some Vectors.nonce) = .ok first :=
    Sealed.sealUnder_eq_ok.mpr ⟨Vectors.plaintext, rfl, hSeal⟩
  have hAfter : before.reseal Vectors.rotationPrim (.keyring Vectors.rotatedKeyring)
      (some Vectors.nonce) = .ok after :=
    Sealed.resealUnder_eq_ok.mpr ⟨Vectors.plaintext.val, hOpen, hReseal⟩
  have hSealed := History.sealed (F := Vectors.vectorSeal) hFirst
  have hBytes : Sealed.fromBytes first.asBytes = .ok before := Sealed.fromBytes_eq_ok.mpr rfl
  have hKey : (EncryptionKeys.keyring Vectors.rotatedKeyring).encryptionKeyring.get
      Vectors.previousKey.id = some Vectors.previousKey := by decide +kernel
  have hHistory := History.resealed hSealed rfl hBytes hKey hAfter
  obtain ⟨encoded, hEncode, hReader, -⟩ :=
    History.round_trip (KnownAnswers.decryptsEncrypted Vectors.knownRotation) hHistory
  cases hEncode
  exact (hReader (.keyring Vectors.encryptionKeyring) .none (by decide +kernel)).1

end Cryptbox

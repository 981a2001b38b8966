import Cryptbox.Bound

/-!
# Seals and sealed values

`codec.rs`, `seal.rs` and `value.rs`. A seal names an identity, a padding policy, a value
type and a codec. `Sealed F C` is an envelope for a value of seal `F` in a context of kind
`C`: `none` for a standalone value, or the kind of record ID of a record's field. Every
`Sealed` carries that its bytes parse, so its constructors prove it once.

* `Sealed.sealUnder_eq_ok`, `Sealed.openUnder_eq_ok`: sealing and opening are the codec
  over the bound layer.
* `Sealed.openUnder_sealUnder`: a value opens as itself under the writer's context and key.
-/

namespace Cryptbox

open Base Envelope

/-- Encodes and decodes typed values independently from encryption. -/
structure Codec (Value : Type) where
  encode : Value → Except CodecError Vec
  decode : Bytes → Except CodecError Value

/-- Decoding an encoding gives the value back. -/
def Codec.RoundTrips {Value : Type} (codec : Codec Value) : Prop :=
  ∀ value plaintext, codec.encode value = .ok plaintext →
    codec.decode plaintext.val = .ok value

/-- `Raw`: a byte vector without transformation. -/
def Codec.raw : Codec Vec where
  encode value := .ok value
  decode bytes := if h : bytes.length ≤ isizeMax then .ok ⟨bytes, h⟩ else .error ⟨.decoding⟩

theorem Codec.raw_roundTrips : Codec.raw.RoundTrips := by
  rintro value _ ⟨⟩
  exact dif_pos value.property

/-- How values are sealed: their identity, padding, value type and codec. -/
structure Seal where
  id : SealId
  padding : Padding
  Value : Type
  codec : Codec Value

/-- `SealContext::standalone`. -/
def SealContext.standalone (prim : Primitives) (F : Seal) : SealContext := sealId prim F.id

/-- `SealContext::of`: the context of a value of seal `F` in a record. -/
def SealContext.of (prim : Primitives) (F : Seal) {kind : RecordKind} (id : kind.Id) :
    SealContext :=
  new prim F.id (some (kind.recordValue id))

/-- A typed envelope that passed structural validation. -/
structure Sealed (F : Seal) (C : Option RecordKind) where
  asBytes : Bytes
  parses : ∃ info, inspectCiphertext asBytes = .ok info
  deriving DecidableEq

/-- Wraps bytes that passed inspection. -/
def Sealed.inspected {F : Seal} {C : Option RecordKind} (bytes : Bytes)
    (info : { info // inspectCiphertext bytes = .ok info }) : Sealed F C :=
  ⟨bytes, info.val, info.property⟩

theorem inspectCiphertext_seal {prim : Primitives} {context : SealContext} {padding : Padding}
    {plaintext bytes : Bytes} {keyring : EncryptionKeyring} {draw : Option Nonce}
    (h : Bound.seal prim context padding plaintext keyring draw = .ok bytes) :
    ∃ info, inspectCiphertext bytes = .ok info :=
  ⟨_, Bound.inspect_seal h⟩

section

variable (prim : Primitives) {F : Seal} {C : Option RecordKind}

/-- Validates and wraps a binary envelope. -/
def Sealed.fromBytes (bytes : Bytes) : Result (Sealed F C) := do
  let info ← attach (inspectCiphertext bytes)
  return inspected bytes info

/-- The key generation named by the envelope, unauthenticated. -/
def Sealed.keyId (s : Sealed F C) : Result KeyId := validatedKeyId s.asBytes

def Sealed.sealUnder (value : F.Value) (context : SealContext) (keys : EncryptionKeys)
    (draw : Option Nonce) : Result (Sealed F C) := do
  let plaintext ← mapErr (F.codec.encode value) .codecFailed
  let sealed ← attach
    (Bound.seal prim context F.padding plaintext.val keys.encryptionKeyring draw)
  return ⟨sealed.val, inspectCiphertext_seal sealed.property⟩

def Sealed.openUnder (s : Sealed F C) (context : SealContext) (keys : EncryptionKeys) :
    Result F.Value := do
  let plaintext ← Bound.open prim context s.asBytes keys.encryptionKeyring
  mapErr (F.codec.decode plaintext) .codecFailed

def Sealed.resealUnder (s : Sealed F C) (context : SealContext) (fromKeys toKeys : EncryptionKeys)
    (draw : Option Nonce) : Result (Sealed F C) := do
  let out ← attach (Bound.reseal prim (context, fromKeys.encryptionKeyring)
    (context, toKeys.encryptionKeyring) F.padding s.asBytes draw)
  return ⟨out.val.2, inspectCiphertext_seal (Bound.reseal_eq_ok.mp out.property).2⟩

/-- Whether this envelope differs from what `F` currently writes. -/
def Sealed.needsReseal (s : Sealed F C) (keys : EncryptionKeys) : Result Bool :=
  Bound.needsReseal (fingerprint prim C) F.padding s.asBytes keys.encryptionKeyring

/-! ## Standalone values -/

def Sealed.seal (value : F.Value) (keys : EncryptionKeys) (draw : Option Nonce) :
    Result (Sealed F none) :=
  sealUnder prim value (.standalone prim F) keys draw

def Sealed.open (s : Sealed F none) (keys : EncryptionKeys) : Result F.Value :=
  s.openUnder prim (.standalone prim F) keys

/-- Opens this value with `fromKeys` and reseals it with `toKeys`. -/
def Sealed.resealAcross (s : Sealed F none) (fromKeys toKeys : EncryptionKeys)
    (draw : Option Nonce) : Result (Sealed F none) :=
  s.resealUnder prim (.standalone prim F) fromKeys toKeys draw

def Sealed.reseal (s : Sealed F none) (keys : EncryptionKeys) (draw : Option Nonce) :
    Result (Sealed F none) :=
  s.resealAcross prim keys keys draw

/-! ## Values of a record -/

variable {kind : RecordKind}

def Sealed.sealIn (value : F.Value) (context : kind.Id) (keys : EncryptionKeys)
    (draw : Option Nonce) : Result (Sealed F (some kind)) :=
  sealUnder prim value (.of prim F context) keys draw

def Sealed.openIn (s : Sealed F (some kind)) (context : kind.Id) (keys : EncryptionKeys) :
    Result F.Value :=
  s.openUnder prim (.of prim F context) keys

end

namespace Sealed

variable {prim : Primitives} {F : Seal} {C : Option RecordKind} {context : SealContext}
  {keys : EncryptionKeys} {draw : Option Nonce}

/-! ## What the operations do -/

theorem ext_bytes {a b : Sealed F C} (h : a.asBytes = b.asBytes) : a = b := by
  cases a
  cases b
  cases h
  rfl

theorem fromBytes_eq_ok {bytes : Bytes} {s : Sealed F C} :
    fromBytes bytes = .ok s ↔ s.asBytes = bytes := by
  unfold fromBytes
  rw [bind_eq_ok]
  constructor
  · intro h
    obtain ⟨_, -, h⟩ := h
    cases pure_eq_ok.mp h
    rfl
  · rintro rfl
    obtain ⟨info, hInfo⟩ := s.parses
    exact ⟨⟨info, hInfo⟩, attach_eq_ok.mpr hInfo, rfl⟩

theorem fromBytes_eq_error {bytes : Bytes} {f : Failure} :
    (fromBytes bytes : Result (Sealed F C)) = .error f ↔ parseSupported bytes = .error f := by
  unfold fromBytes
  rw [bind_eq_error, attach_eq_error]
  constructor
  · intro h
    rcases h with h | ⟨_, -, h⟩
    · exact map_eq_error.mp h
    · cases h
  · exact fun h => Or.inl (map_eq_error.mpr h)

/-- Every typed envelope is a layout. -/
theorem exists_layout (s : Sealed F C) : ∃ l, Supported l ∧ s.asBytes = l.bytes := by
  obtain ⟨info, hInfo⟩ := s.parses
  obtain ⟨parsed, hParse, -⟩ := map_eq_ok.mp hInfo
  obtain ⟨l, hFits, hBytes, -⟩ := parseSupported_eq_ok.mp hParse
  exact ⟨l, hFits, hBytes⟩

/-- The key ID that is read at its offset is the one that parsing finds. -/
theorem validatedKeyId_of_inspect {bytes : Bytes} {info : CiphertextInfo}
    (h : inspectCiphertext bytes = .ok info) : validatedKeyId bytes = .ok info.keyId := by
  obtain ⟨l, -, rfl, rfl⟩ := inspectCiphertext_eq_ok.mp h
  rw [Layout.bytes_eq_rawHeader]
  exact validatedKeyId_rawHeader ..

theorem keyId_eq_ok (s : Sealed F C) :
    ∃ info, inspectCiphertext s.asBytes = .ok info ∧ s.keyId = .ok info.keyId := by
  obtain ⟨info, hInfo⟩ := s.parses
  exact ⟨info, hInfo, validatedKeyId_of_inspect hInfo⟩

theorem sealUnder_eq_ok {value : F.Value} {s : Sealed F C} :
    sealUnder prim value context keys draw = .ok s ↔
      ∃ plaintext, F.codec.encode value = .ok plaintext ∧
        Bound.seal prim context F.padding plaintext.val keys.encryptionKeyring draw
          = .ok s.asBytes := by
  unfold sealUnder
  simp only [bind_eq_ok, mapErr_eq_ok, attach_eq_ok, pure_eq_ok]
  constructor
  · intro h
    obtain ⟨plaintext, hEncode, sealed, hSeal, rfl⟩ := h
    exact ⟨plaintext, hEncode, hSeal⟩
  · intro h
    obtain ⟨plaintext, hEncode, hSeal⟩ := h
    exact ⟨plaintext, hEncode, ⟨s.asBytes, hSeal⟩, hSeal, rfl⟩

theorem openUnder_eq_ok {s : Sealed F C} {value : F.Value} :
    s.openUnder prim context keys = .ok value ↔
      ∃ plaintext, Bound.open prim context s.asBytes keys.encryptionKeyring = .ok plaintext ∧
        F.codec.decode plaintext = .ok value := by
  unfold openUnder
  simp only [bind_eq_ok, mapErr_eq_ok]

theorem resealUnder_eq_ok {s out : Sealed F C} {fromKeys toKeys : EncryptionKeys} :
    s.resealUnder prim context fromKeys toKeys draw = .ok out ↔
      ∃ plaintext, Bound.open prim context s.asBytes fromKeys.encryptionKeyring = .ok plaintext ∧
        Bound.seal prim context F.padding plaintext toKeys.encryptionKeyring draw
          = .ok out.asBytes := by
  unfold resealUnder
  simp only [bind_eq_ok, attach_eq_ok, pure_eq_ok]
  constructor
  · intro h
    obtain ⟨⟨⟨plaintext, bytes⟩, hReseal⟩, -, rfl⟩ := h
    exact ⟨plaintext, Bound.reseal_eq_ok.mp hReseal⟩
  · intro h
    obtain ⟨plaintext, hOpen, hSeal⟩ := h
    have hReseal : Bound.reseal prim (context, fromKeys.encryptionKeyring)
        (context, toKeys.encryptionKeyring) F.padding s.asBytes draw
          = .ok (plaintext, out.asBytes) := Bound.reseal_eq_ok.mpr ⟨hOpen, hSeal⟩
    exact ⟨⟨_, hReseal⟩, hReseal, rfl⟩

/-- A value opens as itself under the writer's context, with keys that map the writer's
key ID to the writer's key. -/
theorem openUnder_sealUnder (hAead : prim.DecryptsEncrypted) (hCodec : F.codec.RoundTrips)
    {reader : EncryptionKeys} {value : F.Value} {s : Sealed F C}
    (h : sealUnder prim value context keys draw = .ok s)
    (hKey : reader.encryptionKeyring.get keys.encryptionKeyring.current.id
      = some keys.encryptionKeyring.current) :
    s.openUnder prim context reader = .ok value := by
  obtain ⟨plaintext, hEncode, hSeal⟩ := sealUnder_eq_ok.mp h
  exact openUnder_eq_ok.mpr ⟨plaintext.val, Bound.open_seal hAead hSeal hKey,
    hCodec _ _ hEncode⟩

/-! ## Stored bytes -/

/-- A header of suite 1 with a payload of its size is a layout. -/
theorem layout_of_header (padded : Bool) (keyId : KeyId) (fingerprint : Block 8) {payload : Bytes}
    (hMin : nonceLen + tagLen ≤ payload.length)
    (hMax : payload.length ≤ nonceLen + tagLen + maxMessageLen) :
    ∃ l, Supported l ∧ envelopeHeader ⟨1⟩ padded keyId fingerprint ++ payload = l.bytes ∧
      l.padded = padded ∧ l.keyId = keyId ∧ l.fingerprint = fingerprint := by
  obtain ⟨l, hBytes, hParsed, hPayload⟩ :=
    Layout.exists_layout keyId fingerprint (flags_writer padded) hMin
  refine ⟨l, ?_, hBytes, ?_, ?_, ?_⟩
  · unfold Supported
    omega
  · rw [← l.parsed_padded, ← hParsed]
    cases padded <;> rfl
  · rw [← l.parsed_keyId, ← hParsed]
    rfl
  · rw [← l.parsed_contextFingerprint, ← hParsed]
    rfl

/-- **The parser accepts exactly its grammar.** Accepted bytes are a header of suite 1 and a
payload of its size, in one way; any others fail with the error of the first check that they
do not pass, and none of them panics. A typed value accepts what inspection accepts. -/
theorem inspectCiphertext_exact (bytes : Bytes) :
    (∀ info, inspectCiphertext bytes = .ok info ↔
      ∃ padded keyId fingerprint payload,
        bytes = envelopeHeader ⟨1⟩ padded keyId fingerprint ++ payload ∧
        40 ≤ payload.length ∧ payload.length ≤ 40 + 274877906879 ∧
        info = ⟨2, ⟨1⟩, padded, keyId, fingerprint⟩) ∧
    (∀ padded padded' keyId keyId' fingerprint fingerprint' payload payload',
      bytes = envelopeHeader ⟨1⟩ padded keyId fingerprint ++ payload →
      bytes = envelopeHeader ⟨1⟩ padded' keyId' fingerprint' ++ payload' →
        padded = padded' ∧ keyId = keyId' ∧ fingerprint = fingerprint' ∧ payload = payload') ∧
    (∀ f, inspectCiphertext bytes = .error f ↔ ∃ e, Rejected bytes e ∧ f = .err e) ∧
    (inspectCiphertext bytes = err .notCiphertext ↔ isCiphertext bytes = false) ∧
    inspectCiphertext bytes ≠ panics ∧
    ∀ (F : Seal) (C : Option RecordKind),
      (∀ s : Sealed F C, fromBytes bytes = .ok s ↔
        s.asBytes = bytes ∧ ∃ info, inspectCiphertext bytes = .ok info ∧ s.keyId = .ok info.keyId) ∧
      ∀ f, (fromBytes bytes : Result (Sealed F C)) = .error f ↔
        inspectCiphertext bytes = .error f := by
  have hErrors (f : Failure) :
      inspectCiphertext bytes = .error f ↔ ∃ e, Rejected bytes e ∧ f = .err e := by
    constructor
    · intro h
      rcases layout_or_rejected bytes with ⟨l, hFits, rfl⟩ | ⟨e, hRejected⟩
      · cases h.symm.trans (inspectCiphertext_bytes hFits)
      · have hErr := map_eq_error.mp h
        exact ⟨e, hRejected, Except.error.inj (hErr.symm.trans (parseSupported_rejected hRejected))⟩
    · intro h
      obtain ⟨e, hRejected, rfl⟩ := h
      exact map_eq_error.mpr (parseSupported_rejected hRejected)
  refine ⟨?_, ?_, hErrors, ?_, ?_, ?_⟩
  · intro info
    refine inspectCiphertext_eq_ok.trans ?_
    constructor
    · intro h
      obtain ⟨l, hFits, rfl, rfl⟩ := h
      have hLen := l.length_payload
      exact ⟨l.padded, l.keyId, l.fingerprint, _, l.bytes_eq_rawHeader,
        hLen ▸ Nat.le_add_right .., hLen ▸ Nat.add_le_add_left hFits _, l.parsed_info⟩
    · intro h
      obtain ⟨padded, keyId, fingerprint, payload, rfl, hMin, hMax, rfl⟩ := h
      obtain ⟨l, hFits, hBytes, rfl, rfl, rfl⟩ := layout_of_header padded keyId fingerprint hMin hMax
      exact ⟨l, hFits, hBytes, l.parsed_info.symm⟩
  · intro padded padded' keyId keyId' fingerprint fingerprint' payload payload' h h'
    obtain ⟨-, hFlags, hKey, hFingerprint, hPayload⟩ := rawHeader_append_inj (h.symm.trans h')
    exact ⟨Layout.flags_injective hFlags, hKey, hFingerprint, hPayload⟩
  · constructor
    · intro h
      rcases inspectCiphertext_cases bytes with ⟨-, l, -, -, hOk⟩ | ⟨hMagic, -⟩ | ⟨-, e, hBad, hErr⟩
      · cases h.symm.trans hOk
      · exact hMagic
      · cases h.symm.trans hErr
        exact hBad.elim
    · exact inspectCiphertext_notCiphertext
  · intro h
    obtain ⟨e, -, hPanic⟩ := (hErrors .panic).mp h
    cases hPanic
  · intro F C
    refine ⟨fun s => fromBytes_eq_ok.trans ⟨?_, fun h => h.1⟩, fun f => ?_⟩
    · rintro rfl
      exact ⟨rfl, s.keyId_eq_ok⟩
    · exact fromBytes_eq_error.trans map_eq_error.symm

end Sealed

end Cryptbox

import Cryptbox.Record.RoundTrip

/-!
# Typed values hold parseable bytes

`Sealed` and `BlindIndex` wrap bytes on trust in a few places of the source
(`from_validated_bytes`). `Enveloped` and `Indexed` say which bytes get there, call by call,
and `Sealed.Made` and `BlindIndex.Made` how an application comes by a typed value.

* `Enveloped.inspect`, `Indexed.inspect`: whatever is wrapped on trust parses.
* `RowPlanner.planRow_parses`: what a planner writes parses, kept columns included.
* `typed_values_parse`: every typed value, with its key ID, its length and its metadata.
-/

namespace Cryptbox

open Base Envelope

variable {prim : Primitives}

/-! ## Envelopes -/

/-- The bytes that a `Sealed` of seal `F` is made of. -/
inductive Enveloped (prim : Primitives) (F : Seal) : Bytes → Prop
  /-- `Sealed::from_bytes`, `MaybeSealed::from_bytes`. -/
  | inspected {bytes : Bytes} {info : CiphertextInfo}
      (hInspect : inspectCiphertext bytes = .ok info) : Enveloped prim F bytes
  /-- `seal_under`. -/
  | sealed {context : SealContext} {plaintext bytes : Bytes} {keyring : EncryptionKeyring}
      {draw : Option Nonce}
      (hSeal : Bound.seal prim context F.padding plaintext keyring draw = .ok bytes) :
      Enveloped prim F bytes
  /-- `reseal_under`. -/
  | resealed {context : SealContext} {old bytes plaintext : Bytes}
      {keyring keyring' : EncryptionKeyring} {draw : Option Nonce} (hOld : Enveloped prim F old)
      (hReseal : Bound.reseal prim (context, keyring) (context, keyring') F.padding old draw
        = .ok (plaintext, bytes)) :
      Enveloped prim F bytes

/-- **Whatever is wrapped as an envelope parses.** -/
theorem Enveloped.inspect {F : Seal} {bytes : Bytes} (h : Enveloped prim F bytes) :
    ∃ info, inspectCiphertext bytes = .ok info := by
  cases h with
  | inspected hInspect => exact ⟨_, hInspect⟩
  | sealed hSeal => exact ⟨_, Bound.inspect_seal hSeal⟩
  | resealed hOld hReseal => exact ⟨_, Bound.inspect_seal (Bound.reseal_eq_ok.mp hReseal).2⟩

/-- The ways to come by a `Sealed`. -/
inductive Sealed.Made (prim : Primitives) :
    {F : Seal} → {C : Option RecordKind} → Sealed F C → Prop
  /-- `from_bytes`, `TryFrom` and deserialization. -/
  | fromBytes {F : Seal} {C : Option RecordKind} {bytes : Bytes} {s : Sealed F C}
      (h : Sealed.fromBytes bytes = .ok s) : Made prim s
  | clone {F : Seal} {C : Option RecordKind} {s : Sealed F C} (h : Made prim s) : Made prim s
  | sealed {F : Seal} {value : F.Value} {keys : EncryptionKeys} {draw : Option Nonce}
      {s : Sealed F none} (h : Sealed.seal prim value keys draw = .ok s) : Made prim s
  | sealedIn {F : Seal} {kind : RecordKind} {value : F.Value} {id : kind.Id} {keys : EncryptionKeys}
      {draw : Option Nonce} {s : Sealed F (some kind)}
      (h : Sealed.sealIn prim value id keys draw = .ok s) : Made prim s
  | resealed {F : Seal} {old s : Sealed F none} {keys : EncryptionKeys} {draw : Option Nonce}
      (hOld : Made prim old) (h : old.reseal prim keys draw = .ok s) : Made prim s
  | resealedAcross {F : Seal} {old s : Sealed F none} {fromKeys toKeys : EncryptionKeys}
      {draw : Option Nonce} (hOld : Made prim old)
      (h : old.resealAcross prim fromKeys toKeys draw = .ok s) : Made prim s
  /-- `Record::seal`. -/
  | record {D : Declaration} {record : D.Record} {keys : RecordKeys}
      {draw : SealId → Option Nonce} {stored : D.Stored} {sf : SealedField D}
      {s : Sealed sf.sealing.F (some D.kind)} (h : D.seal prim record keys draw = .ok stored)
      (hField : sf.envelope stored = some s) : Made prim s
  | maybeSealed {F : Seal} {bytes : Bytes} {s : Sealed F none}
      (h : MaybeSealed.fromBytes F bytes = .ok (.sealed s)) : Made prim s

/-! ## Indexes -/

/-- The bytes that a `BlindIndex` of `spec` is made of. -/
inductive Indexed (prim : Primitives) {F : Seal} (spec : BlindIndexSpec F) : Bytes → Prop
  /-- `BlindIndex::from_bytes`. -/
  | inspected {bytes : Bytes} {info : BlindIndexInfo}
      (hInspect : inspectBlindIndex bytes = .ok info) (hBits : info.bits = spec.bits) :
      Indexed prim spec bytes
  /-- `derive_normalized`. -/
  | derived {normalized bytes : Bytes} {context : SealContext} {key : BlindIndexKey}
      (hDerive : deriveIndex prim normalized context.bytes spec.id spec.bits key = .ok bytes) :
      Indexed prim spec bytes

/-- **Whatever is wrapped as an index parses**, at the precision of its spec. -/
theorem Indexed.inspect {F : Seal} {spec : BlindIndexSpec F} {bytes : Bytes}
    (h : Indexed prim spec bytes) :
    ∃ keyId, inspectBlindIndex bytes = .ok ⟨indexFormatVersion, keyId, spec.bits⟩ := by
  cases h with
  | inspected hInspect hBits => exact ⟨_, inspectBlindIndex_bits hInspect hBits⟩
  | derived hDerive =>
    obtain ⟨digest, -, hInspect⟩ := inspectBlindIndex_deriveIndex spec.valid hDerive
    exact ⟨_, hInspect⟩

/-- The ways to come by a `BlindIndex`. -/
inductive BlindIndex.Made (prim : Primitives) :
    {F : Seal} → {spec : BlindIndexSpec F} → BlindIndex spec → Prop
  /-- `from_bytes`, `TryFrom` and deserialization. -/
  | fromBytes {F : Seal} {spec : BlindIndexSpec F} {bytes : Bytes} {stored : BlindIndex spec}
      (h : BlindIndex.fromBytes spec bytes = .ok stored) : Made prim stored
  | clone {F : Seal} {spec : BlindIndexSpec F} {stored : BlindIndex spec}
      (h : Made prim stored) : Made prim stored
  | derive {F : Seal} {spec : BlindIndexSpec F} {value : F.Value} {keys : BlindIndexKeys}
      {stored : BlindIndex spec} (h : BlindIndex.derive prim spec value keys = .ok stored) :
      Made prim stored
  | probes {F : Seal} {spec : BlindIndexSpec F} {query : spec.Query} {keys : BlindIndexKeys}
      {probes : List (BlindIndex spec)} {stored : BlindIndex spec}
      (h : BlindIndex.probes prim spec query keys = .ok probes) (hMem : stored ∈ probes) :
      Made prim stored
  /-- `Record::seal`. -/
  | record {D : Declaration} {record : D.Record} {keys : RecordKeys}
      {draw : SealId → Option Nonce} {stored : D.Stored} {ix : Index D}
      {column : BlindIndex ix.spec} (h : D.seal prim record keys draw = .ok stored)
      (hField : ix.column stored = some column) : Made prim column

/-! ## What is made of what -/

theorem Sealed.enveloped_sealUnder {F : Seal} {C : Option RecordKind} {value : F.Value}
    {context : SealContext} {keys : EncryptionKeys} {draw : Option Nonce} {s : Sealed F C}
    (h : sealUnder prim value context keys draw = .ok s) : Enveloped prim F s.asBytes := by
  obtain ⟨plaintext, -, hSeal⟩ := sealUnder_eq_ok.mp h
  exact .sealed hSeal

theorem Sealed.enveloped_resealUnder {F : Seal} {C : Option RecordKind} {context : SealContext}
    {fromKeys toKeys : EncryptionKeys} {draw : Option Nonce} {old s : Sealed F C}
    (hOld : Enveloped prim F old.asBytes)
    (h : old.resealUnder prim context fromKeys toKeys draw = .ok s) :
    Enveloped prim F s.asBytes := by
  obtain ⟨plaintext, hOpen, hSeal⟩ := resealUnder_eq_ok.mp h
  exact .resealed hOld (Bound.reseal_eq_ok.mpr ⟨hOpen, hSeal⟩)

theorem Sealed.enveloped_fromBytes {F : Seal} {C : Option RecordKind} {bytes : Bytes}
    {s : Sealed F C} (h : fromBytes bytes = .ok s) : Enveloped prim F s.asBytes := by
  obtain ⟨info, hInfo, h⟩ := bind_eq_ok.mp h
  obtain rfl := pure_eq_ok.mp h
  exact .inspected (attach_eq_ok.mp hInfo)

theorem MaybeSealed.enveloped_fromBytes {F : Seal} {bytes : Bytes} {s : Sealed F none}
    (h : fromBytes F bytes = .ok (.sealed s)) : Enveloped prim F s.asBytes := by
  unfold fromBytes at h
  split at h
  · next info hInfo =>
    cases h
    exact .inspected (attach_eq_ok.mp hInfo)
  · cases h
  · cases h

/-- The envelope of a stored field was sealed for the record. -/
theorem Declaration.sealIn_of_envelope {D : Declaration} {record : D.Record} {keys : RecordKeys}
    {draw : SealId → Option Nonce} {stored : D.Stored} {sf : SealedField D}
    {s : Sealed sf.sealing.F (some D.kind)} (h : D.seal prim record keys draw = .ok stored)
    (hField : sf.envelope stored = some s) :
    ∃ value, Sealed.sealIn prim value (D.recordId record) keys (draw sf.sealing.F.id) = .ok s := by
  have hRel := envelope_of_seal h sf
  rw [hField] at hRel
  generalize sf.value record = value at hRel
  cases hRel with
  | some hSeal => exact ⟨_, hSeal⟩

/-- The index of a stored field was derived for its value. -/
theorem Declaration.derive_of_column {D : Declaration} {record : D.Record} {keys : RecordKeys}
    {draw : SealId → Option Nonce} {stored : D.Stored} {ix : Index D}
    {column : BlindIndex ix.spec} (h : D.seal prim record keys draw = .ok stored)
    (hField : ix.column stored = some column) :
    ∃ value keyring, RecordKeys.recordBlindIndexKeyring keys = .ok keyring ∧
      BlindIndex.derive prim ix.spec value (.keyring keyring) = .ok column := by
  have hRel := column_of_seal h ix
  rw [hField] at hRel
  generalize ix.value record = value at hRel
  cases hRel with
  | some hDerive =>
    obtain ⟨keyring, hKeyring, hDerive⟩ := bind_eq_ok.mp hDerive
    exact ⟨_, keyring, hKeyring, hDerive⟩

/-- Every typed envelope holds bytes that were wrapped on trust. -/
theorem Sealed.Made.enveloped {F : Seal} {C : Option RecordKind} {s : Sealed F C}
    (h : s.Made prim) : Enveloped prim F s.asBytes := by
  induction h with
  | fromBytes h => exact enveloped_fromBytes h
  | clone h ih => exact ih
  | sealed h => exact enveloped_sealUnder h
  | sealedIn h => exact enveloped_sealUnder h
  | resealed hOld h ih => exact enveloped_resealUnder ih h
  | resealedAcross hOld h ih => exact enveloped_resealUnder ih h
  | record h hField =>
    obtain ⟨value, hSeal⟩ := Declaration.sealIn_of_envelope h hField
    exact enveloped_sealUnder hSeal
  | maybeSealed h => exact MaybeSealed.enveloped_fromBytes h

theorem BlindIndex.indexed_deriveValueWithKey {F : Seal} {spec : BlindIndexSpec F}
    {value : F.Value} {context : SealContext} {key : BlindIndexKey} {stored : BlindIndex spec}
    (h : deriveValueWithKey prim spec value context key = .ok stored) :
    Indexed prim spec stored.asBytes := by
  obtain ⟨normalized, -, hDerive⟩ := deriveValueWithKey_eq_ok.mp h
  exact .derived (deriveNormalized_eq_ok.mp hDerive)

theorem BlindIndex.indexed_derive {F : Seal} {spec : BlindIndexSpec F} {value : F.Value}
    {keys : BlindIndexKeys} {stored : BlindIndex spec}
    (h : derive prim spec value keys = .ok stored) : Indexed prim spec stored.asBytes := by
  obtain ⟨keyring, -, hDerive⟩ := deriveValue_eq_ok.mp h
  exact indexed_deriveValueWithKey hDerive

/-- Every typed index holds bytes that were wrapped on trust. -/
theorem BlindIndex.Made.indexed {F : Seal} {spec : BlindIndexSpec F} {stored : BlindIndex spec}
    (h : stored.Made prim) : Indexed prim spec stored.asBytes := by
  induction h with
  | @fromBytes F spec bytes stored h =>
    obtain ⟨info, hInfo, h⟩ := bind_eq_ok.mp h
    split at h
    · next hBits =>
      obtain rfl := pure_eq_ok.mp h
      exact .inspected (attach_eq_ok.mp hInfo) hBits
    · cases h
  | clone h ih => exact ih
  | derive h => exact indexed_derive h
  | probes h hMem =>
    obtain ⟨normalized, keyring, -, -, hRel⟩ := probesIn_eq_ok.mp h
    obtain ⟨key, -, hDerive⟩ := forall₂_exists hRel.flip hMem
    exact .derived (deriveNormalized_eq_ok.mp hDerive)
  | record h hField =>
    obtain ⟨value, keyring, -, hDerive⟩ := Declaration.derive_of_column h hField
    exact indexed_derive hDerive

/-! ## Planned rows -/

/-- **What a planner writes parses**: the envelope is one of the current key, and every index
column names a key at its offset. -/
theorem RowPlanner.planRow_parses {F : Seal} {R : Type} {planner : RowPlanner prim F R} {row : R}
    {ciphertext : Bytes} {indexes : List Bytes} {draw : Option Nonce} {outcome : RowOutcome}
    {write : RowWrite} (h : planner.planRow row ciphertext indexes draw = .ok outcome)
    (hWrite : outcome.write = some write) :
    inspectCiphertext write.ciphertext = .ok ⟨formatVersion, ⟨1⟩, F.padding.isPadded,
      planner.keys.current.id, (planner.context row).fingerprint⟩ ∧
    ∀ bytes ∈ write.indexes, ∃ info, inspectBlindIndex bytes = .ok info ∧
      storedKeyId bytes = .ok info.indexKeyId := by
  obtain ⟨hArity, hReseal, hFresh⟩ :=
    classifyRow_eq_current.mp (classifyRow_write h hWrite row)
  constructor
  · obtain ⟨l, hFits, hBytes, hFingerprint, hKey, hPadded⟩ :=
      Bound.needsReseal_eq_false.mp hReseal
    rw [hBytes, inspectCiphertext_bytes hFits, l.parsed_info, hPadded, hKey, hFingerprint]
  · intro bytes hMem
    have hSnd : (planner.indexes.zip write.indexes).map Prod.snd = write.indexes :=
      List.map_snd_zip (le_of_eq hArity)
    rw [← hSnd] at hMem
    obtain ⟨c, hc, rfl⟩ := List.mem_map.mp hMem
    obtain ⟨info, keys, hInspect, -, -⟩ := IndexColumn.isStale_eq_ok.mp (hFresh c hc)
    exact ⟨info, hInspect, storedKeyId_of_inspect hInspect⟩

/-! ## Typed values -/

/-- Indexes of one spec have one length. -/
theorem Indexed.length_eq {F : Seal} {spec : BlindIndexSpec F} {a b : Bytes}
    (ha : Indexed prim spec a) (hb : Indexed prim spec b) : a.length = b.length := by
  obtain ⟨keyId, hInspect⟩ := ha.inspect
  obtain ⟨keyId', hInspect'⟩ := hb.inspect
  rw [length_of_inspect hInspect, length_of_inspect hInspect']

/-- **Typed values hold parseable bytes**, however they were made: they parse, at the
precision of the spec for an index; reading them back gives them back; the key ID at its
offset is the parsed one; and the indexes that consistency compares have one length. What a
planner writes parses, and fresh values name the current key and their context. -/
theorem typed_values_parse (prim : Primitives) :
    (∀ (F : Seal) (C : Option RecordKind) (s : Sealed F C), s.Made prim →
      ∃ info, inspectCiphertext s.asBytes = .ok info ∧ Sealed.fromBytes s.asBytes = .ok s ∧
        s.keyId = .ok info.keyId) ∧
    (∀ (F : Seal) (spec : BlindIndexSpec F) (stored : BlindIndex spec), stored.Made prim →
      ∃ keyId, inspectBlindIndex stored.asBytes = .ok ⟨indexFormatVersion, keyId, spec.bits⟩ ∧
        BlindIndex.fromBytes spec stored.asBytes = .ok stored ∧ stored.indexKeyId = .ok keyId ∧
        ∀ value context key derived,
          deriveValueWithKey prim spec value context key = .ok derived →
            derived.asBytes.length = stored.asBytes.length) ∧
    (∀ (F : Seal) (R : Type) (planner : RowPlanner prim F R) (row : R) (ciphertext : Bytes)
      (indexes : List Bytes) (draw : Option Nonce) (outcome : RowOutcome) (write : RowWrite),
      planner.planRow row ciphertext indexes draw = .ok outcome → outcome.write = some write →
        (∃ info, inspectCiphertext write.ciphertext = .ok info ∧
          validatedKeyId write.ciphertext = .ok info.keyId) ∧
        ∀ bytes ∈ write.indexes, ∃ info, inspectBlindIndex bytes = .ok info ∧
          storedKeyId bytes = .ok info.indexKeyId) ∧
    (∀ (F : Seal) (C : Option RecordKind) (context : SealContext) (keys : EncryptionKeys)
      (draw : Option Nonce) (s : Sealed F C),
      (∃ value, Sealed.sealUnder prim value context keys draw = .ok s) ∨
        (∃ (old : Sealed F C) (fromKeys : EncryptionKeys),
          old.resealUnder prim context fromKeys keys draw = .ok s) →
        inspectCiphertext s.asBytes = .ok ⟨formatVersion, ⟨1⟩, F.padding.isPadded,
          keys.encryptionKeyring.current.id, context.fingerprint⟩) ∧
    ∀ (F : Seal) (spec : BlindIndexSpec F) (value : F.Value) (keys : BlindIndexKeys)
      (stored : BlindIndex spec), BlindIndex.derive prim spec value keys = .ok stored →
        ∃ keyring, keys.blindIndexKeyring = .ok keyring ∧
          inspectBlindIndex stored.asBytes
            = .ok ⟨indexFormatVersion, keyring.current.id, spec.bits⟩ := by
  refine ⟨?_, ?_, ?_, ?_, ?_⟩
  · intro F C s hMade
    obtain ⟨info, hInspect⟩ := hMade.enveloped.inspect
    exact ⟨info, hInspect, Sealed.fromBytes_eq_ok.mpr rfl,
      Sealed.validatedKeyId_of_inspect hInspect⟩
  · intro F spec stored hMade
    obtain ⟨keyId, hInspect⟩ := hMade.indexed.inspect
    refine ⟨keyId, hInspect, BlindIndex.fromBytes_eq_ok.mpr rfl, storedKeyId_of_inspect hInspect,
      ?_⟩
    intro value context key derived hDerive
    exact (BlindIndex.indexed_deriveValueWithKey hDerive).length_eq hMade.indexed
  · intro F R planner row ciphertext indexes draw outcome write hPlan hWrite
    obtain ⟨hInspect, hIndexes⟩ := RowPlanner.planRow_parses hPlan hWrite
    exact ⟨⟨_, hInspect, Sealed.validatedKeyId_of_inspect hInspect⟩, hIndexes⟩
  · intro F C context keys draw s hFresh
    rcases hFresh with ⟨value, hSeal⟩ | ⟨old, fromKeys, hReseal⟩
    · obtain ⟨plaintext, -, hSeal⟩ := Sealed.sealUnder_eq_ok.mp hSeal
      exact Bound.inspect_seal hSeal
    · obtain ⟨plaintext, -, hSeal⟩ := Sealed.resealUnder_eq_ok.mp hReseal
      exact Bound.inspect_seal hSeal
  · intro F spec value keys stored hDerive
    obtain ⟨keyring, hKeyring, hDerive⟩ := BlindIndex.deriveValue_eq_ok.mp hDerive
    obtain ⟨normalized, -, hDerive⟩ := BlindIndex.deriveValueWithKey_eq_ok.mp hDerive
    obtain ⟨digest, -, hInspect⟩ := inspectBlindIndex_deriveIndex spec.valid
      (BlindIndex.deriveNormalized_eq_ok.mp hDerive)
    exact ⟨keyring, hKeyring, hInspect⟩

end Cryptbox

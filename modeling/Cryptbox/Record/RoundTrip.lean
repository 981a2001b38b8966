import Cryptbox.Record.Search

/-!
# A record is stored whole or not at all

The generated `seal` stores every sealed field of a record, each with its blind index, or
returns the first error of any of them; `open` reads back what was stored.

* `Sealing.EnvelopeFails`, `Sealing.IndexFails`: why a present value is not stored.
* `Declaration.exists_seal`: sealing fails exactly when some present field is not stored.
* `Declaration.stored_whole`: the stored row field by field, what opens it, and the errors.
-/

namespace Cryptbox

open Base

/-- A sealed field of a record. -/
structure SealedField (D : Declaration) where
  ident : String
  optional : Bool
  sealing : Sealing
  position : Pos ⟨ident, optional, .sealed sealing⟩ D.fields

/-- Related optional values are absent together. -/
theorem rel_none {A B : Type} {r : A → B → Prop} {a : Option A} {b : Option B}
    (h : Option.Rel r a b) : a = none ↔ b = none := by
  cases h <;> simp

namespace SealedField

variable {D : Declaration} (sf : SealedField D)

/-- The value of the field, unless it is absent. -/
def value (record : D.Record) : Option sf.sealing.F.Value :=
  @Slot.get? sf.optional sf.sealing.F.Value (record.get sf.position)

/-- The envelope of the field in a stored row, unless its column is empty. -/
def envelope (stored : D.Stored) : Option (Sealed sf.sealing.F (some D.kind)) :=
  StoredField.sealed (stored.get sf.position) |>.get?

end SealedField

/-- The field that writes a blind index. -/
def Index.sealedField {D : Declaration} (ix : Index D) : SealedField D :=
  ⟨ix.ident, ix.optional, ⟨ix.F, some ix.spec⟩, ix.position⟩

section

variable (prim : Primitives) {kind : RecordKind}

/-- Why a value does not become an envelope: its encoding, its padding or its encryption
fails. -/
inductive Sealing.EnvelopeFails (sealing : Sealing) (id : kind.Id) (keys : RecordKeys)
    (draw : Option Nonce) (value : sealing.F.Value) : Prop
  | encoding {e : CodecError} (hEncode : sealing.F.codec.encode value = .error e)
  | padding {plaintext : Vec} {f : Failure}
      (hEncode : sealing.F.codec.encode value = .ok plaintext)
      (hPad : AeadPlaintext.new sealing.F.padding plaintext.val = .error f)
  | encryption {plaintext : Vec} {aead : AeadPlaintext} {f : Failure}
      (hEncode : sealing.F.codec.encode value = .ok plaintext)
      (hPad : AeadPlaintext.new sealing.F.padding plaintext.val = .ok aead)
      (hSeal : SupportedSuite.active.seal prim (SealContext.of prim sealing.F id).envelope aead
        keys.encryptionKeyring.current draw = .error f)

/-- The blind index of a value, under the keys of a record. -/
def BlindIndex.deriveForRecord {F : Seal} (spec : BlindIndexSpec F) (value : F.Value)
    (keys : RecordKeys) : Result (BlindIndex spec) := do
  let keyring ← RecordKeys.recordBlindIndexKeyring keys
  BlindIndex.derive prim spec value (.keyring keyring)

/-- The field writes a blind index, and deriving the one of `value` fails. -/
def Sealing.IndexFails (sealing : Sealing) (keys : RecordKeys) (value : sealing.F.Value) : Prop :=
  ∃ spec f, sealing.index = some spec ∧
    BlindIndex.deriveForRecord prim spec value keys = .error f

end

/-! ## One field -/

section

variable {prim : Primitives} {kind : RecordKind} {id : kind.Id} {keys : RecordKeys}
  {draw : Option Nonce} {ident : String} {optional : Bool} {sealing : Sealing}

/-- A value becomes an envelope when none of the steps fails. -/
theorem Sealing.exists_sealIn {value : sealing.F.Value} :
    (∃ s : Sealed sealing.F (some kind), Sealed.sealIn prim value id keys draw = .ok s) ↔
      ¬ sealing.EnvelopeFails prim id keys draw value := by
  constructor
  · intro h hFails
    obtain ⟨s, hSeal⟩ := h
    obtain ⟨plaintext, hEncode, hBound⟩ := Sealed.sealUnder_eq_ok.mp hSeal
    obtain ⟨aead, hPad, hSuite⟩ := bind_eq_ok.mp hBound
    cases hFails with
    | encoding hEncode' => cases hEncode.symm.trans hEncode'
    | padding hEncode' hPad' =>
      cases hEncode.symm.trans hEncode'
      cases hPad.symm.trans hPad'
    | encryption hEncode' hPad' hSuite' =>
      cases hEncode.symm.trans hEncode'
      cases hPad.symm.trans hPad'
      cases hSuite.symm.trans hSuite'
  · intro h
    cases hEncode : sealing.F.codec.encode value with
    | error e => exact absurd (.encoding hEncode) h
    | ok plaintext =>
      cases hPad : AeadPlaintext.new sealing.F.padding plaintext.val with
      | error f => exact absurd (.padding hEncode hPad) h
      | ok aead =>
        cases hSuite : SupportedSuite.active.seal prim (SealContext.of prim sealing.F id).envelope
          aead keys.encryptionKeyring.current draw with
        | error f => exact absurd (.encryption hEncode hPad hSuite) h
        | ok bytes =>
          have hBound : Bound.seal prim (.of prim sealing.F id) sealing.F.padding plaintext.val
              keys.encryptionKeyring draw = .ok bytes := bind_eq_ok.mpr ⟨aead, hPad, hSuite⟩
          exact ⟨⟨bytes, inspectCiphertext_seal hBound⟩,
            Sealed.sealUnder_eq_ok.mpr ⟨plaintext, hEncode, hBound⟩⟩

/-- The index column of a field is derived when the index of its value is. -/
theorem Sealing.exists_deriveColumn {slot : Slot optional sealing.F.Value} :
    (∃ column, sealing.deriveColumn prim slot keys = .ok column) ↔
      ∀ value, slot.get? = some value → ¬ sealing.IndexFails prim keys value := by
  obtain ⟨F, index⟩ := sealing
  cases index with
  | none =>
    constructor
    · intro _ value _ h
      obtain ⟨spec, f, hSpec, -⟩ := h
      cases hSpec
    · exact fun _ => ⟨(), rfl⟩
  | some spec =>
    refine exists_eachValue.trans (forall_congr' fun value => imp_congr_right fun _ => ?_)
    refine exists_eq_ok.trans ?_
    constructor
    · intro h hFails
      obtain ⟨spec', f, hSpec, hError⟩ := hFails
      cases hSpec
      exact h f hError
    · intro h f hError
      exact h ⟨spec, f, rfl, hError⟩

/-- Without index keys, an index column fails only for want of them. -/
theorem Sealing.deriveColumn_eq_error {slot : Slot optional sealing.F.Value} {f : Failure}
    (hMissing : RecordKeys.recordBlindIndexKeyring keys = err .blindIndexKeysNotConfigured)
    (h : sealing.deriveColumn prim slot keys = .error f) :
    f = .err .blindIndexKeysNotConfigured := by
  obtain ⟨F, index⟩ := sealing
  cases index with
  | none => cases h
  | some spec =>
    obtain ⟨value, -, hDerive⟩ := eachValue_eq_error.mp h
    rw [hMissing] at hDerive
    exact (Except.error.inj hDerive).symm

/-- A sealed field is stored when its value, if present, becomes an envelope and has its
index. -/
theorem Field.exists_seal_sealed {draw : SealId → Option Nonce}
    {slot : Slot optional sealing.F.Value} :
    (∃ stored, Field.seal prim id keys draw ⟨ident, optional, .sealed sealing⟩ slot
        = .ok stored) ↔
      ∀ value, slot.get? = some value →
        ¬ sealing.EnvelopeFails prim id keys (draw sealing.F.id) value ∧
        ¬ sealing.IndexFails prim keys value := by
  have hEnvelope : (∃ out : Slot optional (Sealed sealing.F (some kind)), eachValue slot
      (fun value => Sealed.sealIn prim value id keys (draw sealing.F.id)) = .ok out) ↔
      ∀ value, slot.get? = some value →
        ¬ sealing.EnvelopeFails prim id keys (draw sealing.F.id) value :=
    exists_eachValue.trans
      (forall_congr' fun _ => imp_congr_right fun _ => Sealing.exists_sealIn)
  constructor
  · intro h value hValue
    obtain ⟨stored, hSeal⟩ := h
    obtain ⟨hSealed, hColumn⟩ := Field.seal_sealed_eq_ok.mp hSeal
    exact ⟨hEnvelope.mp ⟨_, eachValue_eq_ok.mpr hSealed⟩ value hValue,
      Sealing.exists_deriveColumn.mp ⟨_, hColumn⟩ value hValue⟩
  · intro h
    obtain ⟨sealed, hSealed⟩ := hEnvelope.mpr fun value hValue => (h value hValue).1
    obtain ⟨column, hColumn⟩ := Sealing.exists_deriveColumn.mpr fun value hValue =>
      (h value hValue).2
    exact ⟨⟨sealed, column⟩, Field.seal_sealed_eq_ok.mpr ⟨eachValue_eq_ok.mp hSealed, hColumn⟩⟩

end

/-! ## The whole record -/

namespace Declaration

variable {prim : Primitives} {D : Declaration} {record : D.Record} {stored : D.Stored}
  {keys : RecordKeys} {draw : SealId → Option Nonce}

/-- Some present value of the record does not become an envelope, in a field that stands no
later than `p`. -/
def EnvelopeFailsBy (prim : Primitives) (record : D.Record) (keys : RecordKeys)
    (draw : SealId → Option Nonce) {field : Field} (p : Pos field D.fields) : Prop :=
  ∃ (sf : SealedField D) (value : sf.sealing.F.Value), sf.position.toNat ≤ p.toNat ∧
    sf.value record = some value ∧
    sf.sealing.EnvelopeFails prim (D.recordId record) keys (draw sf.sealing.F.id) value

/-- **A record is stored** exactly when every present value becomes an envelope and has its
index. -/
theorem exists_seal :
    (∃ stored, D.seal prim record keys draw = .ok stored) ↔
      ∀ (sf : SealedField D) (value : sf.sealing.F.Value), sf.value record = some value →
        ¬ sf.sealing.EnvelopeFails prim (D.recordId record) keys (draw sf.sealing.F.id) value ∧
        ¬ sf.sealing.IndexFails prim keys value := by
  refine Cells.exists_mapM.trans ?_
  constructor
  · intro h sf value hValue
    exact Field.exists_seal_sealed.mp (h _ sf.position) value hValue
  · intro h field p
    obtain ⟨ident, optional, role⟩ := field
    cases role with
    | recordId => exact ⟨record.get p, rfl⟩
    | plaintext T => exact ⟨record.get p, rfl⟩
    | sealed sealing =>
      apply Field.exists_seal_sealed.mpr
      intro value hValue
      exact h ⟨ident, optional, sealing, p⟩ value hValue

/-- The envelope of a row holds the field's value. -/
theorem envelope_of_seal (h : D.seal prim record keys draw = .ok stored) (sf : SealedField D) :
    Option.Rel (fun value s =>
        Sealed.sealIn prim value (D.recordId record) keys (draw sf.sealing.F.id) = .ok s)
      (sf.value record) (sf.envelope stored) :=
  (Field.seal_sealed_eq_ok.mp (seal_eq_ok.mp h _ sf.position)).1

/-- The index column of a row holds the index of the field's value. -/
theorem column_of_seal (h : D.seal prim record keys draw = .ok stored) (ix : Index D) :
    Option.Rel (fun value column =>
        BlindIndex.deriveForRecord prim ix.spec value keys = .ok column)
      (ix.value record) (ix.column stored) :=
  eachValue_eq_ok.mp (Field.seal_sealed_eq_ok.mp (seal_eq_ok.mp h _ ix.position)).2

theorem recordBlindIndexKeyring_eq_error
    (hKeys : ∀ keyring, RecordKeys.recordBlindIndexKeyring keys ≠ .ok keyring) :
    RecordKeys.recordBlindIndexKeyring keys = err .blindIndexKeysNotConfigured := by
  cases keys with
  | keyring ring => rfl
  | keys both =>
    cases hBlind : both.blindIndexes with
    | none =>
      show okOr both.blindIndexes _ = _
      rw [hBlind]
      rfl
    | some ring =>
      refine absurd (?_ : okOr both.blindIndexes _ = .ok ring) (hKeys ring)
      exact okOr_eq_ok.mpr hBlind

/-- Without index keys, a present value with an index stops the record; the error is the
missing keyring unless an envelope failed before. -/
theorem seal_without_keyring
    (hKeys : ∀ keyring, RecordKeys.recordBlindIndexKeyring keys ≠ .ok keyring) {ix : Index D}
    {value : ix.F.Value} (hValue : ix.value record = some value)
    (hEnvelopes : ¬ EnvelopeFailsBy prim record keys draw ix.position) :
    D.seal prim record keys draw = err .blindIndexKeysNotConfigured := by
  have hMissing := recordBlindIndexKeyring_eq_error hKeys
  have hSealed (sf : SealedField D) (hLe : sf.position.toNat ≤ ix.position.toNat) :
      ∃ out : Slot sf.optional (Sealed sf.sealing.F (some D.kind)),
        eachValue (show Slot sf.optional sf.sealing.F.Value from record.get sf.position)
          (fun value => Sealed.sealIn prim value (D.recordId record) keys
            (draw sf.sealing.F.id)) = .ok out := by
    apply exists_eachValue.mpr
    intro value hPresent
    apply Sealing.exists_sealIn.mpr
    exact fun hFails => hEnvelopes ⟨sf, value, hLe, hPresent, hFails⟩
  refine Cells.mapM_eq_error ix.position ?_ ?_
  · obtain ⟨out, hOut⟩ := hSealed ix.sealedField le_rfl
    refine bind_eq_error.mpr (Or.inr ⟨out, hOut, bind_eq_error.mpr (Or.inl ?_)⟩)
    refine eachValue_eq_error.mpr ⟨value, hValue, ?_⟩
    rw [hMissing, error_bind]
  · -- Before the indexed field, a field fails only where it derives an index of its own.
    intro field p f hLt hError
    obtain ⟨ident, optional, role⟩ := field
    cases role with
    | recordId => cases hError
    | plaintext T => cases hError
    | sealed sealing =>
      obtain ⟨out, hOut⟩ := hSealed ⟨ident, optional, sealing, p⟩ (le_of_lt hLt)
      rcases bind_eq_error.mp hError with hError | ⟨sealed, -, hError⟩
      · cases hOut.symm.trans hError
      · rcases bind_eq_error.mp hError with hColumn | ⟨column, -, hPure⟩
        · exact Sealing.deriveColumn_eq_error hMissing hColumn
        · cases hPure

/-- **A record is stored whole or not at all.** What is stored opens as the record for whoever
has the writer's key; an absent value leaves both of its columns absent, and an index column
holds the index of the value. Sealing fails exactly when the envelope or the index of some
present value does, so it fails for a present indexed value without index keys. -/
theorem stored_whole (hAead : prim.DecryptsEncrypted) (hCodec : ∀ F ∈ D.seals, F.codec.RoundTrips)
    (record : D.Record) (writer : RecordKeys) (draw : SealId → Option Nonce) :
    (∀ stored, D.seal prim record writer draw = .ok stored →
      (∀ reader : EncryptionKeys,
        reader.encryptionKeyring.get writer.encryptionKeyring.current.id
          = some writer.encryptionKeyring.current →
        D.open prim stored reader = .ok record) ∧
      (∀ sf : SealedField D, sf.envelope stored = none ↔ sf.value record = none) ∧
      (∀ ix : Index D, ix.column stored = none ↔ ix.value record = none) ∧
      ∀ (ix : Index D) (value : ix.F.Value), ix.value record = some value →
        ∃ keyring column, RecordKeys.recordBlindIndexKeyring writer = .ok keyring ∧
          BlindIndex.derive prim ix.spec value (.keyring keyring) = .ok column ∧
          ix.column stored = some column) ∧
    ((∃ stored, D.seal prim record writer draw = .ok stored) ↔
      ∀ (sf : SealedField D) (value : sf.sealing.F.Value), sf.value record = some value →
        ¬ sf.sealing.EnvelopeFails prim (D.recordId record) writer (draw sf.sealing.F.id) value ∧
        ¬ sf.sealing.IndexFails prim writer value) ∧
    ((∀ keyring, RecordKeys.recordBlindIndexKeyring writer ≠ .ok keyring) →
      ∀ (ix : Index D) (value : ix.F.Value), ix.value record = some value →
        (∀ stored, D.seal prim record writer draw ≠ .ok stored) ∧
        (¬ EnvelopeFailsBy prim record writer draw ix.position →
          D.seal prim record writer draw = err .blindIndexKeysNotConfigured)) := by
  refine ⟨?_, exists_seal, ?_⟩
  · intro stored hSeal
    refine ⟨fun reader hKey => open_seal hAead hCodec hSeal hKey, ?_, ?_, ?_⟩
    · exact fun sf => (rel_none (envelope_of_seal hSeal sf)).symm
    · exact fun ix => (rel_none (column_of_seal hSeal ix)).symm
    · intro ix value hValue
      have hRel := column_of_seal hSeal ix
      rw [hValue] at hRel
      generalize ix.column stored = column at hRel ⊢
      cases hRel with
      | some hDerive =>
        obtain ⟨keyring, hKeyring, hDerive⟩ := bind_eq_ok.mp hDerive
        exact ⟨keyring, _, hKeyring, hDerive, rfl⟩
  · intro hKeys ix value hValue
    refine ⟨?_, seal_without_keyring hKeys hValue⟩
    intro stored hSeal
    have hRel := column_of_seal hSeal ix
    rw [hValue] at hRel
    generalize ix.column stored = column at hRel
    cases hRel with
    | some hDerive =>
      obtain ⟨keyring, hKeyring, -⟩ := bind_eq_ok.mp hDerive
      exact hKeys keyring hKeyring

/-- The record of the vectors is stored and opens again, and is not stored without index
keys. -/
theorem stored_whole_vector :
    (∃ stored, Vectors.declaration.seal Vectors.recordPrim (Vectors.record 7) Vectors.recordKeys
        (fun _ => some Vectors.nonce) = .ok stored ∧
      Vectors.declaration.open Vectors.recordPrim stored Vectors.recordKeys
        = .ok (Vectors.record 7)) ∧
    ∀ stored, Vectors.declaration.seal Vectors.recordPrim (Vectors.record 7)
      (.keyring Vectors.encryptionKeyring) (fun _ => some Vectors.nonce) ≠ .ok stored := by
  obtain ⟨value, -, -, hSeal⟩ := Vectors.exists_seal_record
  have hAead : Vectors.recordPrim.DecryptsEncrypted := KnownAnswers.decryptsEncrypted _
  have hTrips (writer : RecordKeys) := stored_whole hAead Vectors.declaration_roundTrips
    (Vectors.record 7) writer (fun _ => some Vectors.nonce)
  refine ⟨⟨_, hSeal, ((hTrips Vectors.recordKeys).1 _ hSeal).1 _ (Ring.get_current _)⟩, ?_⟩
  let ix : Index Vectors.declaration :=
    ⟨"value", false, Vectors.vectorSeal, Vectors.vectorIndex, .there .here⟩
  refine ((hTrips (.keyring Vectors.encryptionKeyring)).2.2 ?_ ix Vectors.plaintext rfl).1
  intro keyring hKeyring
  cases hKeyring

end Declaration

end Cryptbox

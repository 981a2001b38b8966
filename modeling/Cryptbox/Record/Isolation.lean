import Cryptbox.Ideal
import Cryptbox.Record

/-!
# A row opens only as itself

Under idealised primitives, take honest rows of any records and honest standalone values, and
assemble a row from their envelopes in any way. The row opens exactly when every envelope
stands in the field and under the record ID it was sealed for, and then every field reads as
the value sealed in it.

* `Honest.exists_seal`: what stands behind an honest envelope.
* `Declaration.eq_of_sealId`: a seal ID belongs to one seal.
* `Declaration.open_isolated`: the adversary's rows.
-/

namespace Cryptbox

open Base Envelope

/-- A value in an envelope: the seal and the record ID it was sealed for. -/
structure Entry where
  F : Seal
  record : Option RecordValue
  value : F.Value
  bytes : Bytes

namespace Field

variable {kind : RecordKind}

/-- The envelope in a sealed field's column, unless the column is empty. -/
def envelope : ∀ field : Field, field.Stored kind → Option (Seal × Bytes)
  | ⟨_, _, .recordId⟩, _ => none
  | ⟨_, _, .plaintext _⟩, _ => none
  | ⟨_, _, .sealed sealing⟩, stored => stored.sealed.get?.map fun s => (sealing.F, s.asBytes)

/-- The value sealed in a field of the record with ID `id`, if one is present. -/
def entry (id : kind.Id) : ∀ field : Field, field.Plain kind → field.Stored kind → List Entry
  | ⟨_, _, .recordId⟩, _, _ => []
  | ⟨_, _, .plaintext _⟩, _, _ => []
  | ⟨_, _, .sealed sealing⟩, value, stored =>
    match Slot.get? value, stored.sealed.get? with
    | some value, some s => [⟨sealing.F, some (kind.recordValue id), value, s.asBytes⟩]
    | _, _ => []

theorem mem_seals {D : Declaration} {field : Field} (hMem : field ∈ D.fields) {F : Seal}
    {stored : field.Stored kind} {bytes : Bytes}
    (h : field.envelope stored = some (F, bytes)) : F ∈ D.seals := by
  obtain ⟨ident, optional, role⟩ := field
  cases role with
  | recordId => cases h
  | plaintext T => cases h
  | sealed sealing =>
    obtain ⟨s, -, hPair⟩ := Option.map_eq_some_iff.mp h
    cases hPair
    exact List.mem_filterMap.mpr ⟨_, hMem, rfl⟩

/-- What opening makes of a field, when envelopes hold `entries`: the record ID and plaintext
are the stored ones, an emptied field is absent, and any other field is the value that was
sealed in its envelope for this field and record ID. -/
def ReadsAs (entries : List Entry) (id : kind.Id) :
    ∀ field : Field, field.Stored kind → field.Plain kind → Prop
  | ⟨_, _, .recordId⟩, stored, value => value = stored
  | ⟨_, _, .plaintext _⟩, stored, value => value = stored
  | ⟨_, _, .sealed sealing⟩, stored, value =>
    Option.Rel (fun s value =>
        ⟨sealing.F, some (kind.recordValue id), value, s.asBytes⟩ ∈ entries)
      stored.sealed.get? (Slot.get? value)

end Field

/-- A row or a standalone value that the application sealed, with a key of `keyring`. -/
inductive Honest (prim : Primitives) (keyring : EncryptionKeyring) : Type 1
  | row (D : Declaration) (record : D.Record) (keys : RecordKeys) (draw : SealId → Option Nonce)
      (stored : D.Stored)
      (hKey : keyring.get keys.encryptionKeyring.current.id
        = some keys.encryptionKeyring.current)
      (hSeal : D.seal prim record keys draw = .ok stored)
  | standalone (F : Seal) (value : F.Value) (keys : EncryptionKeys) (draw : Option Nonce)
      (s : Sealed F none)
      (hKey : keyring.get keys.encryptionKeyring.current.id
        = some keys.encryptionKeyring.current)
      (hSeal : Sealed.seal prim value keys draw = .ok s)

namespace Honest

variable {prim : Primitives} {keyring : EncryptionKeyring}

/-- The envelopes that were written, and what is in them. -/
def entries : Honest prim keyring → List Entry
  | row D record _ _ stored _ _ => record.flatMap₂ (Field.entry (D.recordId record)) stored
  | standalone F value _ _ s _ _ => [⟨F, none, value, s.asBytes⟩]

/-- A row is of one of the declarations. -/
def IsOf (declarations : List Declaration) : Honest prim keyring → Prop
  | row D _ _ _ _ _ _ => D ∈ declarations
  | standalone _ _ _ _ _ _ _ => True

/-- **Behind an honest envelope** stands a seal of the value's encoding, under the entry's
seal and record ID and a key of the keyring. -/
theorem exists_seal {item : Honest prim keyring} {e : Entry} (he : e ∈ item.entries) :
    ∃ encoded writer draw, e.F.codec.encode e.value = .ok encoded ∧
      keyring.get writer.current.id = some writer.current ∧
      Bound.seal prim (.new prim e.F.id e.record) e.F.padding encoded.val writer draw
        = .ok e.bytes := by
  cases item with
  | row D record keys draw stored hKey hSeal =>
    obtain ⟨⟨ident, optional, role⟩, p, hEntry⟩ := Cells.mem_flatMap₂.mp he
    cases role with
    | recordId => cases hEntry
    | plaintext T => cases hEntry
    | sealed sealing =>
      have hField := (Field.seal_sealed_eq_ok.mp (Declaration.seal_eq_ok.mp hSeal _ p)).1
      unfold Field.entry at hEntry
      dsimp only at hEntry
      generalize Slot.get? (record.get p) = value at hField hEntry
      generalize (stored.get p).sealed.get? = sealed at hField hEntry
      cases hField with
      | none => cases hEntry
      | some hSealed =>
        obtain rfl := List.mem_singleton.mp hEntry
        obtain ⟨encoded, hEncode, hBound⟩ := Sealed.sealUnder_eq_ok.mp hSealed
        exact ⟨encoded, _, _, hEncode, hKey, hBound⟩
  | standalone F value keys draw s hKey hSeal =>
    obtain rfl := List.mem_singleton.mp he
    obtain ⟨encoded, hEncode, hBound⟩ := Sealed.sealUnder_eq_ok.mp hSeal
    exact ⟨encoded, _, _, hEncode, hKey, hBound⟩

/-- An entry with a record ID is in a row of a record that declares its seal. -/
theorem mem_seals {declarations : List Declaration} {item : Honest prim keyring} {e : Entry}
    (he : e ∈ item.entries) (hOf : item.IsOf declarations) (hRecord : e.record ≠ none) :
    ∃ D ∈ declarations, e.F ∈ D.seals := by
  cases item with
  | row D record keys draw stored hKey hSeal =>
    refine ⟨D, hOf, ?_⟩
    obtain ⟨⟨ident, optional, role⟩, p, hEntry⟩ := Cells.mem_flatMap₂.mp he
    cases role with
    | recordId => cases hEntry
    | plaintext T => cases hEntry
    | sealed sealing =>
      unfold Field.entry at hEntry
      dsimp only at hEntry
      split at hEntry
      · obtain rfl := List.mem_singleton.mp hEntry
        exact List.mem_filterMap.mpr ⟨_, p.mem, rfl⟩
      · cases hEntry
  | standalone F value keys draw s hKey hSeal =>
    obtain rfl := List.mem_singleton.mp he
    exact absurd rfl hRecord

end Honest

/-! ## Seal IDs -/

/-- Among declarations without a common seal ID, **a seal ID belongs to one seal**. -/
theorem Declaration.eq_of_sealId {declarations : List Declaration}
    (hDistinct : declarations.Pairwise fun A B => A.sealIds.Disjoint B.sealIds)
    {A B : Declaration} (hA : A ∈ declarations) (hB : B ∈ declarations) {F G : Seal}
    (hF : F ∈ A.seals) (hG : G ∈ B.seals) (hId : F.id = G.id) : F = G := by
  by_cases hSame : A = B
  · subst hSame
    exact List.inj_on_of_nodup_map A.sealIds_nodup hF hG hId
  · have hSymm : Std.Symm fun A B : Declaration => A.sealIds.Disjoint B.sealIds :=
      ⟨fun _ _ h => h.symm⟩
    have hDisjoint : A.sealIds.Disjoint B.sealIds := hDistinct.forall hA hB hSame
    exact absurd (hId ▸ List.mem_map_of_mem hG) (hDisjoint (List.mem_map_of_mem hF))

/-! ## One field -/

section

variable {prim : Primitives} {kind : RecordKind} {id : kind.Id} {keys : EncryptionKeys}

theorem Sealed.openIn_eq_ok {F : Seal} {s : Sealed F (some kind)} {value : F.Value} :
    s.openIn prim id keys = .ok value ↔
      ∃ plaintext, Bound.open prim (.of prim F id) s.asBytes keys.encryptionKeyring
          = .ok plaintext ∧ F.codec.decode plaintext = .ok value :=
  openUnder_eq_ok

/-- A field opens when its envelope, if there is one, opens for it. -/
theorem Field.exists_open {field : Field} {stored : field.Stored kind} :
    (∃ value, Field.open prim id keys field stored = .ok value) ↔
      ∀ F bytes, field.envelope stored = some (F, bytes) → ∃ plaintext value,
        Bound.open prim (.of prim F id) bytes keys.encryptionKeyring = .ok plaintext ∧
          F.codec.decode plaintext = .ok value := by
  obtain ⟨ident, optional, role⟩ := field
  cases role with
  | recordId => exact ⟨fun _ _ _ h => (nomatch h), fun _ => ⟨stored, rfl⟩⟩
  | plaintext T => exact ⟨fun _ _ _ h => (nomatch h), fun _ => ⟨stored, rfl⟩⟩
  | sealed sealing =>
    refine exists_eachValue.trans ⟨?_, ?_⟩
    · intro h F bytes hEnvelope
      obtain ⟨s, hSlot, hPair⟩ := Option.map_eq_some_iff.mp hEnvelope
      cases hPair
      obtain ⟨value, hOpen⟩ := h s hSlot
      obtain ⟨plaintext, hOpen, hDecode⟩ := Sealed.openIn_eq_ok.mp hOpen
      exact ⟨plaintext, value, hOpen, hDecode⟩
    · intro h s hSlot
      obtain ⟨plaintext, value, hOpen, hDecode⟩ :=
        h sealing.F s.asBytes (Option.map_eq_some_iff.mpr ⟨s, hSlot, rfl⟩)
      exact ⟨value, Sealed.openIn_eq_ok.mpr ⟨plaintext, hOpen, hDecode⟩⟩

/-- An opened field reads as an entry when whatever its envelope opens to is one. -/
theorem Field.readsAs_of_open {field : Field} {stored : field.Stored kind}
    {value : field.Plain kind} {entries : List Entry}
    (hOpen : Field.open prim id keys field stored = .ok value)
    (hEntry : ∀ (F : Seal) (bytes plaintext : Bytes) (value : F.Value),
      field.envelope stored = some (F, bytes) →
      Bound.open prim (.of prim F id) bytes keys.encryptionKeyring = .ok plaintext →
      F.codec.decode plaintext = .ok value →
        ⟨F, some (kind.recordValue id), value, bytes⟩ ∈ entries) :
    field.ReadsAs entries id stored value := by
  obtain ⟨ident, optional, role⟩ := field
  cases role with
  | recordId => exact (Except.ok.inj hOpen).symm
  | plaintext T => exact (Except.ok.inj hOpen).symm
  | sealed sealing =>
    have hRel := eachValue_eq_ok.mp hOpen
    unfold Field.ReadsAs
    unfold Field.envelope at hEntry
    dsimp only at hRel hEntry ⊢
    generalize stored.sealed.get? = sealed at hRel hEntry ⊢
    generalize Slot.get? value = opened at hRel ⊢
    cases hRel with
    | none => exact .none
    | some hValue =>
      obtain ⟨plaintext, hBound, hDecode⟩ := Sealed.openIn_eq_ok.mp hValue
      exact .some (hEntry _ _ plaintext _ rfl hBound hDecode)

/-- An honest envelope opens for the field and the record ID it was sealed for, to the
encoding of its value. -/
theorem Honest.open_entry (hIdeal : prim.Ideal)
    {item : Honest prim keys.encryptionKeyring} {e : Entry} (he : e ∈ item.entries) :
    ∃ encoded, e.F.codec.encode e.value = .ok encoded ∧
      ∀ (F : Seal) (plaintext : Bytes),
        Bound.open prim (.of prim F id) e.bytes keys.encryptionKeyring = .ok plaintext ↔
          e.F.id = F.id ∧ e.record = some (kind.recordValue id) ∧ plaintext = encoded.val := by
  obtain ⟨encoded, writer, draw, hEncode, hKey, hSeal⟩ := exists_seal he
  refine ⟨encoded, hEncode, fun F plaintext => ?_⟩
  refine (Bound.open_seal_iff hIdeal hSeal).trans ⟨?_, ?_⟩
  · intro h
    obtain ⟨hId, hRecord, -, hPlaintext⟩ := h
    exact ⟨hId.symm, hRecord.symm, hPlaintext⟩
  · intro h
    obtain ⟨hId, hRecord, hPlaintext⟩ := h
    exact ⟨hId.symm, hRecord.symm, hKey, hPlaintext⟩

end

/-! ## A row of recombined envelopes -/

/-- **A row opens only as itself**: of the rows assembled from honest envelopes, those open
whose envelopes all stand in their own field under their own record ID. Then every field
reads as what was sealed in it, and the stored record ID and plaintext as they are. -/
theorem Declaration.open_isolated {prim : Primitives} (hIdeal : prim.Ideal) {D : Declaration}
    {others : List Declaration}
    (hDistinct : (D :: others).Pairwise fun A B => A.sealIds.Disjoint B.sealIds)
    (hCodec : ∀ F ∈ D.seals, F.codec.RoundTrips) {keys : EncryptionKeys}
    {honest : List (Honest prim keys.encryptionKeyring)}
    (hOf : ∀ item ∈ honest, item.IsOf (D :: others)) {stored : D.Stored}
    (hAssembled : ∀ (field : Field) (p : Pos field D.fields) (F : Seal) (bytes : Bytes),
      field.envelope (stored.get p) = some (F, bytes) →
        ∃ e ∈ honest.flatMap Honest.entries, e.bytes = bytes) :
    ((∃ record, D.open prim stored keys = .ok record) ↔
      ∀ (field : Field) (p : Pos field D.fields) (F : Seal) (bytes : Bytes),
        field.envelope (stored.get p) = some (F, bytes) →
          ∃ e ∈ honest.flatMap Honest.entries, e.F.id = F.id ∧
            e.record = some (D.kind.recordValue (D.storedId stored)) ∧ e.bytes = bytes) ∧
    ∀ record, D.open prim stored keys = .ok record →
      ∀ (field : Field) (p : Pos field D.fields),
        field.ReadsAs (honest.flatMap Honest.entries) (D.storedId stored) (stored.get p)
          (record.get p) := by
  -- An entry that was sealed for a field of this record was sealed by its seal.
  have hSame {e : Entry} (he : e ∈ honest.flatMap Honest.entries) {F : Seal} (hF : F ∈ D.seals)
      (hId : e.F.id = F.id) {record : RecordValue} (hRecord : e.record = some record) :
      e.F = F := by
    obtain ⟨item, hItem, he⟩ := List.mem_flatMap.mp he
    obtain ⟨A, hA, hSeal⟩ := Honest.mem_seals he (hOf item hItem) (by simp [hRecord])
    exact eq_of_sealId hDistinct hA List.mem_cons_self hSeal hF hId
  constructor
  · refine Cells.exists_mapM.trans (forall_congr' fun field => forall_congr' fun p => ?_)
    refine Field.exists_open.trans
      (forall_congr' fun F => forall_congr' fun bytes => imp_congr_right fun hEnvelope => ?_)
    have hF : F ∈ D.seals := Field.mem_seals p.mem hEnvelope
    constructor
    · intro h
      obtain ⟨plaintext, value, hOpen, -⟩ := h
      obtain ⟨e, he, rfl⟩ := hAssembled field p F bytes hEnvelope
      obtain ⟨item, hItem, hEntry⟩ := List.mem_flatMap.mp he
      obtain ⟨encoded, -, hOpens⟩ := Honest.open_entry hIdeal hEntry
      obtain ⟨hId, hRecord, -⟩ := (hOpens F plaintext).mp hOpen
      exact ⟨e, he, hId, hRecord, rfl⟩
    · intro h
      obtain ⟨e, he, hId, hRecord, rfl⟩ := h
      obtain rfl := hSame he hF hId hRecord
      obtain ⟨item, hItem, hEntry⟩ := List.mem_flatMap.mp he
      obtain ⟨encoded, hEncode, hOpens⟩ := Honest.open_entry hIdeal hEntry
      exact ⟨encoded.val, e.value, (hOpens e.F encoded.val).mpr ⟨rfl, hRecord, rfl⟩,
        hCodec e.F hF _ _ hEncode⟩
  · intro record hOpen field p
    apply Field.readsAs_of_open (open_eq_ok.mp hOpen field p)
    intro F bytes plaintext value hEnvelope hBound hDecode
    have hF : F ∈ D.seals := Field.mem_seals p.mem hEnvelope
    obtain ⟨e, he, rfl⟩ := hAssembled field p F bytes hEnvelope
    obtain ⟨item, hItem, hEntry⟩ := List.mem_flatMap.mp he
    obtain ⟨encoded, hEncode, hOpens⟩ := Honest.open_entry hIdeal hEntry
    obtain ⟨hId, hRecord, rfl⟩ := (hOpens F plaintext).mp hBound
    obtain ⟨G, record', value', bytes⟩ := e
    obtain rfl : G = F := hSame he hF hId hRecord
    obtain rfl : record' = some (D.kind.recordValue (D.storedId stored)) := hRecord
    obtain rfl : value' = value :=
      Except.ok.inj ((hCodec G hF _ _ hEncode).symm.trans hDecode)
    exact he

/-- The record of the vectors opens, and no longer does under another record ID. -/
theorem Declaration.open_isolated_vector :
    ∃ value : Vectors.StoredValue,
      (∃ record, Vectors.declaration.open Vectors.recordPrim (Vectors.stored 7 value)
        Vectors.recordKeys = .ok record) ∧
      ¬ ∃ record, Vectors.declaration.open Vectors.recordPrim (Vectors.stored 8 value)
        Vectors.recordKeys = .ok record := by
  obtain ⟨value, -, -, hSeal⟩ := Vectors.exists_seal_record
  have hIdeal : Vectors.recordPrim.Ideal := KnownAnswers.ideal (by decide)
  have hKey := Ring.get_current Vectors.recordKeys.encryptionKeyring
  let item : Honest Vectors.recordPrim Vectors.recordKeys.encryptionKeyring :=
    .row Vectors.declaration (Vectors.record 7) Vectors.recordKeys _ _ hKey hSeal
  let e : Entry := ⟨Vectors.vectorSeal, some (.i64 7), Vectors.plaintext, value.sealed.asBytes⟩
  have hEntries : [item].flatMap Honest.entries = [e] := rfl
  have hDistinct : [Vectors.declaration].Pairwise fun A B => A.sealIds.Disjoint B.sealIds :=
    List.pairwise_singleton _ _
  have hOf : ∀ item' ∈ [item], item'.IsOf [Vectors.declaration] := by
    intro item' hItem
    obtain rfl := List.mem_singleton.mp hItem
    exact List.mem_singleton_self _
  have hAssembled (id : Int64) : ∀ (field : Field) (p : Pos field Vectors.declaration.fields)
      (F : Seal) (bytes : Bytes),
      field.envelope ((Vectors.stored id value).get p) = some (F, bytes) →
        ∃ e ∈ [item].flatMap Honest.entries, e.bytes = bytes := by
    show ∀ (field : Field) (p : Pos field [_, _]), _
    rintro field (_ | _ | _ | p) F bytes hEnvelope
    · cases hEnvelope
    · cases hEnvelope
      exact ⟨e, by rw [hEntries]; exact List.mem_singleton_self e, rfl⟩
  have hOpens (id : Int64) :=
    (open_isolated hIdeal hDistinct Vectors.declaration_roundTrips hOf (hAssembled id)).1
  refine ⟨value, ?_, ?_⟩
  · apply (hOpens 7).mpr
    show ∀ (field : Field) (p : Pos field [_, _]), _
    rintro field (_ | _ | _ | p) F bytes hEnvelope
    · cases hEnvelope
    · cases hEnvelope
      exact ⟨e, by rw [hEntries]; exact List.mem_singleton_self e, rfl, rfl, rfl⟩
  · intro hOpen
    obtain ⟨e', he, -, hRecord, -⟩ := (hOpens 8).mp hOpen _ (.there .here) _ _ rfl
    rw [hEntries] at he
    obtain rfl := List.mem_singleton.mp he
    have hIds : RecordValue.i64 7 = .i64 8 := Option.some.inj hRecord
    exact absurd hIds (by decide)

end Cryptbox

import Cryptbox.Vectors
import Cryptbox.Record.Declaration

/-!
# Records

`record.rs` and the impl that `#[derive(Record)]` generates. A record is a row of its fields;
its stored form has the record ID and plaintext fields as they are, and for each sealed field
the envelope and the column of its blind index. Sealing and opening pass over the fields in
order, every sealed field under its own seal and the row's record ID, and stop at the first
error.

* `eachValue_eq_ok`: an absent optional value stays absent, every other is passed on.
* `Declaration.seal_eq_ok`, `Declaration.open_eq_ok`: sealing and opening, field by field.
* `Declaration.storedId_of_seal`, `Declaration.recordId_of_open`: both keep the record ID.
* `Declaration.open_seal`: a record opens as itself under the writer's key.
-/

namespace Cryptbox

open Base

/-! ## Optional values -/

/-- `Option<T>` for an optional field, and `T` for any other. -/
abbrev Slot : Bool → Type → Type
  | true, T => Option T
  | false, T => T

def Slot.get? : {optional : Bool} → {T : Type} → Slot optional T → Option T
  | true, _, value => value
  | false, _, value => some value

/-- `each_value`: runs `body` on a value that may be absent. -/
def eachValue {A B : Type} : {optional : Bool} → Slot optional A → (A → Result B) →
    Result (Slot optional B)
  | true, some value, body => some <$> body value
  | true, none, _ => .ok none
  | false, value, body => body value

section

variable {A B : Type} {optional : Bool} {slot : Slot optional A} {body : A → Result B}

theorem eachValue_eq_ok {out : Slot optional B} :
    eachValue slot body = .ok out ↔
      Option.Rel (fun a b => body a = .ok b) slot.get? out.get? := by
  cases optional with
  | true =>
    cases slot with
    | none =>
      constructor
      · intro h
        obtain rfl := Except.ok.inj h
        exact .none
      · intro h
        cases out with
        | none => rfl
        | some b => cases h
    | some a =>
      constructor
      · intro h
        obtain ⟨b, hBody, rfl⟩ := map_eq_ok.mp h
        exact .some hBody
      · intro h
        cases out with
        | none => cases h
        | some b =>
          rcases h with hBody | _
          exact map_eq_ok.mpr ⟨b, hBody, rfl⟩
  | false =>
    constructor
    · exact fun h => .some h
    · intro h
      rcases h with hBody | _
      exact hBody

/-- A pass over a value fails only in the body. -/
theorem eachValue_eq_error {f : Failure} :
    eachValue slot body = .error f ↔ ∃ a, slot.get? = some a ∧ body a = .error f := by
  cases optional with
  | true =>
    cases slot with
    | none =>
      constructor
      · intro h
        cases h
      · intro h
        obtain ⟨a, hSlot, -⟩ := h
        cases hSlot
    | some a =>
      refine map_eq_error.trans ⟨fun h => ⟨a, rfl, h⟩, ?_⟩
      intro h
      obtain ⟨a', hSlot, hBody⟩ := h
      cases hSlot
      exact hBody
  | false =>
    constructor
    · exact fun h => ⟨slot, rfl, h⟩
    · intro h
      obtain ⟨a, hSlot, hBody⟩ := h
      cases hSlot
      exact hBody

theorem exists_eachValue :
    (∃ out, eachValue slot body = .ok out) ↔ ∀ a, slot.get? = some a → ∃ b, body a = .ok b := by
  rw [exists_eq_ok]
  constructor
  · intro h a hSlot
    apply exists_eq_ok.mpr
    intro f hBody
    exact h f (eachValue_eq_error.mpr ⟨a, hSlot, hBody⟩)
  · intro h f hError
    obtain ⟨a, hSlot, hBody⟩ := eachValue_eq_error.mp hError
    exact exists_eq_ok.mp (h a hSlot) f hBody

end

/-! ## Cells -/

/-- The column of a field's blind index. -/
def Sealing.Column (sealing : Sealing) (optional : Bool) : Type :=
  match sealing.index with
  | some spec => Slot optional (BlindIndex spec)
  | none => Unit

/-- A sealed field as a row stores it. -/
structure StoredField (kind : RecordKind) (optional : Bool) (sealing : Sealing) where
  sealed : Slot optional (Sealed sealing.F (some kind))
  index : sealing.Column optional

/-- The type of a record's field. -/
def Field.Plain (kind : RecordKind) (field : Field) : Type :=
  match field.role with
  | .recordId => kind.Id
  | .plaintext T => T
  | .sealed sealing => Slot field.optional sealing.F.Value

/-- The type of the field's columns in the stored form. -/
def Field.Stored (kind : RecordKind) (field : Field) : Type :=
  match field.role with
  | .recordId => kind.Id
  | .plaintext T => T
  | .sealed sealing => StoredField kind field.optional sealing

namespace Field

variable {kind : RecordKind}

/-- The record ID, at the field that holds it. -/
def plainId : ∀ field : Field, field.Plain kind → Option kind.Id
  | ⟨_, _, .recordId⟩, id => some id
  | ⟨_, _, .plaintext _⟩, _ => none
  | ⟨_, _, .sealed _⟩, _ => none

def storedId : ∀ field : Field, field.Stored kind → Option kind.Id
  | ⟨_, _, .recordId⟩, id => some id
  | ⟨_, _, .plaintext _⟩, _ => none
  | ⟨_, _, .sealed _⟩, _ => none

end Field

namespace Declaration

variable (D : Declaration)

/-- The struct that the derive is applied to. -/
abbrev Record : Type := Cells (Field.Plain D.kind) D.fields

/-- `Record::Stored`. -/
abbrev Stored : Type := Cells (Field.Stored D.kind) D.fields

theorem isSome_plainId (record : D.Record) : (record.findSome? Field.plainId).isSome := by
  obtain ⟨⟨ident, optional, role⟩, hMem, hRole⟩ := D.exists_recordId
  cases role with
  | recordId => exact Cells.findSome?_isSome hMem (fun _ => rfl) record
  | sealed _ => cases hRole
  | plaintext _ => cases hRole

theorem isSome_storedId (stored : D.Stored) : (stored.findSome? Field.storedId).isSome := by
  obtain ⟨⟨ident, optional, role⟩, hMem, hRole⟩ := D.exists_recordId
  cases role with
  | recordId => exact Cells.findSome?_isSome hMem (fun _ => rfl) stored
  | sealed _ => cases hRole
  | plaintext _ => cases hRole

/-- The record ID of a record, and of a stored row. -/
def recordId (record : D.Record) : D.kind.Id :=
  (record.findSome? Field.plainId).get (D.isSome_plainId record)

def storedId (stored : D.Stored) : D.kind.Id :=
  (stored.findSome? Field.storedId).get (D.isSome_storedId stored)

end Declaration

section

variable (prim : Primitives) {kind : RecordKind}

/-- Derives the column of a sealed field's blind index. -/
def Sealing.deriveColumn (sealing : Sealing) {optional : Bool}
    (value : Slot optional sealing.F.Value) (keys : RecordKeys) :
    Result (sealing.Column optional) :=
  match sealing, value with
  | ⟨_, some spec⟩, value => eachValue value fun value => do
    let keyring ← RecordKeys.recordBlindIndexKeyring keys
    BlindIndex.derive prim spec value (.keyring keyring)
  | ⟨_, none⟩, _ => .ok ()

/-- A field of the generated `seal`; `draw` is what the random source returned for the field
of each seal. -/
def Field.seal (id : kind.Id) (keys : RecordKeys) (draw : SealId → Option Nonce) :
    ∀ field : Field, field.Plain kind → Result (field.Stored kind)
  | ⟨_, _, .recordId⟩, stored => .ok stored
  | ⟨_, _, .plaintext _⟩, value => .ok value
  | ⟨_, _, .sealed sealing⟩, value => do
    let sealed ← eachValue value fun value =>
      Sealed.sealIn prim value id keys (draw sealing.F.id)
    let index ← sealing.deriveColumn prim value keys
    return ⟨sealed, index⟩

/-- A field of the generated `open`. -/
def Field.open (id : kind.Id) (keys : EncryptionKeys) :
    ∀ field : Field, field.Stored kind → Result (field.Plain kind)
  | ⟨_, _, .recordId⟩, stored => .ok stored
  | ⟨_, _, .plaintext _⟩, value => .ok value
  | ⟨_, _, .sealed _⟩, stored =>
    eachValue stored.sealed fun value => value.openIn prim id keys

variable (D : Declaration)

/-- `Record::seal`. -/
def Declaration.seal (record : D.Record) (keys : RecordKeys) (draw : SealId → Option Nonce) :
    Result D.Stored :=
  record.mapM (Field.seal prim (D.recordId record) keys draw)

/-- `Record::open`: the blind indexes are not read. -/
def Declaration.open (stored : D.Stored) (keys : EncryptionKeys) : Result D.Record :=
  stored.mapM (Field.open prim (D.storedId stored) keys)

/-- `Record::open_expecting`: `expect` is asked before anything is decrypted. -/
def Declaration.openExpecting (stored : D.Stored) (keys : EncryptionKeys)
    (expect : D.Stored → Bool) : Result D.Record := do
  ensure (expect stored = true) .unexpectedRecord
  D.open prim stored keys

end

/-! ## Field by field -/

section

variable {prim : Primitives} {kind : RecordKind} {ident : String} {optional : Bool}
  {sealing : Sealing} {id : kind.Id} {keys : EncryptionKeys} {draw : SealId → Option Nonce}

theorem Field.seal_sealed_eq_ok {value : Slot optional sealing.F.Value}
    {stored : StoredField kind optional sealing} :
    Field.seal prim id keys draw ⟨ident, optional, .sealed sealing⟩ value = .ok stored ↔
      Option.Rel (fun value sealed =>
          Sealed.sealIn prim value id keys (draw sealing.F.id) = .ok sealed)
        (Slot.get? value) stored.sealed.get? ∧
      sealing.deriveColumn prim value keys = .ok stored.index := by
  rw [← eachValue_eq_ok]
  unfold Field.seal
  constructor
  · intro h
    obtain ⟨sealed, hSealed, h⟩ := bind_eq_ok.mp h
    obtain ⟨index, hIndex, h⟩ := bind_eq_ok.mp h
    obtain rfl := pure_eq_ok.mp h
    exact ⟨hSealed, hIndex⟩
  · intro h
    obtain ⟨hSealed, hIndex⟩ := h
    exact bind_eq_ok.mpr ⟨_, hSealed, bind_eq_ok.mpr ⟨_, hIndex, rfl⟩⟩

theorem Field.open_sealed_eq_ok {stored : StoredField kind optional sealing}
    {value : Slot optional sealing.F.Value} :
    Field.open prim id keys ⟨ident, optional, .sealed sealing⟩ stored = .ok value ↔
      Option.Rel (fun sealed value => Sealed.openIn prim sealed id keys = .ok value)
        stored.sealed.get? (Slot.get? value) :=
  eachValue_eq_ok

/-- A sealed field opens to its value, for whoever has the writer's key. -/
theorem Field.open_seal (hAead : prim.DecryptsEncrypted) {field : Field} {writer : RecordKeys}
    (hCodec : ∀ sealing, field.sealing = some sealing → sealing.F.codec.RoundTrips)
    (hKey : keys.encryptionKeyring.get writer.encryptionKeyring.current.id
      = some writer.encryptionKeyring.current)
    {value : field.Plain kind} {stored : field.Stored kind}
    (h : Field.seal prim id writer draw field value = .ok stored) :
    Field.open prim id keys field stored = .ok value := by
  obtain ⟨ident, optional, role⟩ := field
  cases role with
  | recordId => exact congrArg Except.ok (Except.ok.inj h).symm
  | plaintext T => exact congrArg Except.ok (Except.ok.inj h).symm
  | sealed sealing =>
    have hSealed := (Field.seal_sealed_eq_ok.mp h).1
    apply Field.open_sealed_eq_ok.mpr
    generalize stored.sealed.get? = sealed at hSealed ⊢
    generalize Slot.get? value = present at hSealed ⊢
    cases hSealed with
    | none => exact .none
    | some hSeal => exact .some (Sealed.openUnder_sealUnder hAead (hCodec sealing rfl) hSeal hKey)

/-- Sealing keeps the record ID at its field. -/
theorem Field.storedId_of_seal {field : Field} {value : field.Plain kind}
    {stored : field.Stored kind} (h : Field.seal prim id keys draw field value = .ok stored) :
    storedId field stored = plainId field value := by
  obtain ⟨ident, optional, role⟩ := field
  cases role with
  | recordId =>
    obtain rfl := Except.ok.inj h
    rfl
  | plaintext T => rfl
  | sealed sealing => rfl

theorem Field.plainId_of_open {field : Field} {stored : field.Stored kind}
    {value : field.Plain kind} (h : Field.open prim id keys field stored = .ok value) :
    plainId field value = storedId field stored := by
  obtain ⟨ident, optional, role⟩ := field
  cases role with
  | recordId =>
    obtain rfl := Except.ok.inj h
    rfl
  | plaintext T => rfl
  | sealed sealing => rfl

end

namespace Declaration

variable {prim : Primitives} {D : Declaration} {record : D.Record} {stored : D.Stored}
  {keys : EncryptionKeys} {draw : SealId → Option Nonce}

/-- **Sealing**, at every field under the row's record ID. -/
theorem seal_eq_ok :
    D.seal prim record keys draw = .ok stored ↔
      ∀ (field : Field) (p : Pos field D.fields),
        Field.seal prim (D.recordId record) keys draw field (record.get p)
          = .ok (stored.get p) :=
  Cells.mapM_eq_ok

/-- **Opening**, at every field under the row's stored record ID. -/
theorem open_eq_ok :
    D.open prim stored keys = .ok record ↔
      ∀ (field : Field) (p : Pos field D.fields),
        Field.open prim (D.storedId stored) keys field (stored.get p) = .ok (record.get p) :=
  Cells.mapM_eq_ok

theorem storedId_of_seal (h : D.seal prim record keys draw = .ok stored) :
    D.storedId stored = D.recordId record := by
  have hSame : stored.findSome? Field.storedId = record.findSome? Field.plainId :=
    Cells.findSome?_congr fun field p => Field.storedId_of_seal (seal_eq_ok.mp h field p)
  unfold storedId recordId
  simp only [hSame]

/-- **A record opens as itself**, for whoever has the writer's key. -/
theorem open_seal (hAead : prim.DecryptsEncrypted) (hCodec : ∀ F ∈ D.seals, F.codec.RoundTrips)
    {writer : RecordKeys} (h : D.seal prim record writer draw = .ok stored)
    (hKey : keys.encryptionKeyring.get writer.encryptionKeyring.current.id
      = some writer.encryptionKeyring.current) :
    D.open prim stored keys = .ok record := by
  apply open_eq_ok.mpr
  intro field p
  rw [storedId_of_seal h]
  refine Field.open_seal hAead (fun sealing hSealing => ?_) hKey (seal_eq_ok.mp h field p)
  exact hCodec _ (List.mem_filterMap.mpr ⟨field, p.mem, by rw [hSealing]; rfl⟩)

theorem recordId_of_open (h : D.open prim stored keys = .ok record) :
    D.recordId record = D.storedId stored := by
  have hSame : record.findSome? Field.plainId = stored.findSome? Field.storedId :=
    Cells.findSome?_congr fun field p => Field.plainId_of_open (open_eq_ok.mp h field p)
  unfold storedId recordId
  simp only [hSame]

end Declaration

/-! ## The record of the vectors -/

namespace Vectors

/-- The i64 record with one sealed field, which has a blind index. -/
def recordFields : List Field :=
  [⟨"id", false, .recordId⟩, ⟨"value", false, .sealed ⟨vectorSeal, some vectorIndex⟩⟩]

theorem checkRecord_recordFields : checkRecord "Customer" recordFields = [] := by decide +kernel

def declaration : Declaration := ⟨"Customer", .i64, recordFields, checkRecord_recordFields⟩

theorem declaration_roundTrips : ∀ F ∈ declaration.seals, F.codec.RoundTrips := by
  show ∀ F ∈ [vectorSeal], _
  intro F hF
  obtain rfl := List.mem_singleton.mp hF
  exact roundTrips

/-- The seal context of the field in the record with ID 7. -/
def recordContext : Bytes := standaloneContext.take 16 ++ be 15 0x000102000000080000000000000007

def recordHead : Bytes :=
  be 31 0x4342580002010011111111222243338444555555555555af72b9c5219cf83b ++ nonce.val

/-- `RECORD`. -/
def recordEnvelope : Bytes :=
  recordHead ++ be 31 0x3270eb8abb2f33a5b07fed7df8e4f670ee1d691d5adf05262912af97de476a

def knownRecord : KnownAnswers where
  hashes := (fingerprintLabel ++ [0, 1, 2],
    beBlock 32 0xaf72b9c5219cf83bafe99ece5668a3a7751443232ac0971d72cac433fe2455e0) :: known.hashes
  macs := known.macs
  aead := {
    key := operationalKey recordContext
    nonce := nonce
    aad := envelopeAadLabel ++ recordHead ++ recordContext
    plaintext := plaintext.val
    ciphertext := ⟨be 15 0x3270eb8abb2f33a5b07fed7df8e4f6, rfl⟩
    tag := beBlock 16 0x70ee1d691d5adf05262912af97de476a } :: known.aead
  unambiguous := by decide

def recordPrim : Primitives := .answering knownRecord

def recordKeys : RecordKeys := .keys ⟨encryptionKeyring, some indexKeyring⟩

/-- The record with ID `id` and the plaintext of the vectors. -/
def record (id : Int64) : declaration.Record := ((id, plaintext, ⟨⟩) : Int64 × Vec × PUnit)

theorem seal_recordPlaintext :
    Bound.seal recordPrim (@SealContext.of recordPrim vectorSeal .i64 7) .none plaintext.val
      encryptionKeyring (some nonce) = .ok recordEnvelope := by decide +kernel

/-- The sealed field as a row stores it. -/
abbrev StoredValue : Type := StoredField .i64 false ⟨vectorSeal, some vectorIndex⟩

def stored (id : Int64) (value : StoredValue) : declaration.Stored :=
  ((id, value, ⟨⟩) : Int64 × StoredValue × PUnit)

def recordOf (id : Int64) (value : Vec) : declaration.Record :=
  ((id, value, ⟨⟩) : Int64 × Vec × PUnit)

/-- A record is stored as the envelope and the index of its value. -/
theorem exists_seal_value {prim : Primitives} (keys : RecordKeys) {ring : BlindIndexKeyring}
    (id : Int64) (value : Vec) {envelope index : Bytes}
    (hRing : RecordKeys.recordBlindIndexKeyring keys = .ok ring)
    (hSeal : Bound.seal prim (@SealContext.of prim vectorSeal .i64 id) .none value.val
      keys.encryptionKeyring (some nonce) = .ok envelope)
    (hDerive : BlindIndex.asBytes <$> BlindIndex.derive prim vectorIndex value (.keyring ring)
      = .ok index) :
    ∃ cell : StoredValue, cell.sealed.asBytes = envelope ∧
      (show BlindIndex vectorIndex from cell.index).asBytes = index ∧
      declaration.seal prim (recordOf id value) keys (fun _ => some nonce)
        = .ok (stored id cell) := by
  obtain ⟨column, hDerive, hColumn⟩ := map_eq_ok.mp hDerive
  let s : Sealed vectorSeal (some .i64) := ⟨envelope, inspectCiphertext_seal hSeal⟩
  have hSealed : Sealed.sealIn prim value (id : RecordKind.i64.Id) keys (some nonce) = .ok s :=
    Sealed.sealUnder_eq_ok.mpr ⟨value, rfl, hSeal⟩
  have hIndex : (do
      let ring ← RecordKeys.recordBlindIndexKeyring keys
      BlindIndex.derive prim vectorIndex value (.keyring ring)) = .ok column := by
    rw [hRing]
    exact hDerive
  refine ⟨⟨s, column⟩, rfl, hColumn, Declaration.seal_eq_ok.mpr ?_⟩
  show ∀ (field : Field) (p : Pos field [_, _]), _
  rintro field (_ | _ | _ | p)
  · rfl
  · exact Field.seal_sealed_eq_ok.mpr ⟨.some hSealed, hIndex⟩

/-- The record with ID 7 is stored as the record vector and the index of the plaintext. -/
theorem exists_seal_record :
    ∃ value : StoredValue, value.sealed.asBytes = recordEnvelope ∧
      (show BlindIndex vectorIndex from value.index).asBytes = index ∧
      declaration.seal recordPrim (record 7) recordKeys (fun _ => some nonce)
        = .ok (stored 7 value) :=
  exists_seal_value recordKeys 7 plaintext rfl seal_recordPlaintext (by decide +kernel)

end Vectors

end Cryptbox

import Cryptbox.Record
import Cryptbox.Migrate.Rewrite

/-!
# Encrypted search

`record.rs`, `Index`. A lookup derives the probes of a query, the store selects the rows whose
index column is one of them, and the candidates are opened and compared with the query. Rows
get to the store in several ways (`WrittenRow`): sealed as a record, with an index column
derived on its own, or rewritten by a planner. Whatever way they came, the lookup returns
what a search over the plaintext records returns.

* `Readable`: what a reader needs of a stored row.
* `WrittenRow.readable`: every way of writing a row leaves it so.
* `Index.search_refines`: encrypted search is plaintext search.
-/

namespace Cryptbox

open Base Envelope

/-- `Some(value)` for an optional field, and `value` for any other. -/
def Slot.of : {optional : Bool} → {T : Type} → T → Slot optional T
  | true, _, value => some value
  | false, _, value => value

@[simp] theorem Slot.get?_of {optional : Bool} {T : Type} (value : T) :
    (Slot.of value : Slot optional T).get? = some value := by
  cases optional <;> rfl

/-- A blind index of a record: the field it is written by, and where it stands. -/
structure Index (D : Declaration) where
  ident : String
  optional : Bool
  F : Seal
  spec : BlindIndexSpec F
  position : Pos ⟨ident, optional, .sealed ⟨F, some spec⟩⟩ D.fields

namespace Index

variable {D : Declaration} (ix : Index D)

/-- The columns of a sealed field whose value is present. -/
def present (sealed : Sealed ix.F (some D.kind)) (column : BlindIndex ix.spec) :
    StoredField D.kind ix.optional ⟨ix.F, some ix.spec⟩ :=
  ⟨Slot.of sealed, (Slot.of column : Slot ix.optional (BlindIndex ix.spec))⟩

/-- The value of the indexed field, unless it is absent. -/
def value (record : D.Record) : Option ix.F.Value :=
  @Slot.get? ix.optional ix.F.Value (record.get ix.position)

def field (stored : D.Stored) : StoredField D.kind ix.optional ⟨ix.F, some ix.spec⟩ :=
  stored.get ix.position

/-- The index column of a row, unless it is empty. -/
def column (stored : D.Stored) : Option (BlindIndex ix.spec) :=
  @Slot.get? ix.optional (BlindIndex ix.spec) (ix.field stored).index

variable (prim : Primitives)

/-- The probes of a query, one for each readable index key. -/
def probes (query : ix.spec.Query) (keys : BlindIndexKeys) :
    Result (List (BlindIndex ix.spec)) :=
  probesIn prim ix.spec query (indexContext prim ix.F) keys

/-- What `open_matching` makes of one row: nothing for a row that does not match. -/
def openRow (query : ix.spec.Query) (keys : EncryptionKeys) (row : D.Stored) :
    Result (Option (Except Error D.Record)) :=
  match D.open prim row keys with
  | .error (.err e) => .ok (some (.error e))
  | .error .panic => panics
  | .ok record =>
    match (ix.value record).map fun value => BlindIndex.verifyCandidate ix.spec query value with
    | none | some (.ok false) => .ok none
    | some (.ok true) => .ok (some (.ok record))
    | some (.error (.err e)) => .ok (some (.error e))
    | some (.error .panic) => panics

/-- The loop of `open_matching`. -/
def openRows (query : ix.spec.Query) (keys : EncryptionKeys) :
    List D.Stored → Result (List (Except Error D.Record))
  | [] => .ok []
  | row :: rows => do
    let entry ← ix.openRow prim query keys row
    let entries ← openRows query keys rows
    return entry.toList ++ entries

/-- Opens the candidate rows of a lookup and keeps the matches. -/
def openMatching (query : ix.spec.Query) (rows : List D.Stored) (keys : EncryptionKeys) :
    Result (List (Except Error D.Record)) := do
  let _ ← mapErr (ix.spec.normalizeQuery query) .blindIndexNormalizationFailed
  ix.openRows prim query keys rows

/-- What the store selects: the rows whose index column is one of the probes. -/
def isCandidate (probes : List (BlindIndex ix.spec)) (stored : D.Stored) : Bool :=
  match ix.column stored with
  | some column => decide (column ∈ probes)
  | none => false

/-- What a search over plaintext records selects: the indexed field is present, and its
normalized value is the normalized query. -/
def isMatch (normalized : Vec) (record : D.Record) : Bool :=
  match ix.value record with
  | some value =>
    match ix.spec.normalizeValue value with
    | .ok candidate => decide (candidate = normalized)
    | .error _ => false
  | none => false

end Index

/-- A planner that maintains the indexed field, with its index as column `k`, and writes with
keys that the reader has too. -/
structure Index.MaintainedBy {prim : Primitives} {D : Declaration} (ix : Index D)
    (keys : EncryptionKeys) (keyring : BlindIndexKeyring) {R : Type}
    (planner : RowPlanner prim ix.F R) (k : Nat) : Prop where
  writes : keys.encryptionKeyring.get planner.keys.current.id = some planner.keys.current
  derives : ∃ column, planner.indexes[k]? = some column ∧ column.spec = ix.spec ∧
    ∀ ring, column.source.blindIndexKeyring = .ok ring →
      keyring.get ring.current.id = some ring.current

/-- The ways to write the indexed field anew for the value it has in the record with ID `id`:
its index is derived, a planner rewrites the row, or a planner seals the value it recovers
from legacy bytes. -/
inductive Index.Rewrite (prim : Primitives) {D : Declaration} (ix : Index D)
    (keys : EncryptionKeys) (keyring : BlindIndexKeyring) (id : D.kind.Id) (value : ix.F.Value)
    (oldSealed : Sealed ix.F (some D.kind)) (oldColumn : BlindIndex ix.spec) :
    Sealed ix.F (some D.kind) → BlindIndex ix.spec → Prop
  | derived {indexKeys : BlindIndexKeys} {column : BlindIndex ix.spec}
      (hGet : ∀ ring, indexKeys.blindIndexKeyring = .ok ring →
        keyring.get ring.current.id = some ring.current)
      (hDerive : BlindIndex.derive prim ix.spec value indexKeys = .ok column) :
      Rewrite prim ix keys keyring id value oldSealed oldColumn oldSealed column
  | planned {R : Type} {planner : RowPlanner prim ix.F R} {row : R} {k : Nat}
      {indexes : List Bytes} {draw : Option Nonce} {outcome : RowOutcome} {write : RowWrite}
      {sealed : Sealed ix.F (some D.kind)} {column : BlindIndex ix.spec}
      (hPlanner : ix.MaintainedBy keys keyring planner k)
      (hRow : planner.recordId row = some (D.kind.recordValue id))
      -- The planner reads the envelope with the key that wrote it.
      (hReads : ∀ l, Supported l → oldSealed.asBytes = l.bytes →
        planner.keys.get l.keyId = keys.encryptionKeyring.get l.keyId)
      (hIndex : indexes[k]? = some oldColumn.asBytes)
      (hPlan : planner.planRow row oldSealed.asBytes indexes draw = .ok outcome)
      (hWrite : outcome.write = some write) (hSealed : sealed.asBytes = write.ciphertext)
      (hColumn : write.indexes[k]? = some column.asBytes) :
      Rewrite prim ix keys keyring id value oldSealed oldColumn sealed column
  | recovered {R : Type} {planner : RowPlanner prim ix.F R} {row : R} {k : Nat} {bytes : Bytes}
      {indexes : List Bytes} {draw : Option Nonce} {outcome : RowOutcome} {write : RowWrite}
      {plaintext : Bytes} {sealed : Sealed ix.F (some D.kind)} {column : BlindIndex ix.spec}
      (hPlanner : ix.MaintainedBy keys keyring planner k)
      (hRow : planner.recordId row = some (D.kind.recordValue id))
      (hLegacy : isCiphertext bytes = false)
      (hRecover : recover bytes planner.legacy = .ok plaintext)
      (hDecode : ix.F.codec.decode plaintext = .ok value)
      (hPlan : planner.planRow row bytes indexes draw = .ok outcome)
      (hWrite : outcome.write = some write) (hSealed : sealed.asBytes = write.ciphertext)
      (hColumn : write.indexes[k]? = some column.asBytes) :
      Rewrite prim ix keys keyring id value oldSealed oldColumn sealed column

/-- How a stored row was written from `record`, always with current keys that the reader has:
sealed as a record, and then its indexed field written anew any number of times. -/
inductive WrittenRow (prim : Primitives) {D : Declaration} (ix : Index D) (keys : EncryptionKeys)
    (keyring : BlindIndexKeyring) (record : D.Record) : D.Stored → Prop
  | sealed {writer : RecordKeys} {draw : SealId → Option Nonce} {stored : D.Stored}
      (hKey : keys.encryptionKeyring.get writer.encryptionKeyring.current.id
        = some writer.encryptionKeyring.current)
      (hIndexKey : ∀ ring, RecordKeys.recordBlindIndexKeyring writer = .ok ring →
        keyring.get ring.current.id = some ring.current)
      (hSeal : D.seal prim record writer draw = .ok stored) :
      WrittenRow prim ix keys keyring record stored
  | rewritten {stored : D.Stored} {value : ix.F.Value}
      {oldSealed sealed : Sealed ix.F (some D.kind)} {oldColumn column : BlindIndex ix.spec}
      (before : WrittenRow prim ix keys keyring record stored)
      (hValue : ix.value record = some value)
      (hSealed : (ix.field stored).sealed.get? = some oldSealed)
      (hColumn : ix.column stored = some oldColumn)
      (hRewrite : ix.Rewrite prim keys keyring (D.recordId record) value oldSealed oldColumn
        sealed column) :
      WrittenRow prim ix keys keyring record (stored.set ix.position (ix.present sealed column))

/-- What a reader with `keys` and the index keys `keyring` needs of a stored row: it opens to
its record, and the index column is the one of the field's value under a key of the
keyring. -/
structure Readable (prim : Primitives) {D : Declaration} (ix : Index D) (keys : EncryptionKeys)
    (keyring : BlindIndexKeyring) (record : D.Record) (stored : D.Stored) : Prop where
  opens : D.open prim stored keys = .ok record
  indexed : Option.Rel
    (fun value column => column.isConsistentWith prim value (.keyring keyring) = .ok true)
    (ix.value record) (ix.column stored)

section

variable {prim : Primitives} {D : Declaration} {ix : Index D} {keys : EncryptionKeys}
  {keyring : BlindIndexKeyring} {record : D.Record} {stored : D.Stored}

/-! ## Search -/

/-- A readable row is kept when its record matches, and never reported as an error. -/
theorem Readable.openRow (h : Readable prim ix keys keyring record stored)
    {query : ix.spec.Query} {normalized : Vec}
    (hQuery : ix.spec.normalizeQuery query = .ok normalized) :
    ix.openRow prim query keys stored =
      .ok (if ix.isMatch normalized record then some (.ok record) else none) := by
  unfold Index.openRow Index.isMatch
  simp only [h.opens]
  cases hValue : ix.value record with
  | none => rfl
  | some value =>
    have hIndexed := h.indexed
    rw [hValue] at hIndexed
    generalize ix.column stored = column at hIndexed
    rcases hIndexed with hConsistent | _
    obtain ⟨id, ring, key, -, -, -, hDerive⟩ :=
      BlindIndex.isConsistentWith_eq_ok_true.mp hConsistent
    obtain ⟨candidate, hCandidate, -⟩ := BlindIndex.deriveValueWithKey_eq_ok.mp hDerive
    simp only [Option.map_some, BlindIndex.verifyCandidate_eq hQuery hCandidate, hCandidate]
    by_cases hSame : candidate = normalized
    · simp [hSame]
    · simp [hSame]

/-- A readable row that matches is a candidate. -/
theorem Readable.isCandidate (h : Readable prim ix keys keyring record stored)
    {query : ix.spec.Query} {normalized : Vec} {indexKeys : BlindIndexKeys}
    {probes : List (BlindIndex ix.spec)}
    (hQuery : ix.spec.normalizeQuery query = .ok normalized)
    (hKeys : indexKeys.blindIndexKeyring = .ok keyring)
    (hProbes : ix.probes prim query indexKeys = .ok probes)
    (hMatch : ix.isMatch normalized record = true) : ix.isCandidate probes stored = true := by
  have hIndexed := h.indexed
  unfold Index.isMatch at hMatch
  unfold Index.isCandidate
  generalize ix.value record = value at hIndexed hMatch
  generalize ix.column stored = column at hIndexed ⊢
  cases hIndexed with
  | none => cases hMatch
  | some hConsistent =>
    obtain ⟨id, ring, key, -, hRing, hGet, hDerive⟩ :=
      BlindIndex.isConsistentWith_eq_ok_true.mp hConsistent
    cases hRing
    obtain ⟨candidate, hCandidate, hDerive⟩ := BlindIndex.deriveValueWithKey_eq_ok.mp hDerive
    simp only [hCandidate, decide_eq_true_eq] at hMatch
    subst hMatch
    have hId : key.id = id := Ring.get_id hGet
    exact decide_eq_true (BlindIndex.mem_probesIn hProbes hQuery hKeys (hId ▸ hGet) hDerive)

/-- The candidates among readable rows open to the records that match, in order. -/
theorem Index.openRows_candidates {query : ix.spec.Query} {normalized : Vec}
    {indexKeys : BlindIndexKeys} {probes : List (BlindIndex ix.spec)}
    (hQuery : ix.spec.normalizeQuery query = .ok normalized)
    (hKeys : indexKeys.blindIndexKeyring = .ok keyring)
    (hProbes : ix.probes prim query indexKeys = .ok probes) {records : List D.Record}
    {rows : List D.Stored}
    (hRows : List.Forall₂ (Readable prim ix keys keyring) records rows) :
    ix.openRows prim query keys (rows.filter (ix.isCandidate probes))
      = .ok ((records.filter (ix.isMatch normalized)).map .ok) := by
  induction hRows with
  | nil => rfl
  | @cons record stored records rows hRow _ ih =>
    rw [List.filter_cons, List.filter_cons]
    by_cases hCandidate : ix.isCandidate probes stored = true
    · rw [if_pos hCandidate, Index.openRows, hRow.openRow hQuery, ok_bind, ih, ok_bind]
      by_cases hMatch : ix.isMatch normalized record = true
      · rw [if_pos hMatch, if_pos hMatch]
        rfl
      · rw [if_neg hMatch, if_neg hMatch]
        rfl
    · -- What the store does not select does not match.
      have hMatch : ¬ ix.isMatch normalized record = true := fun hMatch =>
        hCandidate (hRow.isCandidate hQuery hKeys hProbes hMatch)
      rw [if_neg hCandidate, if_neg hMatch, ih]

/-! ## Rows that stay readable -/

/-- Setting the columns of a sealed field keeps the record ID. -/
theorem Index.storedId_set (cell : StoredField D.kind ix.optional ⟨ix.F, some ix.spec⟩) :
    D.storedId (stored.set ix.position cell) = D.storedId stored := by
  have hSame : (stored.set ix.position cell).findSome? Field.storedId
      = stored.findSome? Field.storedId :=
    Cells.findSome?_congr (Cells.forall_set
      (P := fun field p cell => Field.storedId field cell = Field.storedId field (stored.get p))
      (fun _ _ => rfl) rfl)
  unfold Declaration.storedId
  simp only [hSame]

/-- A row stays readable when the indexed field gets an envelope that opens to its value and
an index that is consistent with it. -/
theorem Readable.set (h : Readable prim ix keys keyring record stored) {value : ix.F.Value}
    {sealed : Sealed ix.F (some D.kind)} {column : BlindIndex ix.spec}
    (hValue : ix.value record = some value)
    (hOpen : sealed.openIn prim (D.recordId record) keys = .ok value)
    (hConsistent : column.isConsistentWith prim value (.keyring keyring) = .ok true) :
    Readable prim ix keys keyring record (stored.set ix.position (ix.present sealed column)) where
  opens := by
    apply Declaration.open_eq_ok.mpr
    rw [Index.storedId_set]
    refine Cells.forall_set (P := fun field p cell =>
      Field.open prim (D.storedId stored) keys field cell = .ok (record.get p))
      (Declaration.open_eq_ok.mp h.opens) (Field.open_sealed_eq_ok.mpr ?_)
    show Option.Rel _ (Slot.get? (Slot.of sealed)) (ix.value record)
    rw [Slot.get?_of, hValue, ← Declaration.recordId_of_open h.opens]
    exact .some hOpen
  indexed := by
    have hField : ix.field (stored.set ix.position (ix.present sealed column))
        = ix.present sealed column := Cells.get_set_self ..
    rw [Index.column, hField, hValue]
    show Option.Rel _ _ (Slot.get? (Slot.of column))
    rw [Slot.get?_of]
    exact .some hConsistent

/-- A readable row's indexed envelope opens to the field's value. -/
theorem Readable.openIn (h : Readable prim ix keys keyring record stored) {value : ix.F.Value}
    {sealed : Sealed ix.F (some D.kind)} (hValue : ix.value record = some value)
    (hSealed : (ix.field stored).sealed.get? = some sealed) :
    sealed.openIn prim (D.recordId record) keys = .ok value := by
  have hField := Field.open_sealed_eq_ok.mp (Declaration.open_eq_ok.mp h.opens _ ix.position)
  have hField : Option.Rel (fun sealed value =>
      Sealed.openIn prim sealed (D.storedId stored) keys = .ok value)
      (ix.field stored).sealed.get? (ix.value record) := hField
  rw [hSealed, hValue] at hField
  rcases hField with hOpen | _
  rw [Declaration.recordId_of_open h.opens]
  exact hOpen

theorem Readable.consistent (h : Readable prim ix keys keyring record stored) {value : ix.F.Value}
    {column : BlindIndex ix.spec} (hValue : ix.value record = some value)
    (hColumn : ix.column stored = some column) :
    column.isConsistentWith prim value (.keyring keyring) = .ok true := by
  have hIndexed := h.indexed
  rw [hValue, hColumn] at hIndexed
  rcases hIndexed with hConsistent | _
  exact hConsistent

/-- What a maintained column derives is consistent for the reader. -/
theorem Index.MaintainedBy.consistent {R : Type} {planner : RowPlanner prim ix.F R} {k : Nat}
    (h : ix.MaintainedBy keys keyring planner k) {c : IndexColumn prim ix.F}
    (hRegistered : planner.indexes[k]? = some c) {value : ix.F.Value} {column : BlindIndex ix.spec}
    (hDerive : c.derive value = .ok column.asBytes) :
    column.isConsistentWith prim value (.keyring keyring) = .ok true := by
  obtain ⟨c', hRegistered', hSpec, hGet⟩ := h.derives
  cases hRegistered.symm.trans hRegistered'
  obtain ⟨derived, hDerived, hBytes⟩ := IndexColumn.derive_eq_ok.mp hDerive
  generalize c.spec = spec at hSpec derived hDerived hBytes
  subst hSpec
  obtain rfl := BlindIndex.ext_bytes hBytes
  exact BlindIndex.isConsistentWith_of_get hDerived rfl hGet

/-- A planner's rewrite of the field leaves it readable. -/
theorem Index.planned_readable (hAead : prim.DecryptsEncrypted) {id : D.kind.Id}
    {value : ix.F.Value} {oldSealed sealed : Sealed ix.F (some D.kind)}
    {oldColumn column : BlindIndex ix.spec} {R : Type} {planner : RowPlanner prim ix.F R} {row : R}
    {k : Nat} {indexes : List Bytes} {draw : Option Nonce} {outcome : RowOutcome}
    {write : RowWrite} (hPlanner : ix.MaintainedBy keys keyring planner k)
    (hRow : planner.recordId row = some (D.kind.recordValue id))
    (hReads : ∀ l, Supported l → oldSealed.asBytes = l.bytes →
      planner.keys.get l.keyId = keys.encryptionKeyring.get l.keyId)
    (hIndex : indexes[k]? = some oldColumn.asBytes)
    (hPlan : planner.planRow row oldSealed.asBytes indexes draw = .ok outcome)
    (hWrite : outcome.write = some write) (hSealed : sealed.asBytes = write.ciphertext)
    (hColumn : write.indexes[k]? = some column.asBytes)
    (hOld : oldSealed.openIn prim id keys = .ok value)
    (hOldColumn : oldColumn.isConsistentWith prim value (.keyring keyring) = .ok true) :
    sealed.openIn prim id keys = .ok value ∧
      column.isConsistentWith prim value (.keyring keyring) = .ok true := by
  have hContext : planner.context row = .of prim ix.F id :=
    congrArg (SealContext.new prim ix.F.id) hRow
  obtain ⟨plaintext, hOpen, hDecode⟩ := Sealed.openUnder_eq_ok.mp hOld
  obtain ⟨hArity, ⟨rfl, -⟩ | ⟨write', plaintext', rfl, hRewrite⟩ |
    ⟨write', recovered, value', encoded, rfl, hRewrite⟩⟩ := RowPlanner.planRow_cases hPlan
  · cases hWrite
  · obtain rfl := Option.some.inj hWrite
    have hOpens := hRewrite.opens
    have hCiphertext := hRewrite.ciphertext
    rw [hContext] at hOpens hCiphertext
    -- Planner and reader read with the same key, so they read the same plaintext.
    rw [Bound.open_congr hReads, hOpen] at hOpens
    obtain rfl := Except.ok.inj hOpens
    constructor
    · refine Sealed.openUnder_eq_ok.mpr ⟨plaintext, ?_, hDecode⟩
      rw [hSealed]
      rcases hCiphertext with ⟨-, hSeal⟩ | ⟨-, hKept⟩
      · exact Bound.open_seal hAead hSeal hPlanner.writes
      · rw [hKept]
        exact hOpen
    · obtain ⟨c, hRegistered, -⟩ := hPlanner.derives
      have hZip : (planner.indexes.zip indexes)[k]? = some (c, oldColumn.asBytes) :=
        List.getElem?_zip_eq_some.mpr ⟨hRegistered, hIndex⟩
      have hNew := forall₂_getElem? hRewrite.indexes hZip hColumn
      generalize hBytes : column.asBytes = new at hNew
      cases hNew with
      | kept hFresh => rwa [BlindIndex.ext_bytes hBytes]
      | derived hStale hDecode' hDerive =>
        cases hDecode.symm.trans hDecode'
        exact hPlanner.consistent hRegistered (hBytes ▸ hDerive)
  · have hLegacy := hRewrite.legacy
    rw [Bound.isCiphertext_of_open hOpen] at hLegacy
    cases hLegacy

/-- What a planner seals for a value it recovered from legacy bytes is readable. -/
theorem Index.recovered_readable (hAead : prim.DecryptsEncrypted) (hCodec : ix.F.codec.RoundTrips)
    {id : D.kind.Id} {value : ix.F.Value} {sealed : Sealed ix.F (some D.kind)}
    {column : BlindIndex ix.spec} {R : Type} {planner : RowPlanner prim ix.F R} {row : R} {k : Nat}
    {bytes plaintext : Bytes} {indexes : List Bytes} {draw : Option Nonce} {outcome : RowOutcome}
    {write : RowWrite} (hPlanner : ix.MaintainedBy keys keyring planner k)
    (hRow : planner.recordId row = some (D.kind.recordValue id))
    (hLegacy : isCiphertext bytes = false)
    (hRecover : recover bytes planner.legacy = .ok plaintext)
    (hDecode : ix.F.codec.decode plaintext = .ok value)
    (hPlan : planner.planRow row bytes indexes draw = .ok outcome)
    (hWrite : outcome.write = some write) (hSealed : sealed.asBytes = write.ciphertext)
    (hColumn : write.indexes[k]? = some column.asBytes) :
    sealed.openIn prim id keys = .ok value ∧
      column.isConsistentWith prim value (.keyring keyring) = .ok true := by
  have hContext : planner.context row = .of prim ix.F id :=
    congrArg (SealContext.new prim ix.F.id) hRow
  obtain ⟨-, ⟨rfl, -⟩ | ⟨write', plaintext', rfl, hRewrite⟩ |
    ⟨write', recovered, value', encoded, rfl, hRewrite⟩⟩ := RowPlanner.planRow_cases hPlan
  · cases hWrite
  · rw [Bound.isCiphertext_of_open hRewrite.opens] at hLegacy
    cases hLegacy
  · obtain rfl := Option.some.inj hWrite
    cases hRecover.symm.trans hRewrite.recovered
    cases hDecode.symm.trans hRewrite.decoded
    have hSeal := hRewrite.sealed
    rw [hContext] at hSeal
    constructor
    · refine Sealed.openUnder_eq_ok.mpr ⟨encoded.val, ?_, hCodec _ _ hRewrite.encodes⟩
      rw [hSealed]
      exact Bound.open_seal hAead hSeal hPlanner.writes
    · obtain ⟨c, hRegistered, -⟩ := hPlanner.derives
      exact hPlanner.consistent hRegistered (forall₂_getElem? hRewrite.derived hRegistered hColumn)

/-- A sealed record is readable. -/
theorem Readable.of_seal (hAead : prim.DecryptsEncrypted)
    (hCodec : ∀ F ∈ D.seals, F.codec.RoundTrips) {writer : RecordKeys}
    {draw : SealId → Option Nonce}
    (hKey : keys.encryptionKeyring.get writer.encryptionKeyring.current.id
      = some writer.encryptionKeyring.current)
    (hIndexKey : ∀ ring, RecordKeys.recordBlindIndexKeyring writer = .ok ring →
      keyring.get ring.current.id = some ring.current)
    (hSeal : D.seal prim record writer draw = .ok stored) :
    Readable prim ix keys keyring record stored := by
  refine ⟨Declaration.open_seal hAead hCodec hSeal hKey, ?_⟩
  have hField := (Field.seal_sealed_eq_ok.mp (Declaration.seal_eq_ok.mp hSeal _ ix.position)).2
  have hDerived : Option.Rel (fun value column => (do
      let ring ← RecordKeys.recordBlindIndexKeyring writer
      BlindIndex.derive prim ix.spec value (.keyring ring)) = .ok column)
      (ix.value record) (ix.column stored) := eachValue_eq_ok.mp hField
  generalize ix.value record = value at hDerived ⊢
  generalize ix.column stored = column at hDerived ⊢
  cases hDerived with
  | none => exact .none
  | some hDerive =>
    obtain ⟨ring, hRing, hDerive⟩ := bind_eq_ok.mp hDerive
    refine .some (BlindIndex.isConsistentWith_of_get hDerive rfl ?_)
    rintro ring' ⟨⟩
    exact hIndexKey ring hRing

/-- **However a row was written, it is readable.** -/
theorem WrittenRow.readable (hAead : prim.DecryptsEncrypted)
    (hCodec : ∀ F ∈ D.seals, F.codec.RoundTrips)
    (h : WrittenRow prim ix keys keyring record stored) :
    Readable prim ix keys keyring record stored := by
  have hF : ix.F ∈ D.seals := List.mem_filterMap.mpr ⟨_, ix.position.mem, rfl⟩
  induction h with
  | sealed hKey hIndexKey hSeal => exact .of_seal hAead hCodec hKey hIndexKey hSeal
  | rewritten before hValue hSealed hColumn hRewrite ih =>
    have hOld := ih.openIn hValue hSealed
    have hOldColumn := ih.consistent hValue hColumn
    cases hRewrite with
    | derived hGet hDerive =>
      exact ih.set hValue hOld (BlindIndex.isConsistentWith_of_get hDerive rfl hGet)
    | planned hPlanner hRow hReads hIndex hPlan hWrite hNew hNewColumn =>
      obtain ⟨hOpen, hConsistent⟩ := Index.planned_readable hAead hPlanner hRow hReads hIndex hPlan
        hWrite hNew hNewColumn hOld hOldColumn
      exact ih.set hValue hOpen hConsistent
    | recovered hPlanner hRow hLegacy hRecover hDecode hPlan hWrite hNew hNewColumn =>
      obtain ⟨hOpen, hConsistent⟩ := Index.recovered_readable hAead (hCodec _ hF) hPlanner hRow
        hLegacy hRecover hDecode hPlan hWrite hNew hNewColumn
      exact ih.set hValue hOpen hConsistent

end

/-- **Encrypted search is plaintext search**: the candidates that the store selects by the
probes of a query open, all of them, and what is kept is exactly the records that match, in
their order. -/
theorem Index.search_refines {prim : Primitives} (hTotal : prim.Total)
    (hAead : prim.DecryptsEncrypted) {D : Declaration}
    (hCodec : ∀ F ∈ D.seals, F.codec.RoundTrips)
    {ix : Index D} {keys : EncryptionKeys} {indexKeys : BlindIndexKeys}
    {keyring : BlindIndexKeyring}
    (hKeys : indexKeys.blindIndexKeyring = .ok keyring) {records : List D.Record}
    {rows : List D.Stored}
    (hRows : List.Forall₂ (WrittenRow prim ix keys keyring) records rows) {query : ix.spec.Query}
    {normalized : Vec} (hQuery : ix.spec.normalizeQuery query = .ok normalized) :
    ∃ probes, ix.probes prim query indexKeys = .ok probes ∧
      ix.openMatching prim query (rows.filter (ix.isCandidate probes)) keys
        = .ok ((records.filter (ix.isMatch normalized)).map .ok) := by
  obtain ⟨probes, hProbes⟩ :=
    BlindIndex.exists_probesIn hTotal hQuery hKeys (indexContext prim ix.F)
  refine ⟨probes, hProbes, ?_⟩
  unfold openMatching
  rw [hQuery]
  exact openRows_candidates hQuery hKeys hProbes (hRows.imp fun _ _ h => h.readable hAead hCodec)

/-! ## A search over three records

The records 7 and 8 hold the plaintext of the vectors; 8 was written with the keys of the
earlier generation. Record 9 holds another value with the same index. -/

namespace Vectors

/-- The blind index of the record of the vectors. -/
def recordIndex : Index declaration :=
  ⟨"value", false, vectorSeal, vectorIndex, .there .here⟩

def contextEight : Bytes := standaloneContext.take 16 ++ be 15 0x000102000000080000000000000008

def contextNine : Bytes := standaloneContext.take 16 ++ be 15 0x000102000000080000000000000009

def headEight : Bytes :=
  be 31 0x4342580002010099999999888847778666555555555555af72b9c5219cf83b ++ nonce.val

def knownSearch : KnownAnswers where
  hashes := knownRecord.hashes
  macs := knownDigests
  aead := {
    key := (previousKey.bytes.val, hkdfSalt,
      encryptionKeyLabel ++ [2, 1] ++ previousKey.id.asBytes.val ++ contextEight)
    nonce := nonce
    aad := envelopeAadLabel ++ headEight ++ contextEight
    plaintext := plaintext.val
    ciphertext := ⟨be 15 0xbb920a793311b33c4d4c6bc008e40e, rfl⟩
    tag := beBlock 16 0xb57300e54b7b8067ee0bc13338346978 } :: {
    key := operationalKey contextNine
    nonce := nonce
    aad := envelopeAadLabel ++ recordHead ++ contextNine
    plaintext := collision.val
    ciphertext := ⟨be 19 0x1f8fc85b293c5fed27372e1d2a5fea193020c8, rfl⟩
    tag := beBlock 16 0x0bb0b92b61c85be85a74f5595fd1bf52 } :: knownRecord.aead
  unambiguous := by decide

def searchPrim : Primitives := .answering knownSearch

/-- The keys before the rotation. -/
def previousKeys : RecordKeys := .keys ⟨.single previousKey, some (.single previousIndexKey)⟩

/-- The keys of the reader. -/
def rotatedKeys : RecordKeys := .keys ⟨rotatedKeyring, some rotatedIndexes⟩

theorem seal_seven : Bound.seal searchPrim (@SealContext.of searchPrim vectorSeal .i64 7) .none
    plaintext.val encryptionKeyring (some nonce) = .ok recordEnvelope := by decide +kernel

theorem seal_eight : Bound.seal searchPrim (@SealContext.of searchPrim vectorSeal .i64 8) .none
    plaintext.val (.single previousKey) (some nonce)
      = .ok (headEight
        ++ be 31 0xbb920a793311b33c4d4c6bc008e40eb57300e54b7b8067ee0bc13338346978) := by
  decide +kernel

theorem seal_nine : Bound.seal searchPrim (@SealContext.of searchPrim vectorSeal .i64 9) .none
    collision.val encryptionKeyring (some nonce)
      = .ok (recordHead
        ++ be 35 0x1f8fc85b293c5fed27372e1d2a5fea193020c80bb0b92b61c85be85a74f5595fd1bf52) := by
  decide +kernel

/-- The rows of the three records; the first and the last have one index. -/
theorem exists_search_rows :
    ∃ seven eight nine : StoredValue,
      List.Forall₂ (WrittenRow searchPrim recordIndex rotatedKeys rotatedIndexes)
        [recordOf 7 plaintext, recordOf 8 plaintext, recordOf 9 collision]
        [stored 7 seven, stored 8 eight, stored 9 nine] ∧
      recordIndex.column (stored 9 nine) = recordIndex.column (stored 7 seven) := by
  have hKey : rotatedKeys.encryptionKeyring.get recordKeys.encryptionKeyring.current.id
      = some recordKeys.encryptionKeyring.current := by decide +kernel
  have hPreviousKey : rotatedKeys.encryptionKeyring.get previousKeys.encryptionKeyring.current.id
      = some previousKeys.encryptionKeyring.current := by decide +kernel
  have hIndexKey : rotatedIndexes.get indexKey.id = some indexKey := by decide +kernel
  have hPreviousIndexKey : rotatedIndexes.get previousIndexKey.id = some previousIndexKey := by
    decide +kernel
  have hIndex : BlindIndex.asBytes <$> BlindIndex.derive searchPrim vectorIndex plaintext
      (.keyring indexKeyring) = .ok Vectors.index := by decide +kernel
  have hPreviousIndex : BlindIndex.asBytes <$> BlindIndex.derive searchPrim vectorIndex plaintext
      (.keyring (.single previousIndexKey)) = .ok previousIndex := by decide +kernel
  have hCollision : BlindIndex.asBytes <$> BlindIndex.derive searchPrim vectorIndex collision
      (.keyring indexKeyring) = .ok Vectors.index := by decide +kernel
  obtain ⟨seven, -, hSeven, hSealSeven⟩ :=
    exists_seal_value recordKeys 7 plaintext rfl seal_seven hIndex
  obtain ⟨eight, -, -, hSealEight⟩ :=
    exists_seal_value previousKeys 8 plaintext rfl seal_eight hPreviousIndex
  obtain ⟨nine, -, hNine, hSealNine⟩ :=
    exists_seal_value recordKeys 9 collision rfl seal_nine hCollision
  refine ⟨seven, eight, nine, .cons (.sealed hKey ?_ hSealSeven) (.cons
    (.sealed hPreviousKey ?_ hSealEight) (.cons (.sealed hKey ?_ hSealNine) .nil)), ?_⟩
  · rintro ring ⟨⟩
    exact hIndexKey
  · rintro ring ⟨⟩
    exact hPreviousIndexKey
  · rintro ring ⟨⟩
    exact hIndexKey
  · exact congrArg some (BlindIndex.ext_bytes (hNine.trans hSeven.symm))

end Vectors

open Vectors in
/-- A search for the plaintext finds the records of both generations. The store selects the row
of the other value too, and it is dropped. -/
theorem Index.search_refines_vector :
    ∃ (seven eight nine : StoredValue) (probes : List (BlindIndex recordIndex.spec)),
      recordIndex.probes searchPrim plaintext (.keyring rotatedIndexes) = .ok probes ∧
      recordIndex.isCandidate probes (stored 9 nine) = true ∧
      recordIndex.openMatching searchPrim plaintext
        ([stored 7 seven, stored 8 eight, stored 9 nine].filter (recordIndex.isCandidate probes))
        rotatedKeys = .ok [.ok (recordOf 7 plaintext), .ok (recordOf 8 plaintext)] := by
  obtain ⟨seven, eight, nine, hRows, hSame⟩ := exists_search_rows
  have hTotal : searchPrim.Total := KnownAnswers.primitives_total _
  have hAead : searchPrim.DecryptsEncrypted := KnownAnswers.decryptsEncrypted _
  have hKeys : (BlindIndexKeys.keyring rotatedIndexes).blindIndexKeyring = .ok rotatedIndexes := rfl
  have hQuery : recordIndex.spec.normalizeQuery plaintext = .ok plaintext := rfl
  obtain ⟨probes, hProbes, hSearch⟩ := Index.search_refines hTotal hAead declaration_roundTrips
    hKeys hRows hQuery
  have hReadable := (List.forall₂_cons.mp hRows).1.readable hAead declaration_roundTrips
  have hSeven : recordIndex.isCandidate probes (stored 7 seven) = true :=
    hReadable.isCandidate hQuery hKeys hProbes (by decide +kernel)
  have hNine : recordIndex.isCandidate probes (stored 9 nine) = true := by
    unfold Index.isCandidate at hSeven ⊢
    rwa [hSame]
  exact ⟨seven, eight, nine, probes, hProbes, hNine, hSearch⟩

end Cryptbox

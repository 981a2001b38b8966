import Cryptbox.Migrate.Invisible
import Cryptbox.Searchable
import Cryptbox.Stages

/-!
# The rows of the searchable application

What a row stores for a value, and the pairs it was written with. What a process reads and finds
depends on which of these pairs it has: a missing encryption pair is an error, and a missing
index pair hides the row from searches.

* `SealedBy.openRow`, `SealedBy.openRow_unknown`: opening a row with and without its pair.
* `rewrite_row`: a rewrite moves a row to the current pairs.
* `Snapshot.Agrees.get`, `Snapshot.Agrees.search`: what a process reads and finds.
-/

namespace Cryptbox.Searchable

open Base Envelope

variable {prim : Primitives} {app : Application}

/-! ## Rows and the keys they were written with -/

/-- The envelope of `value` that a writer with the current key `key` left. -/
def SealedBy (prim : Primitives) (app : Application) (key : EncryptionKey) (value : app.F.Value)
    (bytes : Bytes) : Prop :=
  ∃ encoded writer padding, app.F.codec.encode value = .ok encoded ∧ writer.current = key ∧
    Written prim (Place.standalone.context prim app.F) padding writer encoded.val bytes

/-- The index of `value` under `key`. -/
def IndexedBy (prim : Primitives) (app : Application) (key : BlindIndexKey) (value : app.F.Value)
    (bytes : Bytes) : Prop :=
  ∃ stored : BlindIndex app.spec, stored.asBytes = bytes ∧
    deriveValueWithKey prim app.spec value (indexContext prim app.F) key = .ok stored

/-- The process has both current pairs of the configuration, with the same material. -/
def Snapshot.Holds (keys target : Snapshot) : Prop :=
  keys.encryption.get target.encryption.current.id = some target.encryption.current ∧
    keys.indexes.get target.indexes.current.id = some target.indexes.current

/-- The planner of the application's sweeps, which recovers legacy rows during a migration. -/
def planner (prim : Primitives) (app : Application) (keys : Snapshot)
    (legacy : Option LegacyFormat) : RowPlanner prim app.F Unit :=
  let planner := (RowPlanner.new prim app.F Unit (.keyring keys.encryption)).withIndex app.spec
    (.keyring keys.indexes)
  legacy.elim planner planner.withLegacy

/-- The column of the planner. -/
def column (prim : Primitives) (app : Application) (keys : Snapshot) : IndexColumn prim app.F where
  context := indexContext prim app.F
  deriver := deriveIndexBytes prim app.spec
  keys := .ok keys.indexes
  spec := app.spec
  source := .keyring keys.indexes
  context_eq := rfl
  deriver_eq := rfl
  keys_eq := rfl

section

variable {keys : Snapshot} {legacy : Option LegacyFormat}

@[simp] theorem planner_keys : (planner prim app keys legacy).keys = keys.encryption := by
  cases legacy <;> rfl

@[simp] theorem planner_recordId : (planner prim app keys legacy).recordId () = none := by
  cases legacy <;> rfl

@[simp] theorem planner_indexes :
    (planner prim app keys legacy).indexes = [column prim app keys] := by
  cases legacy <;> rfl

@[simp] theorem planner_context :
    (planner prim app keys legacy).context () = Place.standalone.context prim app.F := by
  cases legacy <;> rfl

end

theorem sealedBy_of_seal (hAead : prim.DecryptsEncrypted) {value : app.F.Value} {keys : Snapshot}
    {draw : Option Nonce} {sealed : Sealed app.F none}
    (h : Sealed.seal prim value (.keyring keys.encryption) draw = .ok sealed) :
    SealedBy prim app keys.encryption.current value sealed.asBytes := by
  obtain ⟨encoded, hEncode, hSeal⟩ := Sealed.sealUnder_eq_ok.mp h
  exact ⟨encoded, keys.encryption, app.F.padding, hEncode, rfl, .of_seal hAead hSeal⟩

theorem indexedBy_of_derive {value : app.F.Value} {keys : Snapshot} {index : BlindIndex app.spec}
    (h : BlindIndex.derive prim app.spec value (.keyring keys.indexes) = .ok index) :
    IndexedBy prim app keys.indexes.current value index.asBytes := by
  obtain ⟨keyring, hKeys, hDerive⟩ := BlindIndex.deriveValue_eq_ok.mp h
  cases hKeys
  exact ⟨index, rfl, hDerive⟩

/-- Whoever holds the key opens the row. -/
theorem SealedBy.openRow (hCodec : app.F.codec.RoundTrips) {key : EncryptionKey}
    {value : app.F.Value} {row : UserRow} (h : SealedBy prim app key value row.email)
    {keys : EncryptionKeyring} (hKey : keys.get key.id = some key) :
    openRow prim app keys row = .ok value := by
  obtain ⟨encoded, writer, padding, hEncode, rfl, hWritten⟩ := h
  obtain ⟨sealed, hBytes, -⟩ := hWritten.fromBytes app.F.padding
  have hOpen : sealed.open prim (.keyring keys) = .ok value := by
    apply Sealed.openUnder_eq_ok.mpr
    rw [Sealed.fromBytes_eq_ok.mp hBytes]
    exact ⟨encoded.val, hWritten.opens keys hKey, hCodec _ _ hEncode⟩
  exact bind_eq_ok.mpr ⟨sealed, decodeColumn_eq_ok.mpr hBytes, crypt_eq_ok.mpr hOpen⟩

/-- Whoever lacks a pair of that ID is told so. -/
theorem SealedBy.openRow_unknown {key : EncryptionKey} {value : app.F.Value} {row : UserRow}
    (h : SealedBy prim app key value row.email) {keys : EncryptionKeyring}
    (hKey : keys.get key.id = none) :
    Searchable.openRow prim app keys row = .error (.cryptbox (.err (.unknownEncryptionKey key.id))) := by
  obtain ⟨encoded, writer, padding, -, rfl, hWritten⟩ := h
  obtain ⟨sealed, hBytes, -⟩ := hWritten.fromBytes app.F.padding
  obtain ⟨l, hFits, hLayout, hFingerprint, hKeyId, -⟩ :=
    Bound.needsReseal_eq_false.mp hWritten.current
  have hOpen : sealed.open prim (.keyring keys) =
      err (.unknownEncryptionKey writer.current.id) := by
    refine bind_eq_error.mpr (Or.inl ?_)
    rw [Sealed.fromBytes_eq_ok.mp hBytes]
    exact Bound.open_eq_unknownKey.mpr
      ⟨l, ⟨hFits, hFingerprint⟩, hLayout, hKeyId, Ring.get_eq_none.mp hKey⟩
  refine bind_eq_error.mpr (Or.inr ⟨sealed, decodeColumn_eq_ok.mpr hBytes, ?_⟩)
  exact congrArg crypt hOpen

/-- Whoever has the index among its probes has a pair of that ID. -/
theorem IndexedBy.readable {key : BlindIndexKey} {value : app.F.Value} {bytes : Bytes}
    (h : IndexedBy prim app key value bytes) {keys : BlindIndexKeyring} {query : app.spec.Query}
    {probes : List (BlindIndex app.spec)}
    (hProbes : BlindIndex.probes prim app.spec query (.keyring keys) = .ok probes)
    (hMem : bytes ∈ probes.map BlindIndex.asBytes) : (keys.get key.id).isSome := by
  obtain ⟨stored, rfl, hDerive⟩ := h
  obtain ⟨normalized, -, hStored⟩ := BlindIndex.deriveValueWithKey_eq_ok.mp hDerive
  obtain ⟨probe, hProbe, hBytes⟩ := List.mem_map.mp hMem
  obtain rfl := BlindIndex.ext_bytes hBytes
  obtain ⟨_, keyring, -, hKeyring, hRel⟩ := BlindIndex.probesIn_eq_ok.mp hProbes
  cases hKeyring
  obtain ⟨key', hReadable, hDerive'⟩ := forall₂_exists hRel.flip hProbe
  have hId : key'.id = key.id := Except.ok.inj
    ((BlindIndex.deriveNormalized_bytes hDerive').2.symm.trans
      (BlindIndex.deriveNormalized_bytes hStored).2)
  rw [← hId, Ring.mem_readable.mp hReadable]
  rfl

/-- Whoever holds the key has the index of a matching value among its probes. -/
theorem IndexedBy.mem_probes {key : BlindIndexKey} {value : app.F.Value} {bytes : Bytes}
    (h : IndexedBy prim app key value bytes) {keys : BlindIndexKeyring}
    (hKey : keys.get key.id = some key) {query : app.spec.Query} {normalized : Vec}
    (hQuery : app.spec.normalizeQuery query = .ok normalized)
    (hValue : app.spec.normalizeValue value = .ok normalized)
    {probes : List (BlindIndex app.spec)}
    (hProbes : BlindIndex.probes prim app.spec query (.keyring keys) = .ok probes) :
    bytes ∈ probes.map BlindIndex.asBytes := by
  obtain ⟨stored, rfl, hDerive⟩ := h
  obtain ⟨normalized', hNormalized, hDerive⟩ := BlindIndex.deriveValueWithKey_eq_ok.mp hDerive
  cases hValue.symm.trans hNormalized
  exact List.mem_map_of_mem (BlindIndex.mem_probesIn hProbes hQuery rfl hKey hDerive)

/-- What is indexed normalizes. -/
theorem IndexedBy.normalizes {key : BlindIndexKey} {value : app.F.Value} {bytes : Bytes}
    (h : IndexedBy prim app key value bytes) :
    ∃ normalized, app.spec.normalizeValue value = .ok normalized := by
  obtain ⟨stored, -, hDerive⟩ := h
  obtain ⟨normalized, hNormalized, -⟩ := BlindIndex.deriveValueWithKey_eq_ok.mp hDerive
  exact ⟨normalized, hNormalized⟩

/-- A row names the keys it was written with. -/
theorem SealedBy.generations {key : EncryptionKey} {indexKey : BlindIndexKey} {value : app.F.Value}
    {row : UserRow} (hSealed : SealedBy prim app key value row.email)
    (hIndexed : IndexedBy prim app indexKey value row.emailLookup) {users : Users} {id : Int}
    (hRow : users id = some (some row)) :
    generations app users id = .ok (key.id, indexKey.id) := by
  obtain ⟨encoded, writer, padding, -, rfl, hWritten⟩ := hSealed
  obtain ⟨sealed, hBytes, hKeyId⟩ := hWritten.fromBytes app.F.padding
  obtain ⟨stored, hStored, hDerive⟩ := hIndexed
  obtain ⟨normalized, -, hNormalized⟩ := BlindIndex.deriveValueWithKey_eq_ok.mp hDerive
  obtain ⟨-, -, hInspect⟩ := inspectBlindIndex_deriveIndex app.spec.valid
    (BlindIndex.deriveNormalized_eq_ok.mp hNormalized)
  rw [hStored] at hInspect
  unfold Searchable.generations
  rw [hRow]
  exact bind_eq_ok.mpr ⟨sealed, decodeColumn_eq_ok.mpr hBytes, bind_eq_ok.mpr ⟨_,
    crypt_eq_ok.mpr hKeyId, bind_eq_ok.mpr ⟨_, crypt_eq_ok.mpr hInspect, rfl⟩⟩⟩

section

variable {keys : Snapshot} {legacy : Option LegacyFormat} {sealedKey : EncryptionKey}
  {indexKey : BlindIndexKey} {value : app.F.Value} {row : UserRow} {draw : Option Nonce}
  {outcome : RowOutcome} {write : RowWrite} {token : Bytes}

/-- A rewrite moves the envelope of a row to the current pair of the process that made it, which
holds the pair the row was written with. -/
theorem rewrite_sealed (hAead : prim.DecryptsEncrypted)
    (hSealed : SealedBy prim app sealedKey value row.email)
    (hSealedKey : keys.encryption.get sealedKey.id = some sealedKey)
    (hPlan : (planner prim app keys legacy).planRow () row.email [row.emailLookup] draw
      = .ok outcome) (hWrite : outcome.write = some write) :
    SealedBy prim app keys.encryption.current value write.ciphertext := by
  obtain ⟨encoded, writer, padding, hEncode, rfl, hWritten⟩ := hSealed
  have hAfter : Written prim (Place.standalone.context prim app.F) app.F.padding
      (planner prim app keys legacy).keys encoded.val (outcome.stored row.email) :=
    Written.planRow (F := app.F) hAead hWritten planner_recordId
      (by rwa [planner_keys]) hPlan
  rw [RowOutcome.stored, hWrite, planner_keys] at hAfter
  exact ⟨encoded, keys.encryption, app.F.padding, hEncode, rfl, hAfter⟩

/-- A rewrite keeps an index that names the current pair, and derives any other. -/
theorem rewrite_token (hCodec : app.F.codec.RoundTrips)
    (hSealed : SealedBy prim app sealedKey value row.email)
    (hSealedKey : keys.encryption.get sealedKey.id = some sealedKey)
    (hPlan : (planner prim app keys legacy).planRow () row.email [row.emailLookup] draw
      = .ok outcome) (hWrite : outcome.write = some write) (hToken : write.indexes = [token]) :
    (token = row.emailLookup ∧ ∀ stored : BlindIndex app.spec, stored.asBytes = token →
        stored.indexKeyId = .ok keys.indexes.current.id) ∨
      IndexedBy prim app keys.indexes.current value token := by
  obtain ⟨encoded, writer, padding, hEncode, rfl, hWritten⟩ := hSealed
  have hOpens := hWritten.opens _ hSealedKey
  obtain ⟨-, ⟨rfl, -⟩ | ⟨write', plaintext, rfl, hRewrite⟩ |
    ⟨write', recovered, value', encoded', rfl, hRewrite⟩⟩ := RowPlanner.planRow_cases hPlan
  · cases hWrite
  · obtain rfl := Option.some.inj hWrite
    have hColumns := hRewrite.indexes
    rw [hToken, planner_indexes] at hColumns
    rcases hColumns with _ | ⟨hColumn, -⟩
    cases hColumn with
    | kept hFresh =>
      refine Or.inl ⟨rfl, fun stored hBytes => ?_⟩
      have hFresh : (column prim app keys).isStale stored.asBytes = .ok false :=
        hBytes.symm ▸ hFresh
      exact IndexColumn.indexKeyId_of_fresh rfl hFresh
    | derived hStale hDecode hDerive =>
      have hOpens' := hRewrite.opens
      rw [planner_keys, planner_context] at hOpens'
      have hPlaintext : encoded.val = plaintext := Except.ok.inj (hOpens.symm.trans hOpens')
      rw [← hPlaintext, hCodec _ _ hEncode] at hDecode
      obtain rfl := Except.ok.inj hDecode
      obtain ⟨stored, hStored, rfl⟩ := IndexColumn.derive_eq_ok.mp hDerive
      exact Or.inr (indexedBy_of_derive hStored)
  · have hMagic := hRewrite.legacy
    rw [Bound.isCiphertext_of_open hOpens] at hMagic
    cases hMagic

/-- **A rewrite moves a row to the current pairs** of the process that made it, which holds the
pairs the row was written with. -/
theorem rewrite_row (hAead : prim.DecryptsEncrypted) (hCodec : app.F.codec.RoundTrips)
    (hSealed : SealedBy prim app sealedKey value row.email)
    (hIndexed : IndexedBy prim app indexKey value row.emailLookup)
    (hSealedKey : keys.encryption.get sealedKey.id = some sealedKey)
    (hIndexKey : keys.indexes.get indexKey.id = some indexKey)
    (hPlan : (planner prim app keys legacy).planRow () row.email [row.emailLookup] draw
      = .ok outcome) (hWrite : outcome.write = some write) (hToken : write.indexes = [token]) :
    SealedBy prim app keys.encryption.current value write.ciphertext ∧
      IndexedBy prim app keys.indexes.current value token := by
  refine ⟨rewrite_sealed hAead hSealed hSealedKey hPlan hWrite, ?_⟩
  rcases rewrite_token hCodec hSealed hSealedKey hPlan hWrite hToken with ⟨rfl, hCurrent⟩ | hDerived
  · -- The column names the current key, which is then the key it was derived with.
    obtain ⟨stored, hBytes, hDerive⟩ := hIndexed
    obtain ⟨normalized, -, hNormalized⟩ := BlindIndex.deriveValueWithKey_eq_ok.mp hDerive
    have hNamed := (BlindIndex.deriveNormalized_bytes hNormalized).2
    have hId : indexKey.id = keys.indexes.current.id :=
      Except.ok.inj (hNamed.symm.trans (hCurrent stored hBytes))
    rw [hId, Ring.get_current] at hIndexKey
    obtain rfl := Option.some.inj hIndexKey
    exact ⟨stored, hBytes, hDerive⟩
  · exact hDerived

end

/-! ## What was put -/

/-- What the table stores for what was put, and the keys it was written with. -/
inductive StoredFor (prim : Primitives) (app : Application) :
    Option (Option UserRow) → Option (Option app.F.Value) → Option EncryptionKey →
      Option BlindIndexKey → Prop
  | absent : StoredFor prim app none none none none
  | null : StoredFor prim app (some none) (some none) none none
  | value {row : UserRow} {value : app.F.Value} {sealedKey : EncryptionKey}
      {indexKey : BlindIndexKey} (hSealed : SealedBy prim app sealedKey value row.email)
      (hIndexed : IndexedBy prim app indexKey value row.emailLookup) :
      StoredFor prim app (some (some row)) (some (some value)) (some sealedKey) (some indexKey)

/-- The pairs of the keyrings are the pairs that the rows were written with, where they have one
of that ID. -/
def Snapshot.Agrees (prim : Primitives) (keys : Snapshot) (users : Users)
    (origin : Int → Option (Option app.F.Value)) : Prop :=
  ∀ id, ∃ sealedKey indexKey, StoredFor prim app (users id) (origin id) sealedKey indexKey ∧
    (∀ key ∈ sealedKey, ∀ key', keys.encryption.get key.id = some key' → key' = key) ∧
    ∀ key ∈ indexKey, ∀ key', keys.indexes.get key.id = some key' → key' = key

/-! ## What a process reads and finds -/

section

variable {keys : Snapshot} {users : Users} {origin : Int → Option (Option app.F.Value)}

/-- A row that stores a value names the pairs it was written with. -/
theorem Snapshot.Agrees.row (h : keys.Agrees prim users origin) {id : Int} {value : app.F.Value}
    (hOrigin : origin id = some (some value)) :
    ∃ row sealedKey indexKey, users id = some (some row) ∧
      SealedBy prim app sealedKey value row.email ∧
      IndexedBy prim app indexKey value row.emailLookup ∧
      generations app users id = .ok (sealedKey.id, indexKey.id) ∧
      (∀ key, keys.encryption.get sealedKey.id = some key → key = sealedKey) ∧
      ∀ key, keys.indexes.get indexKey.id = some key → key = indexKey := by
  obtain ⟨sealedKey, indexKey, hStored, hKey, hIndexKey⟩ := h id
  obtain ⟨user, hUser⟩ : ∃ user, users id = user := ⟨_, rfl⟩
  rw [hOrigin, hUser] at hStored
  cases hStored with
  | @value row _ sealedKey indexKey hSealed hIndexed =>
    exact ⟨row, sealedKey, indexKey, hUser, hSealed, hIndexed, hSealed.generations hIndexed hUser,
      hKey _ rfl, hIndexKey _ rfl⟩

/-- Every row that stores a value was put. -/
theorem Snapshot.Agrees.wasPut (h : keys.Agrees prim users origin) {id : Int} {row : UserRow}
    (hUser : users id = some (some row)) : ∃ value, origin id = some (some value) := by
  obtain ⟨sealedKey, indexKey, hStored, -⟩ := h id
  obtain ⟨email, hOrigin⟩ : ∃ email, origin id = email := ⟨_, rfl⟩
  rw [hOrigin, hUser] at hStored
  cases hStored with
  | value => exact ⟨_, hOrigin⟩

/-- Where no value was put, none is answered. -/
theorem Snapshot.Agrees.get_null (h : keys.Agrees prim users origin) {id : Int}
    (hOrigin : ∀ value, origin id ≠ some (some value)) :
    get prim app users id keys.encryption = (origin id).elim (.error .rowNotFound) .ok := by
  obtain ⟨sealedKey, indexKey, hStored, -⟩ := h id
  unfold Searchable.get
  generalize users id = user at hStored
  generalize hEmail : origin id = email at hStored
  cases hStored with
  | absent => rfl
  | null => rfl
  | value => exact absurd hEmail (hOrigin _)

/-- **What `get` answers**: the value, or that the pair which the row names is unknown. -/
theorem Snapshot.Agrees.get (hCodec : app.F.codec.RoundTrips) (h : keys.Agrees prim users origin)
    {id : Int} {value : app.F.Value} (hOrigin : origin id = some (some value)) :
    ∃ named, generations app users id = .ok named ∧
      get prim app users id keys.encryption =
        if (keys.encryption.get named.1).isSome then .ok (some value)
        else .error (.cryptbox (.err (.unknownEncryptionKey named.1))) := by
  obtain ⟨row, sealedKey, indexKey, hUser, hSealed, -, hNamed, hSame, -⟩ := h.row hOrigin
  refine ⟨_, hNamed, ?_⟩
  have hGet : Searchable.get prim app users id keys.encryption =
      some <$> openRow prim app keys.encryption row := by
    unfold Searchable.get
    rw [hUser]
  rw [hGet]
  cases hHeld : keys.encryption.get sealedKey.id with
  | some key =>
    obtain rfl := hSame key hHeld
    rw [hSealed.openRow hCodec hHeld]
    rfl
  | none =>
    rw [hSealed.openRow_unknown hHeld]
    rfl

/-- **What `search` finds** when it can open the rows: the rows whose value has the normalized
bytes of the query, in the order of their IDs, less those whose index pair is missing. -/
theorem Snapshot.Agrees.search (hTotal : prim.Total) (hCodec : app.F.codec.RoundTrips)
    (h : keys.Agrees prim users origin)
    (hOpens : ∀ id named, generations app users id = .ok named →
      (keys.encryption.get named.1).isSome)
    {query : app.spec.Query} {normalized : Vec}
    (hQuery : app.spec.normalizeQuery query = .ok normalized)
    {select : List Bytes → List (Int × UserRow)}
    (hSelect : ∀ tokens, Selects users tokens (select tokens)) :
    ∃ ids rejected, search prim app query keys select = .ok (ids, rejected) ∧
      ids.Pairwise (· < ·) ∧ ∀ id, id ∈ ids ↔
        ∃ value named, origin id = some (some value) ∧
          app.spec.normalizeValue value = .ok normalized ∧
          generations app users id = .ok named ∧ (keys.indexes.get named.2).isSome := by
  obtain ⟨probes, hProbes⟩ :
      ∃ probes, BlindIndex.probes prim app.spec query (.keyring keys.indexes) = .ok probes :=
    BlindIndex.exists_probesIn hTotal hQuery rfl _
  have hRows := hSelect (probes.map BlindIndex.asBytes)
  have hEach (row : Int × UserRow) (hMem : row ∈ select (probes.map BlindIndex.asBytes)) :
      ∃ value normalized', origin row.1 = some (some value) ∧
        openRow prim app keys.encryption row.2 = .ok value ∧
        app.spec.normalizeValue value = .ok normalized' := by
    obtain ⟨hUser, -⟩ := (hRows.mem row.1 row.2).mp hMem
    obtain ⟨value, hOrigin⟩ := h.wasPut hUser
    obtain ⟨row', sealedKey, indexKey, hUser', hSealed, hIndexed, hNamed, hSame, -⟩ :=
      h.row hOrigin
    cases hUser.symm.trans hUser'
    obtain ⟨key, hHeld⟩ := Option.isSome_iff_exists.mp (hOpens _ _ hNamed)
    obtain rfl := hSame key hHeld
    obtain ⟨normalized', hNormalized⟩ := hIndexed.normalizes
    exact ⟨value, normalized', hOrigin, hSealed.openRow hCodec hHeld, hNormalized⟩
  obtain ⟨ids, rejected, hMatch, hAscending, hFound⟩ :=
    matchRows_exact hQuery hRows.ascending hEach
  refine ⟨ids, rejected, bind_eq_ok.mpr ⟨probes, crypt_eq_ok.mpr hProbes, hMatch⟩, hAscending,
    fun id => (hFound id).trans ?_⟩
  rw [List.mem_map]
  constructor
  · rintro ⟨⟨⟨_, row⟩, hMem, rfl⟩, value, hOrigin, hNormalized⟩
    obtain ⟨row', sealedKey, indexKey, hUser, -, hIndexed, hNamed, -⟩ := h.row hOrigin
    obtain ⟨hUser', hToken⟩ := (hRows.mem _ row).mp hMem
    cases hUser.symm.trans hUser'
    exact ⟨value, _, hOrigin, hNormalized, hNamed, hIndexed.readable hProbes hToken⟩
  · rintro ⟨value, named, hOrigin, hNormalized, hNamed, hHeld⟩
    obtain ⟨row, sealedKey, indexKey, hUser, -, hIndexed, hNamed', -, hSame⟩ := h.row hOrigin
    cases hNamed.symm.trans hNamed'
    obtain ⟨key, hHeld⟩ := Option.isSome_iff_exists.mp hHeld
    obtain rfl := hSame key hHeld
    exact ⟨⟨(id, row), (hRows.mem id row).mpr ⟨hUser,
      hIndexed.mem_probes hHeld hQuery hNormalized hProbes⟩, rfl⟩, value, hOrigin, hNormalized⟩

/-- **With every pair that the rows name**, a process reads and finds exactly what was put. -/
theorem Snapshot.Agrees.exact (hTotal : prim.Total) (hCodec : app.F.codec.RoundTrips)
    (h : keys.Agrees prim users origin)
    (hNames : ∀ id named, generations app users id = .ok named →
      (keys.encryption.get named.1).isSome ∧ (keys.indexes.get named.2).isSome) :
    (∀ id, Searchable.get prim app users id keys.encryption =
        (origin id).elim (.error .rowNotFound) .ok) ∧
      ∀ query normalized select, app.spec.normalizeQuery query = .ok normalized →
        (∀ tokens, Selects users tokens (select tokens)) →
        ∃ ids rejected, Searchable.search prim app query keys select = .ok (ids, rejected) ∧
          ids.Pairwise (· < ·) ∧ ∀ id, id ∈ ids ↔ ∃ value, origin id = some (some value) ∧
            app.spec.normalizeValue value = .ok normalized := by
  constructor
  · intro id
    by_cases hPut : ∃ value, origin id = some (some value)
    · obtain ⟨value, hOrigin⟩ := hPut
      obtain ⟨named, hNamed, hGet⟩ := h.get hCodec hOrigin
      rw [hGet, if_pos (hNames id named hNamed).1, hOrigin, Option.elim_some]
    · exact h.get_null fun value hOrigin => hPut ⟨value, hOrigin⟩
  · intro query normalized select hQuery hSelect
    obtain ⟨ids, rejected, hSearch, hAscending, hFound⟩ := h.search hTotal hCodec
      (fun id named hNamed => (hNames id named hNamed).1) hQuery hSelect
    refine ⟨ids, rejected, hSearch, hAscending, fun id => (hFound id).trans ?_⟩
    constructor
    · rintro ⟨value, named, hOrigin, hNormalized, -⟩
      exact ⟨value, hOrigin, hNormalized⟩
    · rintro ⟨value, hOrigin, hNormalized⟩
      obtain ⟨named, hNamed, -⟩ := h.get hCodec hOrigin
      exact ⟨value, named, hOrigin, hNormalized, hNamed, (hNames id named hNamed).2⟩

end

end Cryptbox.Searchable

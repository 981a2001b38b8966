import Cryptbox.Blind.Format
import Cryptbox.Value

/-!
# Blind indexes

`blind.rs` and `blind/recipe.rs`. The index of a value under a key is a keyed digest of its
normalized bytes, behind a header that names the key. A lookup derives one probe for each
readable key; a candidate is compared by its normalized plaintext.

* `BlindIndex.deriveNormalized_bytes`: what is derived under a key names that key.
* `BlindIndex.probesIn_eq_ok`: the probes of a query are the derivations of its normalized bytes
  under the readable keys.
* `BlindIndex.isConsistentWith_eq_ok_true`: consistency is equality with the derivation under
  the key that the index names.
-/

namespace Cryptbox

open Base

/-- `INDEX_KEY_LABEL`. -/
def indexKeyLabel : Bytes := byteString "cryptbox/blind-index-key/v1\x00"

/-- `INDEX_VALUE_LABEL`. -/
def indexValueLabel : Bytes := byteString "cryptbox/blind-index-value/v1\x00"

/-- Derives the stored index of `normalized` under `sealContext` for the index `indexId`. -/
def deriveIndex (prim : Primitives) (normalized sealContext : Bytes) (indexId : IndexId)
    (bits : UInt16) (key : BlindIndexKey) : Result Bytes := do
  let header := indexHeader key.id bits
  ensure (normalized.length < 2 ^ 64) .invalidBlindIndex
  let normalizedLen := be 8 normalized.length
  let indexKey ← hkdfSha256 prim key.bytes.val
    [indexKeyLabel, header, sealContext, indexId.asBytes.val]
  let digest ← hmacSha256 prim indexKey
    [indexValueLabel, header, sealContext, indexId.asBytes.val, normalizedLen, normalized]
  encodeIndex header digest bits

/-- A blind index over the values of a seal. -/
structure BlindIndexSpec (F : Seal) where
  id : IndexId
  bits : UInt16
  /-- `ASSERT_VALID_BITS`, checked when the spec is compiled. -/
  valid : validBits bits.toNat = true
  Query : Type
  normalizeQuery : Query → Except BlindIndexError Vec
  normalizeValue : F.Value → Except BlindIndexError Vec

/-- A typed blind index that passed structural validation. -/
structure BlindIndex {F : Seal} (spec : BlindIndexSpec F) where
  asBytes : Bytes
  parses : ∃ keyId, inspectBlindIndex asBytes = .ok ⟨indexFormatVersion, keyId, spec.bits⟩
  deriving DecidableEq

theorem inspectBlindIndex_deriveIndex {prim : Primitives} {normalized sealContext bytes : Bytes}
    {indexId : IndexId} {bits : UInt16} {key : BlindIndexKey} (hBits : validBits bits.toNat = true)
    (h : deriveIndex prim normalized sealContext indexId bits key = .ok bytes) :
    ∃ digest, bytes = indexHeader key.id bits ++ truncated digest bits.toNat ∧
      inspectBlindIndex bytes = .ok ⟨indexFormatVersion, key.id, bits⟩ := by
  obtain ⟨_, -, h⟩ := bind_eq_ok.mp h
  obtain ⟨indexKey, -, h⟩ := bind_eq_ok.mp h
  obtain ⟨digest, -, h⟩ := bind_eq_ok.mp h
  obtain rfl := Except.ok.inj ((encodeIndex_header _ digest hBits).symm.trans h)
  exact ⟨digest, rfl, inspectBlindIndex_header hBits (isDigest_truncated digest hBits)⟩

theorem inspectBlindIndex_bits {bytes : Bytes} {info : BlindIndexInfo} {bits : UInt16}
    (h : inspectBlindIndex bytes = .ok info) (hBits : info.bits = bits) :
    inspectBlindIndex bytes = .ok ⟨indexFormatVersion, info.indexKeyId, bits⟩ := by
  obtain ⟨keyId, bits', body, -, -, -, rfl⟩ := inspectBlindIndex_eq_ok.mp h
  rw [h, ← hBits]

section

variable (prim : Primitives) {F : Seal} (spec : BlindIndexSpec F)

/-- `index_context`: blind indexes are domain-separated by their seal, never by a record. -/
def indexContext (F : Seal) : SealContext := .sealId prim F.id

def deriveNormalized (normalized : Bytes) (context : SealContext) (key : BlindIndexKey) :
    Result (BlindIndex spec) := do
  let stored ← attach (deriveIndex prim normalized context.bytes spec.id spec.bits key)
  return ⟨stored.val, key.id, (inspectBlindIndex_deriveIndex spec.valid stored.property).elim
    fun _ h => h.2⟩

def deriveValueWithKey (value : F.Value) (context : SealContext) (key : BlindIndexKey) :
    Result (BlindIndex spec) := do
  let normalized ← mapErr (spec.normalizeValue value) .blindIndexNormalizationFailed
  deriveNormalized prim spec normalized.val context key

def deriveValue (value : F.Value) (context : SealContext) (keys : BlindIndexKeys) :
    Result (BlindIndex spec) := do
  let keyring ← keys.blindIndexKeyring
  deriveValueWithKey prim spec value context keyring.current

def probesIn (query : spec.Query) (context : SealContext) (keys : BlindIndexKeys) :
    Result (List (BlindIndex spec)) := do
  let normalized ← mapErr (spec.normalizeQuery query) .blindIndexNormalizationFailed
  let keyring ← keys.blindIndexKeyring
  keyring.readable.mapM fun key => deriveNormalized prim spec normalized.val context key

def compareNormalized (query : spec.Query) (candidate : F.Value) : Result Bool := do
  let query ← mapErr (spec.normalizeQuery query) .blindIndexNormalizationFailed
  let candidate ← mapErr (spec.normalizeValue candidate) .blindIndexNormalizationFailed
  if query.val.length ≠ candidate.val.length then return false
  else return decide (query.val = candidate.val)

namespace BlindIndex

/-- Validates and wraps a stored blind-index representation. -/
def fromBytes (bytes : Bytes) : Result (BlindIndex spec) := do
  let info ← attach (inspectBlindIndex bytes)
  if h : info.val.bits = spec.bits then
    return ⟨bytes, info.val.indexKeyId, inspectBlindIndex_bits info.property h⟩
  else err .invalidBlindIndex

/-- Derives the index of `value` with the current key. -/
def derive (value : F.Value) (keys : BlindIndexKeys) : Result (BlindIndex spec) :=
  deriveValue prim spec value (indexContext prim F) keys

/-- The indexes under which rows equal to `query` may be stored, one for each readable
key. -/
def probes (query : spec.Query) (keys : BlindIndexKeys) : Result (List (BlindIndex spec)) :=
  probesIn prim spec query (indexContext prim F) keys

/-- Whether `candidate` is equal to `query` by the index's normalized equality. -/
def verifyCandidate (query : spec.Query) (candidate : F.Value) : Result Bool :=
  compareNormalized spec query candidate

variable {spec}

/-- The key generation that the index names. -/
def indexKeyId (stored : BlindIndex spec) : Result IndexKeyId := storedKeyId stored.asBytes

/-- Whether the index is the one of `value` under the key that it names. -/
def isConsistentWith (stored : BlindIndex spec) (value : F.Value) (keys : BlindIndexKeys) :
    Result Bool := do
  let context := indexContext prim F
  let id ← stored.indexKeyId
  let keyring ← keys.blindIndexKeyring
  let key ← okOr (keyring.get id) (.unknownBlindIndexKey id)
  let derived ← deriveValueWithKey prim spec value context key
  return decide (derived.asBytes = stored.asBytes)

end BlindIndex

end

namespace BlindIndex

variable {prim : Primitives} {F : Seal} {spec : BlindIndexSpec F} {context : SealContext}

/-! ## Stored indexes -/

theorem ext_bytes {a b : BlindIndex spec} (h : a.asBytes = b.asBytes) : a = b := by
  cases a
  cases b
  cases h
  rfl

/-- Every typed index is a header of the spec's precision and a digest. -/
theorem exists_header (stored : BlindIndex spec) :
    ∃ keyId body, stored.asBytes = indexHeader keyId spec.bits ++ body ∧
      stored.indexKeyId = .ok keyId ∧
      inspectBlindIndex stored.asBytes = .ok ⟨indexFormatVersion, keyId, spec.bits⟩ := by
  obtain ⟨keyId, hInfo⟩ := stored.parses
  obtain ⟨keyId', bits, body, hBytes, -, -, hEq⟩ := inspectBlindIndex_eq_ok.mp hInfo
  cases hEq
  refine ⟨keyId, body, hBytes, ?_, hInfo⟩
  unfold indexKeyId
  rw [hBytes]
  exact storedKeyId_rawIndexHeader indexFormatVersion keyId spec.bits body

theorem fromBytes_eq_ok {bytes : Bytes} {stored : BlindIndex spec} :
    fromBytes spec bytes = .ok stored ↔ stored.asBytes = bytes := by
  unfold fromBytes
  rw [bind_eq_ok]
  constructor
  · intro h
    obtain ⟨info, -, h⟩ := h
    split at h
    · cases pure_eq_ok.mp h
      rfl
    · cases h
  · rintro rfl
    obtain ⟨keyId, hInfo⟩ := stored.parses
    exact ⟨⟨_, hInfo⟩, attach_eq_ok.mpr hInfo, dif_pos rfl⟩

/-- Bytes that are not an index of this spec are an error, never a panic. -/
theorem fromBytes_eq_error {bytes : Bytes} {f : Failure} (h : fromBytes spec bytes = .error f) :
    f = .err .invalidBlindIndex ∨
      ∃ version, f = .err (.unsupportedBlindIndexVersion version) := by
  unfold fromBytes at h
  rcases bind_eq_error.mp h with h | ⟨info, -, h⟩
  · exact inspectBlindIndex_eq_error (attach_eq_error.mp h)
  · split at h
    · cases h
    · cases h
      exact Or.inl rfl

/-! ## Derivation -/

theorem deriveNormalized_eq_ok {normalized : Bytes} {key : BlindIndexKey}
    {stored : BlindIndex spec} :
    deriveNormalized prim spec normalized context key = .ok stored ↔
      deriveIndex prim normalized context.bytes spec.id spec.bits key = .ok stored.asBytes := by
  unfold deriveNormalized
  rw [bind_eq_ok]
  constructor
  · intro h
    obtain ⟨bytes, hBytes, h⟩ := h
    cases pure_eq_ok.mp h
    exact attach_eq_ok.mp hBytes
  · intro h
    exact ⟨⟨_, h⟩, attach_eq_ok.mpr h, congrArg Except.ok (ext_bytes rfl)⟩

/-- **What is derived under a key names that key.** -/
theorem deriveNormalized_bytes {normalized : Bytes} {key : BlindIndexKey}
    {stored : BlindIndex spec}
    (h : deriveNormalized prim spec normalized context key = .ok stored) :
    (∃ body, stored.asBytes = indexHeader key.id spec.bits ++ body) ∧
      stored.indexKeyId = .ok key.id := by
  obtain ⟨digest, hBytes, -⟩ :=
    inspectBlindIndex_deriveIndex spec.valid (deriveNormalized_eq_ok.mp h)
  refine ⟨⟨_, hBytes⟩, ?_⟩
  unfold indexKeyId
  rw [hBytes]
  exact storedKeyId_rawIndexHeader indexFormatVersion key.id spec.bits _

/-- Derivation fails on no input when the primitives do not. -/
theorem exists_deriveNormalized (hTotal : prim.Total) (normalized : Vec) (context : SealContext)
    (key : BlindIndexKey) :
    ∃ stored, deriveNormalized prim spec normalized.val context key = .ok stored := by
  obtain ⟨indexKey, hKey⟩ := Option.isSome_iff_exists.mp
    (hTotal.hkdf key.bytes.val hkdfSalt
      [indexKeyLabel, indexHeader key.id spec.bits, context.bytes, spec.id.asBytes.val].flatten)
  obtain ⟨digest, hDigest⟩ := Option.isSome_iff_exists.mp
    (hTotal.hmac indexKey
      [indexValueLabel, indexHeader key.id spec.bits, context.bytes, spec.id.asBytes.val,
        be 8 normalized.val.length, normalized.val].flatten)
  have hLen : normalized.val.length < 2 ^ 64 := by
    have := normalized.property
    unfold isizeMax at this
    omega
  have hDerive : deriveIndex prim normalized.val context.bytes spec.id spec.bits key
      = .ok (indexHeader key.id spec.bits ++ truncated digest spec.bits.toNat) :=
    bind_eq_ok.mpr ⟨(), ensure_eq_ok.mpr hLen, bind_eq_ok.mpr ⟨indexKey, okOr_eq_ok.mpr hKey,
      bind_eq_ok.mpr ⟨digest, okOr_eq_ok.mpr hDigest, encodeIndex_header _ _ spec.valid⟩⟩⟩
  exact ⟨⟨_, key.id, (inspectBlindIndex_deriveIndex spec.valid hDerive).elim fun _ h => h.2⟩,
    deriveNormalized_eq_ok.mpr hDerive⟩

theorem deriveValueWithKey_eq_ok {value : F.Value} {key : BlindIndexKey}
    {stored : BlindIndex spec} :
    deriveValueWithKey prim spec value context key = .ok stored ↔
      ∃ normalized, spec.normalizeValue value = .ok normalized ∧
        deriveNormalized prim spec normalized.val context key = .ok stored := by
  unfold deriveValueWithKey
  simp only [bind_eq_ok, mapErr_eq_ok]

theorem deriveValue_eq_ok {value : F.Value} {keys : BlindIndexKeys} {stored : BlindIndex spec} :
    deriveValue prim spec value context keys = .ok stored ↔
      ∃ keyring, keys.blindIndexKeyring = .ok keyring ∧
        deriveValueWithKey prim spec value context keyring.current = .ok stored := by
  unfold deriveValue
  simp only [bind_eq_ok]

/-! ## Lookup and consistency -/

/-- **The probes of a query** are the derivations of its normalized bytes under the readable
keys. -/
theorem probesIn_eq_ok {query : spec.Query} {keys : BlindIndexKeys}
    {probes : List (BlindIndex spec)} :
    probesIn prim spec query context keys = .ok probes ↔
      ∃ normalized keyring, spec.normalizeQuery query = .ok normalized ∧
        keys.blindIndexKeyring = .ok keyring ∧
        List.Forall₂
          (fun key probe => deriveNormalized prim spec normalized.val context key = .ok probe)
          keyring.readable probes := by
  unfold probesIn
  simp only [bind_eq_ok, mapErr_eq_ok, mapM_eq_ok]
  constructor
  · intro h
    obtain ⟨normalized, hQuery, keyring, hKeys, h⟩ := h
    exact ⟨normalized, keyring, hQuery, hKeys, h⟩
  · intro h
    obtain ⟨normalized, keyring, hQuery, hKeys, h⟩ := h
    exact ⟨normalized, hQuery, keyring, hKeys, h⟩

/-- A query that normalizes has its probes. -/
theorem exists_probesIn (hTotal : prim.Total) {query : spec.Query} {normalized : Vec}
    {keys : BlindIndexKeys} {keyring : BlindIndexKeyring}
    (hQuery : spec.normalizeQuery query = .ok normalized)
    (hKeys : keys.blindIndexKeyring = .ok keyring) (context : SealContext) :
    ∃ probes, probesIn prim spec query context keys = .ok probes := by
  choose probe hProbe using fun key =>
    exists_deriveNormalized hTotal normalized context key
  refine ⟨keyring.readable.map probe, probesIn_eq_ok.mpr ⟨normalized, keyring, hQuery, hKeys, ?_⟩⟩
  exact List.forall₂_map_right_iff.mpr (List.forall₂_same.mpr fun key _ => hProbe key)

/-- The derivation of the query under any key of the keyring is among its probes. -/
theorem mem_probesIn {query : spec.Query} {normalized : Vec} {keys : BlindIndexKeys}
    {keyring : BlindIndexKeyring} {probes : List (BlindIndex spec)} {key : BlindIndexKey}
    {stored : BlindIndex spec} (hProbes : probesIn prim spec query context keys = .ok probes)
    (hQuery : spec.normalizeQuery query = .ok normalized)
    (hKeys : keys.blindIndexKeyring = .ok keyring) (hGet : keyring.get key.id = some key)
    (hDerive : deriveNormalized prim spec normalized.val context key = .ok stored) :
    stored ∈ probes := by
  obtain ⟨normalized', keyring', hQuery', hKeys', hRel⟩ := probesIn_eq_ok.mp hProbes
  cases hQuery.symm.trans hQuery'
  cases hKeys.symm.trans hKeys'
  obtain ⟨probe, hMem, hProbe⟩ := forall₂_exists hRel (Ring.mem_readable.mpr hGet)
  cases hDerive.symm.trans hProbe
  exact hMem

/-- A candidate is verified by its normalized bytes. -/
theorem verifyCandidate_eq {query : spec.Query} {value : F.Value} {normalized candidate : Vec}
    (hQuery : spec.normalizeQuery query = .ok normalized)
    (hValue : spec.normalizeValue value = .ok candidate) :
    verifyCandidate spec query value = .ok (decide (candidate = normalized)) := by
  unfold verifyCandidate compareNormalized
  rw [hQuery, hValue]
  show (if normalized.val.length ≠ candidate.val.length then Except.ok false
    else Except.ok (decide (normalized.val = candidate.val))) = _
  by_cases hSame : candidate = normalized
  · subst hSame
    simp
  · have hBytes : normalized.val ≠ candidate.val := fun h => hSame (Subtype.ext h.symm)
    simp [hSame, hBytes]

theorem isConsistentWith_eq_ok_true {stored : BlindIndex spec} {value : F.Value}
    {keys : BlindIndexKeys} :
    stored.isConsistentWith prim value keys = .ok true ↔
      ∃ id keyring key, stored.indexKeyId = .ok id ∧ keys.blindIndexKeyring = .ok keyring ∧
        keyring.get id = some key ∧
        deriveValueWithKey prim spec value (indexContext prim F) key = .ok stored := by
  unfold isConsistentWith
  simp only [bind_eq_ok, okOr_eq_ok, pure_eq_ok, decide_eq_true_eq]
  constructor
  · intro h
    obtain ⟨id, hId, keyring, hKeys, key, hGet, derived, hDerive, hEq⟩ := h
    exact ⟨id, keyring, key, hId, hKeys, hGet, ext_bytes hEq ▸ hDerive⟩
  · intro h
    obtain ⟨id, keyring, key, hId, hKeys, hGet, hDerive⟩ := h
    exact ⟨id, hId, keyring, hKeys, key, hGet, stored, hDerive, rfl⟩

/-- The consistency check reads of a keyring only the key that the index names. -/
theorem isConsistentWith_congr {stored : BlindIndex spec} {keys keys' : BlindIndexKeys}
    {keyring keyring' : BlindIndexKeyring} {id : IndexKeyId} (hId : stored.indexKeyId = .ok id)
    (hKeys : keys.blindIndexKeyring = .ok keyring) (hKeys' : keys'.blindIndexKeyring = .ok keyring')
    (hGet : keyring.get id = keyring'.get id) (value : F.Value) :
    stored.isConsistentWith prim value keys = stored.isConsistentWith prim value keys' := by
  unfold isConsistentWith
  simp only [hId, hKeys, hKeys', ok_bind, hGet]

/-- What is derived for a value is consistent with it, for whoever has the key that derived
it. -/
theorem isConsistentWith_of_get {value : F.Value} {keys keys' : BlindIndexKeys}
    {keyring' : BlindIndexKeyring} {stored : BlindIndex spec}
    (h : derive prim spec value keys = .ok stored)
    (hKeys' : keys'.blindIndexKeyring = .ok keyring')
    (hGet : ∀ keyring, keys.blindIndexKeyring = .ok keyring →
      keyring'.get keyring.current.id = some keyring.current) :
    stored.isConsistentWith prim value keys' = .ok true := by
  obtain ⟨keyring, hKeys, hDerive⟩ := deriveValue_eq_ok.mp h
  obtain ⟨normalized, -, hNormalized⟩ := deriveValueWithKey_eq_ok.mp hDerive
  exact isConsistentWith_eq_ok_true.mpr ⟨keyring.current.id, keyring', keyring.current,
    (deriveNormalized_bytes hNormalized).2, hKeys', hGet keyring hKeys, hDerive⟩

theorem isConsistentWith_derive {value : F.Value} {keys : BlindIndexKeys} {stored : BlindIndex spec}
    (h : derive prim spec value keys = .ok stored) :
    stored.isConsistentWith prim value keys = .ok true := by
  obtain ⟨keyring, hKeys, -⟩ := deriveValue_eq_ok.mp h
  apply isConsistentWith_of_get h hKeys
  intro keyring' hKeys'
  cases hKeys.symm.trans hKeys'
  exact keyring.get_current

/-- A consistent index that names the current key is what is derived. -/
theorem derive_of_isConsistentWith {value : F.Value} {keys : BlindIndexKeys}
    {keyring : BlindIndexKeyring} {stored : BlindIndex spec}
    (h : stored.isConsistentWith prim value keys = .ok true)
    (hKeys : keys.blindIndexKeyring = .ok keyring)
    (hCurrent : stored.indexKeyId = .ok keyring.current.id) :
    derive prim spec value keys = .ok stored := by
  obtain ⟨id, keyring', key, hId, hKeys', hGet, hDerive⟩ := isConsistentWith_eq_ok_true.mp h
  cases hKeys.symm.trans hKeys'
  cases hCurrent.symm.trans hId
  rw [keyring.get_current] at hGet
  exact deriveValue_eq_ok.mpr ⟨keyring, hKeys, Option.some.inj hGet ▸ hDerive⟩

end BlindIndex

end Cryptbox

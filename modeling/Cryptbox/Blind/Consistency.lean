import Cryptbox.Vectors

/-!
# Checking an index against a value

`check_consistency` takes the key that the index names and no other, derives the index of the
value under it and compares the whole representations. An index names the key it was derived
under, so the check is equality with the derivation under any key of the keyring.

* `BlindIndex.isConsistentWith_named`: the check, once the key is found.
* `BlindIndex.consistency_exact`: what it reports, for all bytes, values and keyrings.
-/

namespace Cryptbox

open Base

variable {prim : Primitives} {F : Seal} {spec : BlindIndexSpec F}

/-- What a check of `bytes`, which name `id`, against `value` reports. -/
structure Consistency (prim : Primitives) (spec : BlindIndexSpec F) (bytes : Bytes)
    (id : IndexKeyId) (value : F.Value) (keyring : BlindIndexKeyring) (report : Result Bool) :
    Prop where
  unknown : ∀ id', report = err (.unknownBlindIndexKey id') ↔ id' = id ∧ keyring.get id = none
  normalization : ∀ key, keyring.get id = some key → ∀ e, spec.normalizeValue value = .error e →
    report = err (.blindIndexNormalizationFailed e)
  /-- The value has these bytes as its index under some key of the keyring. -/
  consistent : report = .ok true ↔ ∃ key ∈ keyring.readable, ∃ derived,
    deriveValueWithKey prim spec value (indexContext prim F) key = .ok derived ∧
      derived.asBytes = bytes
  /-- That is the key that the bytes name. -/
  named : ∀ key derived,
    deriveValueWithKey prim spec value (indexContext prim F) key = .ok derived →
    derived.asBytes = bytes → key.id = id
  otherwise : ∀ key, keyring.get id = some key → ∀ normalized,
    spec.normalizeValue value = .ok normalized → report ≠ .ok true → report = .ok false

namespace BlindIndex

variable {stored : BlindIndex spec} {value : F.Value} {keys : BlindIndexKeys}
  {keyring : BlindIndexKeyring} {id : IndexKeyId}

/-- What is derived under a key names it. -/
theorem named_of_derive {key : BlindIndexKey} {derived : BlindIndex spec}
    (hId : stored.indexKeyId = .ok id)
    (hDerive : deriveValueWithKey prim spec value (indexContext prim F) key = .ok derived)
    (hBytes : derived.asBytes = stored.asBytes) : key.id = id := by
  obtain ⟨normalized, -, hNormalized⟩ := deriveValueWithKey_eq_ok.mp hDerive
  have hNamed : derived.indexKeyId = .ok key.id := (deriveNormalized_bytes hNormalized).2
  rw [ext_bytes hBytes, hId] at hNamed
  exact (Except.ok.inj hNamed).symm

theorem isConsistentWith_unknown (hId : stored.indexKeyId = .ok id)
    (hKeys : keys.blindIndexKeyring = .ok keyring) (hNone : keyring.get id = none) :
    stored.isConsistentWith prim value keys = err (.unknownBlindIndexKey id) := by
  unfold isConsistentWith
  rw [hId, hKeys]
  simp only [ok_bind, hNone, okOr, error_bind]

/-- **The key that the index names decides.** -/
theorem isConsistentWith_named (hTotal : prim.Total) {key : BlindIndexKey}
    (hId : stored.indexKeyId = .ok id) (hKeys : keys.blindIndexKeyring = .ok keyring)
    (hGet : keyring.get id = some key) :
    (∃ e, spec.normalizeValue value = .error e ∧
      stored.isConsistentWith prim value keys = err (.blindIndexNormalizationFailed e)) ∨
    ∃ normalized derived, spec.normalizeValue value = .ok normalized ∧
      deriveValueWithKey prim spec value (indexContext prim F) key = .ok derived ∧
      stored.isConsistentWith prim value keys
        = .ok (decide (derived.asBytes = stored.asBytes)) := by
  have hCheck : stored.isConsistentWith prim value keys = (do
      let derived ← deriveValueWithKey prim spec value (indexContext prim F) key
      return decide (derived.asBytes = stored.asBytes)) := by
    unfold isConsistentWith
    rw [hId, hKeys]
    simp only [ok_bind, hGet, okOr]
  cases hNormalize : spec.normalizeValue value with
  | error e =>
    refine Or.inl ⟨e, rfl, ?_⟩
    rw [hCheck, deriveValueWithKey, hNormalize]
    rfl
  | ok normalized =>
    obtain ⟨derived, hDerive⟩ : ∃ derived,
        deriveNormalized prim spec normalized.val (indexContext prim F) key = .ok derived :=
      exists_deriveNormalized hTotal normalized (indexContext prim F) key
    have hDerive : deriveValueWithKey prim spec value (indexContext prim F) key = .ok derived :=
      deriveValueWithKey_eq_ok.mpr ⟨normalized, hNormalize, hDerive⟩
    refine Or.inr ⟨normalized, derived, rfl, hDerive, ?_⟩
    rw [hCheck, hDerive]
    rfl

theorem isConsistentWith_exact (hTotal : prim.Total) (hId : stored.indexKeyId = .ok id)
    (hKeys : keys.blindIndexKeyring = .ok keyring) (value : F.Value) :
    Consistency prim spec stored.asBytes id value keyring
      (stored.isConsistentWith prim value keys) where
  unknown := by
    intro id'
    cases hGet : keyring.get id with
    | none =>
      rw [isConsistentWith_unknown hId hKeys hGet]
      constructor
      · intro h
        cases h
        exact ⟨rfl, rfl⟩
      · rintro ⟨rfl, -⟩
        rfl
    | some key =>
      constructor
      · intro h
        rcases isConsistentWith_named hTotal hId hKeys hGet with ⟨e, -, hReport⟩ |
          ⟨-, derived, -, -, hReport⟩
        · cases h.symm.trans hReport
        · cases h.symm.trans hReport
      · rintro ⟨-, hNone⟩
        cases hNone
  normalization := by
    intro key hGet e hError
    rcases isConsistentWith_named hTotal hId hKeys hGet with ⟨e', hError', hReport⟩ |
      ⟨normalized, -, hNormalize, -⟩
    · cases hError.symm.trans hError'
      exact hReport
    · cases hError.symm.trans hNormalize
  consistent := by
    rw [isConsistentWith_eq_ok_true]
    constructor
    · rintro ⟨id', keyring', key, hId', hKeys', hGet, hDerive⟩
      cases hKeys.symm.trans hKeys'
      have hOwn : keyring.get key.id = some key := by rwa [Ring.get_id hGet]
      exact ⟨key, Ring.mem_readable.mpr hOwn, stored, hDerive, rfl⟩
    · rintro ⟨key, hKey, derived, hDerive, hBytes⟩
      have hNamed := named_of_derive hId hDerive hBytes
      have hGet : keyring.get id = some key := hNamed ▸ Ring.mem_readable.mp hKey
      exact ⟨id, keyring, key, hId, hKeys, hGet, ext_bytes hBytes ▸ hDerive⟩
  named := fun key derived => named_of_derive hId
  otherwise := by
    intro key hGet normalized hNormalize hNot
    rcases isConsistentWith_named hTotal hId hKeys hGet with ⟨e, hError, -⟩ |
      ⟨-, derived, -, -, hReport⟩
    · cases hError.symm.trans hNormalize
    · rw [hReport] at hNot ⊢
      by_cases hBytes : derived.asBytes = stored.asBytes
      · exact absurd (congrArg Except.ok (decide_eq_true hBytes)) hNot
      · exact congrArg Except.ok (decide_eq_false hBytes)

/-- **The consistency check is exact.** It reads no key but the named one, and an index stays
consistent with its value as long as its key is kept. -/
theorem consistency_exact (hTotal : prim.Total) (spec : BlindIndexSpec F) :
    (∀ bytes (stored : BlindIndex spec), fromBytes spec bytes = .ok stored →
      ∃ id, stored.indexKeyId = .ok id ∧
        ∀ keys keyring, keys.blindIndexKeyring = .ok keyring → ∀ value,
          Consistency prim spec bytes id value keyring (stored.isConsistentWith prim value keys) ∧
          ∀ keys' keyring', keys'.blindIndexKeyring = .ok keyring' →
            keyring'.get id = keyring.get id →
            stored.isConsistentWith prim value keys' = stored.isConsistentWith prim value keys) ∧
    ∀ value keys keyring (stored : BlindIndex spec), keys.blindIndexKeyring = .ok keyring →
      derive prim spec value keys = .ok stored →
      ∀ keys' keyring', keys'.blindIndexKeyring = .ok keyring' →
        keyring.current ∈ keyring'.readable →
        stored.isConsistentWith prim value keys' = .ok true := by
  refine ⟨fun bytes stored hAccepted => ?_,
    fun value keys keyring stored hKeys hDerive keys' keyring' hKeys' hKept => ?_⟩
  · obtain rfl := fromBytes_eq_ok.mp hAccepted
    obtain ⟨id, -, -, hId, -⟩ := stored.exists_header
    refine ⟨id, hId, fun keys keyring hKeys value => ?_⟩
    exact ⟨isConsistentWith_exact hTotal hId hKeys value, fun keys' keyring' hKeys' hGet =>
      isConsistentWith_congr hId hKeys' hKeys hGet value⟩
  · apply isConsistentWith_of_get hDerive hKeys'
    intro current hCurrent
    cases hKeys.symm.trans hCurrent
    exact Ring.mem_readable.mp hKept

end BlindIndex

namespace Vectors

/-- A keyring whose current key is another one than that of the vectors. -/
def rotatedIndexKeyring : BlindIndexKeyring :=
  (BlindIndexKeyring.new ⟨⟨beBlock 16 0xbbbbbbbbcccc4ddd8eeeffffffffffff⟩,
    ⟨List.replicate 32 0x44, List.length_replicate⟩⟩ [indexKey]).toOption.getD indexKeyring

/-- The index of the plaintext, as a typed value. -/
def storedIndex : BlindIndex vectorIndex := ⟨index, indexKey.id, by decide +kernel⟩

end Vectors

/-- The index of the vectors stays consistent with their plaintext after a rotation. -/
theorem BlindIndex.consistency_exact_vector :
    Vectors.storedIndex.isConsistentWith Vectors.prim Vectors.plaintext
      (.keyring Vectors.rotatedIndexKeyring) = .ok true := by
  have hDerive : derive Vectors.prim Vectors.vectorIndex Vectors.plaintext
      (.keyring Vectors.indexKeyring) = .ok Vectors.storedIndex := by decide +kernel
  have hGet : Vectors.rotatedIndexKeyring.get Vectors.indexKey.id = some Vectors.indexKey := by
    decide +kernel
  exact (consistency_exact Vectors.total Vectors.vectorIndex).2 Vectors.plaintext _ _ _ rfl hDerive
    _ _ rfl (Ring.mem_readable.mpr hGet)

end Cryptbox

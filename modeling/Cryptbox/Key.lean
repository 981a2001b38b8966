import Cryptbox.Error

/-!
# Keys and keyrings

`key/material.rs`, `key/keyring.rs`, `key.rs` and `key_source.rs`. A keyring is a current
key and a map of every key by its ID. `Ring` carries what `Ring::new` establishes: the map
files each key under the ID it names itself, and holds the current one. Encryption and
blind-index keyrings are the same structure over IDs of different kinds.

* `Ring.mem_readable`: the keys a lookup derives probes from are exactly the keys `get`
  finds, the current one first.
* `Ring.get_single`: a ring of the current key alone finds exactly that key.
-/

namespace Cryptbox

open Base

variable {tag : IdTag}

/-- A root key and the generation identifier that names it. -/
structure KeyMaterial (tag : IdTag) where
  id : Identifier tag
  bytes : Block 32
  deriving DecidableEq, Repr

abbrev EncryptionKey := KeyMaterial .keyId
abbrev BlindIndexKey := KeyMaterial .indexKeyId

/-- The current key plus the previous keys that are still read. -/
structure Ring (tag : IdTag) where
  current : KeyMaterial tag
  keys : Std.TreeMap (Identifier tag) (KeyMaterial tag)
  /-- Every key is filed under its own ID. -/
  ids : ∀ (id : Identifier tag) (key : KeyMaterial tag), keys[id]? = some key → key.id = id
  current_mem : keys[current.id]? = some current

abbrev EncryptionKeyring := Ring .keyId
abbrev BlindIndexKeyring := Ring .indexKeyId

namespace Ring

/-- The ring of a current key without previous keys. -/
def single (current : KeyMaterial tag) : Ring tag where
  current := current
  keys := (∅ : Std.TreeMap (Identifier tag) (KeyMaterial tag)).insert current.id current
  ids := by
    intro id key h
    rw [Std.TreeMap.getElem?_insert] at h
    split at h
    · next hId =>
      cases h
      exact Std.LawfulEqOrd.eq_of_compare hId
    · simp at h
  current_mem := Std.TreeMap.getElem?_insert_self

/-- Adds a previous key, unless its ID is taken (the body of the loop of `Ring::new`). -/
def insertPrevious (duplicate : Identifier tag → Error) (ring : Ring tag)
    (key : KeyMaterial tag) : Result (Ring tag) :=
  if taken : ring.keys[key.id]?.isSome then err (duplicate key.id)
  else .ok {
    current := ring.current
    keys := ring.keys.insert key.id key
    ids := by
      intro id other h
      rw [Std.TreeMap.getElem?_insert] at h
      split at h
      · next hId =>
        cases h
        exact Std.LawfulEqOrd.eq_of_compare hId
      · exact ring.ids id other h
    current_mem := by
      rw [Std.TreeMap.getElem?_insert, if_neg]
      · exact ring.current_mem
      · intro hId
        rw [Std.LawfulEqOrd.eq_of_compare hId, ring.current_mem] at taken
        exact taken rfl }

/-- `Ring::new`: a repeated key ID is an error. -/
def new (duplicate : Identifier tag → Error) (current : KeyMaterial tag)
    (previous : List (KeyMaterial tag)) : Result (Ring tag) :=
  previous.foldlM (insertPrevious duplicate) (single current)

/-- The key with ID `id`, current or previous. -/
def get (ring : Ring tag) (id : Identifier tag) : Option (KeyMaterial tag) := ring.keys[id]?

/-- The current key first, followed by every previous key once. -/
def readable (ring : Ring tag) : List (KeyMaterial tag) :=
  ring.current ::
    (ring.keys.toList.map Prod.snd).filter fun key => decide (key.id ≠ ring.current.id)

/-! ## Lookup -/

theorem get_id {ring : Ring tag} {id : Identifier tag} {key : KeyMaterial tag}
    (h : ring.get id = some key) : key.id = id :=
  ring.ids id key h

@[simp] theorem get_current (ring : Ring tag) : ring.get ring.current.id = some ring.current :=
  ring.current_mem

theorem get_single (key : KeyMaterial tag) (id : Identifier tag) :
    (single key).get id = if id = key.id then some key else none := by
  show ((∅ : Std.TreeMap (Identifier tag) (KeyMaterial tag)).insert key.id key)[id]? = _
  rw [Std.TreeMap.getElem?_insert]
  by_cases h : id = key.id
  · subst h
    rw [if_pos Std.ReflOrd.compare_self, if_pos rfl]
  · rw [if_neg, if_neg h]
    · exact Std.TreeMap.getElem?_emptyc
    · intro hId
      exact h (Std.LawfulEqOrd.eq_of_compare hId).symm

/-- Lookups read exactly the keys the ring holds. -/
theorem mem_readable {ring : Ring tag} {key : KeyMaterial tag} :
    key ∈ ring.readable ↔ ring.get key.id = some key := by
  unfold readable
  rw [List.mem_cons, List.mem_filter, List.mem_map]
  constructor
  · intro h
    rcases h with rfl | ⟨⟨⟨id, found⟩, hMem, rfl⟩, -⟩
    · exact ring.get_current
    · have hGet : ring.get id = some found :=
        Std.TreeMap.mem_toList_iff_getElem?_eq_some.mp hMem
      rwa [← get_id hGet] at hGet
  · intro hGet
    by_cases hId : key.id = ring.current.id
    · rw [hId, get_current] at hGet
      exact Or.inl (Option.some.inj hGet).symm
    · refine Or.inr ⟨⟨(key.id, key), ?_, rfl⟩, by simpa using hId⟩
      exact Std.TreeMap.mem_toList_iff_getElem?_eq_some.mpr hGet

theorem get_eq_none {ring : Ring tag} {id : Identifier tag} :
    ring.get id = none ↔ id ∉ ring.readable.map KeyMaterial.id := by
  rw [List.mem_map]
  constructor
  · intro hNone hMem
    obtain ⟨key, hKey, rfl⟩ := hMem
    cases hNone.symm.trans (mem_readable.mp hKey)
  · intro hAbsent
    cases hGet : ring.get id with
    | none => rfl
    | some key =>
      have hId := get_id hGet
      subst hId
      exact absurd ⟨key, mem_readable.mpr hGet, rfl⟩ hAbsent

end Ring

/-! ## The keys an operation takes -/

/-- `EncryptionKeyring::new`. -/
def EncryptionKeyring.new (current : EncryptionKey) (previous : List EncryptionKey) :
    Result EncryptionKeyring :=
  Ring.new .duplicateEncryptionKey current previous

/-- `BlindIndexKeyring::new`. -/
def BlindIndexKeyring.new (current : BlindIndexKey) (previous : List BlindIndexKey) :
    Result BlindIndexKeyring :=
  Ring.new .duplicateBlindIndexKey current previous

/-- An encryption keyring and an optional blind-index keyring. -/
structure Keys where
  encryption : EncryptionKeyring
  blindIndexes : Option BlindIndexKeyring

/-- The types that implement the sealed traits `EncryptionKeys` and `RecordKeys`. -/
inductive EncryptionKeys where
  | keyring (keyring : EncryptionKeyring)
  | keys (keys : Keys)

/-- The types that implement the sealed trait `BlindIndexKeys`. -/
inductive BlindIndexKeys where
  | keyring (keyring : BlindIndexKeyring)
  | keys (keys : Keys)

abbrev RecordKeys := EncryptionKeys

def EncryptionKeys.encryptionKeyring : EncryptionKeys → EncryptionKeyring
  | .keyring ring => ring
  | .keys both => both.encryption

def BlindIndexKeys.blindIndexKeyring : BlindIndexKeys → Result BlindIndexKeyring
  | .keyring ring => .ok ring
  | .keys both => okOr both.blindIndexes .blindIndexKeysNotConfigured

def RecordKeys.recordBlindIndexKeyring : RecordKeys → Result BlindIndexKeyring
  | .keyring _ => err .blindIndexKeysNotConfigured
  | .keys both => BlindIndexKeys.blindIndexKeyring (.keys both)

end Cryptbox

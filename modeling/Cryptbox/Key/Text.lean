import Cryptbox.Base.Coder
import Cryptbox.Vectors

/-!
# Keys as text

The rest of `key/material.rs`: a root key is loaded from hexadecimal digits or from standard
Base64 of its 32 bytes, which are written into its storage. The crates `hex` and `base64` are
parameters that behave as documented.

* `fromHex_eq_ok`, `fromBase64_eq_ok`: the texts that a key is loaded from.
* `keyTexts`: the texts of a key, in either form, and what is said of all others.
-/

namespace Cryptbox

open Base

variable {tag : IdTag}

/-! ## Keys -/

namespace KeyMaterial

/-- The storage is zero before it is written. -/
def initializeKeyMaterial (id : Identifier tag) (write : Block 32 → Result (Block 32)) :
    Result (KeyMaterial tag) := do
  return ⟨id, ← write (Block.zero 32)⟩

/-- `from_hex`. -/
def fromHex (decodeToSlice : Hex.DecodeToSlice) (id : Identifier tag) (encoded : String) :
    Result (KeyMaterial tag) :=
  initializeKeyMaterial id fun bytes => okOr (decodeToSlice encoded bytes) .invalidKeyEncoding

/-- `from_base64`. -/
def fromBase64 (base64 : Base64.Crate) (id : Identifier tag) (encoded : String) :
    Result (KeyMaterial tag) :=
  initializeKeyMaterial id fun bytes => do
    let (decodedLen, bytes) ← okOr (base64.standard.decodeSlice encoded bytes) .invalidKeyEncoding
    ensure (decodedLen = bytes.val.length) .invalidKeyEncoding
    return bytes

end KeyMaterial

/-! ## The texts of a key -/

namespace KeyMaterial

theorem initializeKeyMaterial_eq_ok {id : Identifier tag} {write : Block 32 → Result (Block 32)}
    {key : KeyMaterial tag} : initializeKeyMaterial id write = .ok key ↔
      key.id = id ∧ write (Block.zero 32) = .ok key.bytes := by
  obtain ⟨keyId, bytes⟩ := key
  unfold initializeKeyMaterial
  rw [bind_eq_ok]
  constructor
  · rintro ⟨written, hWrite, hKey⟩
    cases pure_eq_ok.mp hKey
    exact ⟨rfl, hWrite⟩
  · rintro ⟨rfl, hWrite⟩
    exact ⟨bytes, hWrite, rfl⟩

theorem initializeKeyMaterial_eq_error {id : Identifier tag}
    {write : Block 32 → Result (Block 32)} {f : Failure} :
    initializeKeyMaterial id write = .error f ↔ write (Block.zero 32) = .error f := by
  unfold initializeKeyMaterial
  rw [bind_eq_error]
  refine or_iff_left ?_
  rintro ⟨written, -, hKey⟩
  cases hKey

variable {decodeToSlice : Hex.DecodeToSlice} {base64 : Base64.Crate} {max : Nat}

/-- **A key from hexadecimal digits.** -/
theorem fromHex_eq_ok (hHex : Hex.Documented decodeToSlice) {id : Identifier tag}
    {encoded : String} {key : KeyMaterial tag} :
    fromHex decodeToSlice id encoded = .ok key ↔
      key.id = id ∧ Hex.Spells encoded key.bytes.val := by
  unfold fromHex
  rw [initializeKeyMaterial_eq_ok, okOr_eq_ok, hHex encoded]

/-- **A key from Base64**: a text of fewer bytes is decoded, and fails the check of their number. -/
theorem fromBase64_eq_ok (hBase64 : base64.Documented max) {id : Identifier tag}
    {encoded : String} {key : KeyMaterial tag} :
    fromBase64 base64 id encoded = .ok key ↔
      key.id = id ∧ base64.standard.encode key.bytes.val = encoded := by
  unfold fromBase64
  rw [initializeKeyMaterial_eq_ok, bind_eq_ok]
  refine and_congr_right fun _ => ?_
  constructor
  · rintro ⟨⟨decodedLen, bytes⟩, hDecode, h⟩
    obtain ⟨_, hLength, h⟩ := bind_eq_ok.mp h
    cases pure_eq_ok.mp h
    rw [ensure_eq_ok, Block.length_val] at hLength
    obtain ⟨decoded, hText, hWrite⟩ :=
      hBase64.standard.decodeSlice_eq_some.mp (hLength ▸ okOr_eq_ok.mp hDecode)
    rwa [Block.overwrite_eq_all.mp hWrite] at hText
  · intro hText
    have hWrite : (Block.zero 32).overwrite key.bytes.val = some (32, key.bytes) :=
      Block.overwrite_eq_all.mpr rfl
    have hDecode := hBase64.standard.decodeSlice_eq_some.mpr ⟨key.bytes.val, hText, hWrite⟩
    exact ⟨_, okOr_eq_ok.mpr hDecode,
      bind_eq_ok.mpr ⟨(), ensure_eq_ok.mpr (Block.length_val _).symm, rfl⟩⟩

theorem fromHex_eq_error {id : Identifier tag} {encoded : String} {f : Failure}
    (h : fromHex decodeToSlice id encoded = .error f) : f = .err .invalidKeyEncoding :=
  (okOr_eq_error.mp (initializeKeyMaterial_eq_error.mp h)).2

theorem fromBase64_eq_error {id : Identifier tag} {encoded : String} {f : Failure}
    (h : fromBase64 base64 id encoded = .error f) : f = .err .invalidKeyEncoding := by
  rcases bind_eq_error.mp (initializeKeyMaterial_eq_error.mp h) with h | ⟨_, -, h⟩
  · exact (okOr_eq_error.mp h).2
  · rcases bind_eq_error.mp h with h | ⟨_, -, h⟩
    · exact (ensure_eq_error.mp h).2
    · cases h

end KeyMaterial

/-- The texts of root keys. -/
structure KeyTexts (decodeToSlice : Hex.DecodeToSlice) (base64 : Base64.Crate) (tag : IdTag) :
    Prop where
  /-- The digits of the bytes, in either case. -/
  digits : ∀ (id : Identifier tag) encoded key,
    KeyMaterial.fromHex decodeToSlice id encoded = .ok key ↔
      key.id = id ∧ Hex.Spells encoded key.bytes.val
  hexCase : ∀ (id : Identifier tag) a b key, KeyMaterial.fromHex decodeToSlice id a = .ok key →
    (KeyMaterial.fromHex decodeToSlice id b = .ok key ↔
      (asBytes b).map toAsciiLowercase = (asBytes a).map toAsciiLowercase)
  /-- One padded text in the standard alphabet. -/
  oneText : ∀ (id : Identifier tag) encoded key,
    KeyMaterial.fromBase64 base64 id encoded = .ok key ↔
      key.id = id ∧ encoded = base64.standard.encode key.bytes.val
  /-- Every key has a text of either form. -/
  written : ∀ key : KeyMaterial tag,
    KeyMaterial.fromHex decodeToSlice key.id (hexEncode key.bytes.val) = .ok key ∧
      KeyMaterial.fromBase64 base64 key.id (base64.standard.encode key.bytes.val) = .ok key
  lengths : ∀ (id : Identifier tag) encoded key,
    (KeyMaterial.fromHex decodeToSlice id encoded = .ok key → (asBytes encoded).length = 64) ∧
      (KeyMaterial.fromBase64 base64 id encoded = .ok key → (asBytes encoded).length = 44)
  /-- All other texts are refused in the same words. -/
  refused : ∀ (id : Identifier tag) encoded failure,
    KeyMaterial.fromHex decodeToSlice id encoded = .error failure ∨
      KeyMaterial.fromBase64 base64 id encoded = .error failure →
        failure = .err .invalidKeyEncoding

/-- **Root keys are loaded** from the texts of their bytes and from nothing else. -/
theorem keyTexts (decodeToSlice : Hex.DecodeToSlice) (base64 : Base64.Crate) {max : Nat}
    (hHex : Hex.Documented decodeToSlice) (hBase64 : base64.Documented max) (tag : IdTag) :
    KeyTexts decodeToSlice base64 tag where
  digits _ _ _ := KeyMaterial.fromHex_eq_ok hHex
  hexCase id a b key h := by
    obtain ⟨hId, hSpells⟩ := (KeyMaterial.fromHex_eq_ok hHex).mp h
    rw [KeyMaterial.fromHex_eq_ok hHex, ← hSpells.iff_lowercase]
    exact and_iff_right hId
  oneText id encoded key := by
    rw [KeyMaterial.fromBase64_eq_ok hBase64, eq_comm (a := encoded)]
  written key :=
    ⟨(KeyMaterial.fromHex_eq_ok hHex).mpr ⟨rfl, Hex.spells_hexEncode _⟩,
      (KeyMaterial.fromBase64_eq_ok hBase64).mpr ⟨rfl, rfl⟩⟩
  lengths id encoded key := by
    constructor
    · intro h
      obtain ⟨-, hSpells⟩ := (KeyMaterial.fromHex_eq_ok hHex).mp h
      rw [hSpells.length, key.bytes.length_val]
    · intro h
      obtain ⟨-, rfl⟩ := (KeyMaterial.fromBase64_eq_ok hBase64).mp h
      rw [hBase64.standard.length_encode, key.bytes.length_val]
      rfl
  refused id encoded failure h := by
    rcases h with h | h
    · exact KeyMaterial.fromHex_eq_error h
    · exact KeyMaterial.fromBase64_eq_error h

/-- The key of the vectors has a text of either form. -/
theorem keyTexts_vector :
    KeyMaterial.fromHex Hex.decodeToSlice Vectors.keyId
        "1111111111111111111111111111111111111111111111111111111111111111"
          = .ok Vectors.encryptionKey ∧
      KeyMaterial.fromBase64 (Base64.rfc4648 usizeMax) Vectors.keyId
        "ERERERERERERERERERERERERERERERERERERERERERE=" = .ok Vectors.encryptionKey := by
  have h := keyTexts Hex.decodeToSlice (Base64.rfc4648 usizeMax) Hex.decodeToSlice_documented
    (Base64.rfc4648_documented usizeMax) .keyId
  refine ⟨(h.digits _ _ Vectors.encryptionKey).mpr ⟨rfl, ?_⟩,
    (h.oneText _ _ Vectors.encryptionKey).mpr ⟨rfl, ?_⟩⟩
  · unfold Hex.Spells
    decide +kernel
  · decide +kernel

end Cryptbox

import Cryptbox.Slice

/-!
# Cryptographic primitives

`crypto.rs` and the AEAD of suite 1. The hash, HKDF, HMAC and the cipher come from other
crates and are fields of `Primitives`; the recipes that call them are modelled. A derived
key is only ever handed to the cipher or to HMAC, never looked into, so its type is a
parameter (32 bytes in the code). Encryption and decryption work in place over a buffer of
the message's own length, so their outputs have that length by type.

What the operating system's random source returned is an argument of the functions that
draw from it: `none` is a failure of the source.
-/

namespace Cryptbox

open Base

abbrev Nonce := Block 24

abbrev Tag := Block 16

structure Primitives where
  /-- The output keys of HKDF. -/
  Derived : Type
  /-- HKDF-SHA-256, extract and expand, from input key material, salt and info. -/
  hkdf : Bytes → Bytes → Bytes → Option Derived
  /-- HMAC-SHA-256. -/
  hmac : Derived → Bytes → Option (Block 32)
  sha256 : Bytes → Block 32
  /-- XChaCha20-Poly1305 under a key, nonce and AAD: the ciphertext and its tag. -/
  encrypt : Derived → Nonce → Bytes → (plaintext : Bytes) →
    Option ({ c : Bytes // c.length = plaintext.length } × Tag)
  /-- Verifies the tag under a key, nonce and AAD, then decrypts. -/
  decrypt : Derived → Nonce → Bytes → (ciphertext : Bytes) → Tag →
    Option { p : Bytes // p.length = ciphertext.length }

namespace Primitives

variable (prim : Primitives)

/-- Encryption with the length proof dropped. -/
def encryptBytes (key : prim.Derived) (nonce : Nonce) (aad plaintext : Bytes) :
    Option (Bytes × Tag) :=
  (prim.encrypt key nonce aad plaintext).map fun out => (out.1.val, out.2)

/-- Decryption with the length proof dropped. -/
def decryptBytes (key : prim.Derived) (nonce : Nonce) (aad ciphertext : Bytes) (tag : Tag) :
    Option Bytes :=
  (prim.decrypt key nonce aad ciphertext tag).map Subtype.val

theorem encryptBytes_length {key : prim.Derived} {nonce : Nonce} {aad plaintext c : Bytes}
    {tag : Tag} (h : prim.encryptBytes key nonce aad plaintext = some (c, tag)) :
    c.length = plaintext.length := by
  obtain ⟨⟨⟨c', hc⟩, tag'⟩, -, he⟩ := Option.map_eq_some_iff.mp h
  cases he
  exact hc

/-- HKDF and HMAC have an output for every input: 32 bytes are within HKDF's limit, and
HMAC takes keys of every length. -/
structure Total : Prop where
  hkdf : ∀ ikm salt info, (prim.hkdf ikm salt info).isSome
  hmac : ∀ key input, (prim.hmac key input).isSome

/-- Decryption inverts encryption under the same key, nonce and AAD. -/
def DecryptsEncrypted : Prop :=
  ∀ key nonce aad plaintext c tag,
    prim.encryptBytes key nonce aad plaintext = some (c, tag) →
      prim.decryptBytes key nonce aad c tag = some plaintext

end Primitives

/-! ## HKDF, HMAC and randomness -/

/-- `HKDF_SALT`. -/
def hkdfSalt : Bytes := byteString "cryptbox/hkdf-sha256/v1\x00"

section

variable (prim : Primitives)

/-- Derives a key under the crate's fixed salt, with the concatenation of `info`. -/
def hkdfSha256 (inputKeyMaterial : Bytes) (info : List Bytes) : Result prim.Derived :=
  okOr (prim.hkdf inputKeyMaterial hkdfSalt info.flatten) .internal

/-- HMAC-SHA-256 over the concatenation of `input`. -/
def hmacSha256 (key : prim.Derived) (input : List Bytes) : Result (Block 32) :=
  okOr (prim.hmac key input.flatten) .internal

end

/-- `random_bytes`, from what the random source returned. -/
def randomBytes {n : Nat} (draw : Option (Block n)) : Result (Block n) :=
  okOr draw .randomnessUnavailable

end Cryptbox

import Cryptbox.Value

/-!
# Legacy formats and permissive reads

`migrate/legacy.rs` and `migrate/read.rs`. Before a migration is complete a column holds
envelopes and legacy bytes; `MaybeSealed` tells them apart by the magic alone and reads
either.
-/

namespace Cryptbox

open Base Envelope

/-- An application's format for data stored before encryption. -/
structure LegacyFormat where
  recover : Bytes → Except LegacyError Bytes

/-- Recovers plaintext with the handler, or takes the bytes as they are without one. -/
def recover (bytes : Bytes) (legacy : Option LegacyFormat) : Except LegacyError Bytes :=
  match legacy with
  | some legacy => legacy.recover bytes
  | none => .ok bytes

/-- A stored standalone value that is an envelope or legacy bytes. -/
inductive MaybeSealed (F : Seal) where
  | sealed (s : Sealed F none)
  | legacy (bytes : Bytes)

def decodeLegacy (F : Seal) (bytes : Bytes) (legacy : Option LegacyFormat) : Result F.Value := do
  let plaintext ← mapErr (recover bytes legacy) .legacyRecoveryFailed
  mapErr (F.codec.decode plaintext) .codecFailed

namespace MaybeSealed

variable {F : Seal}

/-- Bytes with the magic must be a supported envelope; all others are legacy. -/
def fromBytes (F : Seal) (bytes : Bytes) : Result (MaybeSealed F) :=
  match attach (inspectCiphertext bytes) with
  | .ok info => .ok (.sealed (.inspected bytes info))
  | .error (.err .notCiphertext) => .ok (.legacy bytes)
  | .error f => .error f

/-- `open_legacy` with a handler, and `open` without one. -/
def openWith (prim : Primitives) (m : MaybeSealed F) (keys : EncryptionKeys)
    (legacy : Option LegacyFormat) : Result F.Value :=
  match m with
  | sealed s => s.open prim keys
  | .legacy bytes => decodeLegacy F bytes legacy

def isLegacy : MaybeSealed F → Bool
  | sealed _ => false
  | .legacy _ => true

end MaybeSealed

/-- `MaybeSealed::open`. -/
def MaybeSealed.open {F : Seal} (prim : Primitives) (m : MaybeSealed F) (keys : EncryptionKeys) :
    Result F.Value :=
  m.openWith prim keys none

/-- `MaybeSealed::open_legacy`. -/
def MaybeSealed.openLegacy {F : Seal} (prim : Primitives) (m : MaybeSealed F)
    (keys : EncryptionKeys) (legacy : LegacyFormat) : Result F.Value :=
  m.openWith prim keys (some legacy)

namespace MaybeSealed

variable {F : Seal}

theorem fromBytes_sealed (s : Sealed F none) : fromBytes F s.asBytes = .ok (sealed s) := by
  obtain ⟨info, hInfo⟩ := s.parses
  have hAttach : attach (inspectCiphertext s.asBytes) = .ok ⟨info, hInfo⟩ :=
    attach_eq_ok.mpr hInfo
  rw [fromBytes, hAttach]
  rfl

theorem fromBytes_legacy {bytes : Bytes} (h : isCiphertext bytes = false) :
    fromBytes F bytes = .ok (.legacy bytes) := by
  have hAttach : attach (inspectCiphertext bytes) = err .notCiphertext :=
    attach_eq_error.mpr (inspectCiphertext_notCiphertext h)
  rw [fromBytes, hAttach]

/-- Bytes with the magic are read as an envelope or not at all. -/
theorem exists_sealed {bytes : Bytes} {m : MaybeSealed F} (hMagic : isCiphertext bytes = true)
    (h : fromBytes F bytes = .ok m) : ∃ s, m = sealed s ∧ s.asBytes = bytes := by
  unfold fromBytes at h
  split at h
  · next info _ =>
    cases h
    exact ⟨.inspected bytes info, rfl, rfl⟩
  · next hError =>
    have hInspect := attach_eq_error.mp hError
    rcases inspectCiphertext_cases bytes with ⟨-, l, -, -, hOk⟩ | ⟨hNone, -⟩ | ⟨-, e, hBad, hErr⟩
    · cases hInspect.symm.trans hOk
    · cases hNone.symm.trans hMagic
    · cases hInspect.symm.trans hErr
      exact hBad.elim
  · cases h

/-- Only bytes without the magic are legacy. -/
theorem isLegacy_iff {bytes : Bytes} :
    (∃ m, fromBytes F bytes = .ok m ∧ m.isLegacy = true) ↔ isCiphertext bytes = false := by
  constructor
  · intro h
    obtain ⟨m, hRead, hLegacy⟩ := h
    apply Bool.eq_false_iff.mpr
    intro hMagic
    obtain ⟨s, rfl, -⟩ := exists_sealed hMagic hRead
    cases hLegacy
  · exact fun hMagic => ⟨_, fromBytes_legacy hMagic, rfl⟩

end MaybeSealed

end Cryptbox

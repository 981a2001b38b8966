import Cryptbox.Id
import Cryptbox.Base.Except

/-!
# Errors

`error.rs`. A call that does not return `Ok` returns one of the library's errors or
panics; `Failure` is either, and `Result` is what every modelled function returns. Codecs,
normalizers and legacy handlers belong to the application and report through errors of
their own.
-/

namespace Cryptbox

open Base

/-- The non-sensitive category of a codec failure. -/
inductive CodecErrorKind where
  | encoding
  | decoding
  | invalidUtf8
  deriving DecidableEq, Repr

structure CodecError where
  kind : CodecErrorKind
  deriving DecidableEq, Repr

/-- A non-sensitive blind-index normalization failure. -/
inductive BlindIndexError where
  | new
  deriving DecidableEq, Repr

/-- The non-sensitive category of a legacy recovery failure (`migrate/legacy.rs`). -/
inductive LegacyErrorKind where
  | malformed
  | authenticationFailed
  | keyUnavailable
  deriving DecidableEq, Repr

structure LegacyError where
  kind : LegacyErrorKind
  deriving DecidableEq, Repr

/-- An error returned by the library. -/
inductive Error where
  | notCiphertext
  | invalidEnvelope
  | unsupportedFormatVersion (version : UInt8)
  | unsupportedSuite (suite : UInt8)
  | unsupportedFlags (flags : UInt8)
  | unknownEncryptionKey (id : KeyId)
  | unknownBlindIndexKey (id : IndexKeyId)
  | authenticationFailed
  | contextMismatch
  | codecFailed (error : CodecError)
  | blindIndexNormalizationFailed (error : BlindIndexError)
  | blindIndexKeysNotConfigured
  | unexpectedRecord
  | duplicateEncryptionKey (id : KeyId)
  | duplicateBlindIndexKey (id : IndexKeyId)
  | randomnessUnavailable
  | invalidKeyEncoding
  | internal
  | messageTooLong
  | paddingOverflow
  | invalidPadding
  | invalidBlindIndex
  | unsupportedBlindIndexVersion (version : UInt8)
  | indexColumnMismatch (expected actual : Nat)
  | legacyRecoveryFailed (error : LegacyError)
  deriving DecidableEq, Repr

/-- What a call does instead of returning `Ok`. -/
inductive Failure where
  /-- It returns `Err`. -/
  | err (error : Error)
  /-- It panics: an index out of range, a capacity overflow, a failed `expect`. -/
  | panic
  deriving DecidableEq, Repr

abbrev Result := Except Failure

/-- `Err(error)`. -/
abbrev err {α : Type} (error : Error) : Result α := .error (.err error)

/-- A panic. -/
abbrev panics {α : Type} : Result α := .error .panic

/-- `if !condition { return Err(error) }`. -/
def ensure (condition : Prop) [Decidable condition] (error : Error) : Result Unit :=
  if condition then .ok () else err error

@[simp] theorem ensure_eq_ok {condition : Prop} [Decidable condition] {error : Error} {u : Unit} :
    ensure condition error = .ok u ↔ condition := by
  unfold ensure
  split <;> simp [*]

theorem ensure_eq_error {condition : Prop} [Decidable condition] {error : Error} {f : Failure} :
    ensure condition error = .error f ↔ ¬ condition ∧ f = .err error := by
  unfold ensure
  split <;> simp [*, eq_comm]

/-- `option.ok_or(error)?`. -/
def okOr {α : Type} (option : Option α) (error : Error) : Result α :=
  match option with
  | some a => .ok a
  | none => err error

@[simp] theorem okOr_eq_ok {α : Type} {option : Option α} {error : Error} {a : α} :
    okOr option error = .ok a ↔ option = some a := by
  cases option <;> simp [okOr]

theorem okOr_eq_error {α : Type} {option : Option α} {error : Error} {f : Failure} :
    okOr option error = .error f ↔ option = none ∧ f = .err error := by
  cases option <;> simp [okOr, eq_comm]

/-- `result.map_err(from)?`, for an error of the application. -/
def mapErr {ε α : Type} (result : Except ε α) (wrap : ε → Error) : Result α :=
  match result with
  | .ok a => .ok a
  | .error e => err (wrap e)

@[simp] theorem mapErr_eq_ok {ε α : Type} {result : Except ε α} {wrap : ε → Error} {a : α} :
    mapErr result wrap = .ok a ↔ result = .ok a := by
  cases result <;> simp [mapErr]

/-- A result together with the equation that says where it comes from. -/
def attach {α : Type} (result : Result α) : Result { a : α // result = .ok a } :=
  match result with
  | .ok a => .ok ⟨a, rfl⟩
  | .error f => .error f

@[simp] theorem attach_eq_ok {α : Type} {result : Result α} {a : { a : α // result = .ok a }} :
    attach result = .ok a ↔ result = .ok a.val := by
  cases result with
  | error f => simp [attach]
  | ok b =>
    refine ⟨fun h => a.property, fun h => congrArg Except.ok (Subtype.ext ?_)⟩
    exact Except.ok.inj h

@[simp] theorem attach_eq_error {α : Type} {result : Result α} {f : Failure} :
    attach result = .error f ↔ result = .error f := by
  cases result <;> simp [attach]

end Cryptbox

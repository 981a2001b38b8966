import Cryptbox.Migrate.Rewrite

/-!
# Legacy bytes and envelopes are handled apart

The magic alone decides whether stored bytes are legacy. With it, no reader and no planner
calls the legacy handler, whatever else is wrong with the bytes; without it, none of them
consults the encryption keys to read.

A call of the handler is seen when the handler has effects: `Handler m` answers in a monad, and the
entry points are run with it there.

* `planLegacyRow_isOk`: what it takes to seal a legacy row.
* `run_planRowWith`: a handler without effects leaves the planner as it was modelled.
* `legacy_separated`: the five entry points, over two handlers and two keyrings, and over a handler
  with effects.
-/

namespace Cryptbox

open Base Envelope

section

variable {prim : Primitives} {F : Seal} {R : Type}

namespace RowPlanner

/-- **A legacy row is sealed** when its bytes are recovered to an encodable value and the value
is sealed and indexed. -/
theorem planLegacyRow_isOk {planner : RowPlanner prim F R} {context : SealContext} {bytes : Bytes}
    {draw : Option Nonce} :
    (∃ outcome, planner.planLegacyRow context bytes draw = .ok outcome) ↔
      ∃ plaintext value encoded, recover bytes planner.legacy = .ok plaintext ∧
        F.codec.decode plaintext = .ok value ∧ F.codec.encode value = .ok encoded ∧
        (∃ sealed, Bound.seal prim context F.padding encoded.val planner.keys draw = .ok sealed) ∧
        ∃ indexes, planner.deriveIndexes value = .ok indexes := by
  unfold planLegacyRow
  simp only [bind_eq_ok, mapErr_eq_ok, pure_eq_ok]
  constructor
  · intro h
    obtain ⟨_, plaintext, hRecover, value, hDecode, encoded, hEncode, sealed, hSeal, indexes,
      hDerive, -⟩ := h
    exact ⟨plaintext, value, encoded, hRecover, hDecode, hEncode, ⟨sealed, hSeal⟩, indexes, hDerive⟩
  · intro h
    obtain ⟨plaintext, value, encoded, hRecover, hDecode, hEncode, ⟨sealed, hSeal⟩, indexes,
      hDerive⟩ := h
    exact ⟨_, plaintext, hRecover, value, hDecode, encoded, hEncode, sealed, hSeal, indexes,
      hDerive, rfl⟩

/-- Only bytes without the magic are classified as legacy. -/
theorem classifyRow_eq_legacy (planner : RowPlanner prim F R) (row : R) {bytes : Bytes}
    {indexes : List Bytes} (hArity : indexes.length = planner.indexes.length) :
    planner.classifyRow row bytes indexes = .ok .legacy ↔ isCiphertext bytes = false := by
  constructor
  · intro h
    apply Bool.eq_false_iff.mpr
    intro hMagic
    rcases inspectCiphertext_cases bytes with ⟨-, l, hFits, rfl, -⟩ | ⟨hNone, -⟩ |
      ⟨-, e, hBad, hErr⟩
    · rw [classifyRow_bytes planner row hArity hFits] at h
      obtain ⟨stale, -, h⟩ := bind_eq_ok.mp h
      cases stale with
      | true => cases h
      | false =>
        obtain ⟨stale, -, h⟩ := bind_eq_ok.mp h
        cases stale <;> cases h
    · cases hNone.symm.trans hMagic
    · cases h.symm.trans (classifyRow_malformed planner row hArity hBad hErr)
  · exact classifyRow_legacy planner row hArity

end RowPlanner

end

/-! ## Handlers with effects -/

/-- `LegacyFormat::recover` of an application that does more than answer: its calls are effects. -/
abbrev Handler (m : Type → Type) := Bytes → m (Except LegacyError Bytes)

section

variable {m : Type → Type} [Monad m] {α β : Type}

/-- Code that calls no handler. -/
def silently (result : Result α) : ExceptT Failure m α := ExceptT.mk (pure result)

/-- `recover`. -/
def recoverWith (bytes : Bytes) (legacy : Option (Handler m)) : ExceptT Failure m Bytes :=
  match legacy with
  | some handler => ExceptT.mk do return mapErr (← handler bytes) .legacyRecoveryFailed
  | none => silently (.ok bytes)

/-- `decode_legacy`. -/
def decodeLegacyWith (F : Seal) (bytes : Bytes) (legacy : Option (Handler m)) :
    ExceptT Failure m F.Value := do
  let plaintext ← recoverWith bytes legacy
  silently (mapErr (F.codec.decode plaintext) .codecFailed)

/-- `open_legacy` with a handler, and `open` without one. -/
def MaybeSealed.runWith {F : Seal} (prim : Primitives) (read : MaybeSealed F)
    (keys : EncryptionKeys) (legacy : Option (Handler m)) : ExceptT Failure m F.Value :=
  match read with
  | sealed s => silently (s.open prim keys)
  | .legacy bytes => decodeLegacyWith F bytes legacy

namespace RowPlanner

variable {prim : Primitives} {F : Seal} {R : Type} (planner : RowPlanner prim F R)

/-- `classify_row`, of a planner with this handler. -/
def classifyRowWith (_handler : Option (Handler m)) (row : R) (ciphertext : Bytes)
    (indexes : List Bytes) : ExceptT Failure m RowState := do
  silently (planner.checkArity indexes)
  match inspectCiphertext ciphertext with
  | .error (.err .notCiphertext) => return .legacy
  | .error f => throw f
  | .ok _ => do
    if ← silently (Bound.needsReseal (planner.context row).envelope.fingerprint F.padding ciphertext
      planner.keys) then return .stale
    if ← silently (anyStale (planner.indexes.zip indexes)) then return .stale
    return .current

/-- `plan_legacy_row`. -/
def planLegacyRowWith (handler : Option (Handler m)) (context : SealContext) (bytes : Bytes)
    (draw : Option Nonce) : ExceptT Failure m RowOutcome := do
  let plaintext ← recoverWith bytes handler
  let value ← silently (mapErr (F.codec.decode plaintext) .codecFailed)
  let plaintext ← silently (mapErr (F.codec.encode value) .codecFailed)
  let ciphertext ← silently (Bound.seal prim context F.padding plaintext.val planner.keys draw)
  let indexes ← silently (planner.deriveIndexes value)
  return ⟨.legacy, some ⟨ciphertext, indexes⟩⟩

/-- `plan_row`. -/
def planRowWith (handler : Option (Handler m)) (row : R) (ciphertext : Bytes)
    (indexes : List Bytes) (draw : Option Nonce) : ExceptT Failure m RowOutcome := do
  silently (planner.checkArity indexes)
  match inspectCiphertext ciphertext with
  | .error (.err .notCiphertext) =>
    planner.planLegacyRowWith handler (planner.context row) ciphertext draw
  | .error f => throw f
  | .ok _ => silently (planner.planEnvelopeRow (planner.context row) ciphertext indexes draw)

end RowPlanner

/-- A handler that notes its calls is seen to be called. -/
example : ((recoverWith [1] (some fun bytes => do set [bytes]; return .ok bytes) :
    ExceptT Failure (StateM (List Bytes)) Bytes).run.run []).2 = [[1]] := rfl

/-! ### Without a call -/

variable [LawfulMonad m]

theorem run_silently_bind (result : Result α) (f : α → ExceptT Failure m β) :
    (silently result >>= f).run = match result with
      | .ok a => (f a).run
      | .error failure => pure (.error failure) := by
  rw [ExceptT.run_bind, silently, ExceptT.run_mk, pure_bind]
  cases result <;> rfl

/-- What goes on without a call after code without one has no call. -/
theorem run_silently_bind_pure {result : Result α} {f : α → ExceptT Failure m β}
    {g : α → Result β} (h : ∀ a, (f a).run = pure (g a)) :
    (silently result >>= f).run = pure (result >>= g) := by
  rw [run_silently_bind]
  cases result with
  | ok a => exact h a
  | error failure => rfl

/-- A handler that only answers. -/
def LegacyFormat.handler (legacy : LegacyFormat) : Handler m :=
  fun bytes => pure (legacy.recover bytes)

theorem recoverWith_handler (bytes : Bytes) (legacy : Option LegacyFormat) :
    recoverWith (m := m) bytes (legacy.map LegacyFormat.handler)
      = silently (mapErr (recover bytes legacy) .legacyRecoveryFailed) := by
  cases legacy with
  | none => rfl
  | some legacy =>
    show ExceptT.mk (pure (legacy.recover bytes) >>= fun answer =>
      pure (mapErr answer .legacyRecoveryFailed)) = _
    rw [pure_bind]
    rfl

section

variable {prim : Primitives} {F : Seal} {R : Type} (planner : RowPlanner prim F R) (row : R)
  (bytes : Bytes) (indexes : List Bytes) (draw : Option Nonce)

theorem run_openWith (read : MaybeSealed F) (keys : EncryptionKeys) (legacy : Option LegacyFormat) :
    (read.runWith (m := m) prim keys (legacy.map LegacyFormat.handler)).run
      = pure (read.openWith prim keys legacy) := by
  cases read with
  | sealed s => rfl
  | legacy bytes =>
    show (decodeLegacyWith F bytes _).run = pure (decodeLegacy F bytes legacy)
    unfold decodeLegacyWith decodeLegacy
    rw [recoverWith_handler]
    exact run_silently_bind_pure fun _ => rfl

namespace RowPlanner

/-- Classification calls no handler. -/
theorem run_classifyRowWith (handler : Option (Handler m)) :
    (planner.classifyRowWith handler row bytes indexes).run
      = pure (planner.classifyRow row bytes indexes) := by
  unfold classifyRowWith classifyRow
  refine run_silently_bind_pure fun _ => ?_
  cases inspectCiphertext bytes with
  | error f =>
    cases f with
    | panic => rfl
    | err e => cases e <;> rfl
  | ok _ =>
    refine run_silently_bind_pure fun stale => ?_
    cases stale with
    | true => rfl
    | false =>
      refine run_silently_bind_pure fun stale => ?_
      cases stale <;> rfl

/-- **A handler without effects** leaves the planner as it was modelled. -/
theorem run_planRowWith (legacy : Option LegacyFormat) :
    (planner.planRowWith (m := m) (legacy.map LegacyFormat.handler) row bytes indexes draw).run
      = pure ({ planner with legacy }.planRow row bytes indexes draw) := by
  unfold planRowWith planRow
  refine run_silently_bind_pure fun _ => ?_
  cases inspectCiphertext bytes with
  | ok _ => rfl
  | error f =>
    cases f with
    | panic => rfl
    | err e =>
      cases e with
      | notCiphertext =>
        show (planner.planLegacyRowWith _ _ _ _).run = pure (planLegacyRow _ _ _ _)
        unfold planLegacyRowWith planLegacyRow
        rw [recoverWith_handler]
        refine run_silently_bind_pure fun _ => ?_
        refine run_silently_bind_pure fun _ => ?_
        refine run_silently_bind_pure fun _ => ?_
        refine run_silently_bind_pure fun _ => ?_
        exact run_silently_bind_pure fun _ => rfl
      | _ => rfl

/-- **An envelope is planned without a call**, well-formed or not. -/
theorem planRowWith_of_isCiphertext (handler : Option (Handler m))
    (hMagic : isCiphertext bytes = true) :
    (planner.planRowWith handler row bytes indexes draw).run
      = pure (planner.planRow row bytes indexes draw) := by
  unfold planRowWith planRow
  refine run_silently_bind_pure fun _ => ?_
  cases hInspect : inspectCiphertext bytes with
  | ok _ => rfl
  | error f =>
    cases f with
    | panic => rfl
    | err e =>
      cases e with
      | notCiphertext =>
        rcases inspectCiphertext_cases bytes with ⟨-, l, -, -, hOk⟩ | ⟨hNone, -⟩ | ⟨-, e, hBad, hErr⟩
        · cases hInspect.symm.trans hOk
        · cases hNone.symm.trans hMagic
        · cases hInspect.symm.trans hErr
          exact hBad.elim
      | _ => rfl

end RowPlanner

end

end

section

variable {prim : Primitives} {F : Seal} {R : Type}

/-- **Legacy fallback never applies to envelopes, nor envelope handling to legacy bytes.** -/
theorem legacy_separated (planner : RowPlanner prim F R) (row : R) (bytes : Bytes)
    (indexes : List Bytes) (hArity : indexes.length = planner.indexes.length) :
    ((∃ m, MaybeSealed.fromBytes F bytes = .ok m ∧ m.isLegacy = true) ↔
      isCiphertext bytes = false) ∧
    (planner.classifyRow row bytes indexes = .ok .legacy ↔ isCiphertext bytes = false) ∧
    (isCiphertext bytes = true → ∀ legacy legacy' : Option LegacyFormat,
      (∀ m keys, MaybeSealed.fromBytes F bytes = .ok m →
        m.openWith prim keys legacy = m.openWith prim keys legacy') ∧
      { planner with legacy }.classifyRow row bytes indexes
        = { planner with legacy := legacy' }.classifyRow row bytes indexes ∧
      ∀ draw, { planner with legacy }.planRow row bytes indexes draw
        = { planner with legacy := legacy' }.planRow row bytes indexes draw) ∧
    (isCiphertext bytes = true → ∀ (m : Type → Type) [Monad m] [LawfulMonad m]
      (handler : Option (Handler m)),
      (∀ read keys, MaybeSealed.fromBytes F bytes = .ok read →
        (read.runWith prim keys handler).run = pure (read.openWith prim keys none)) ∧
      (planner.classifyRowWith handler row bytes indexes).run
        = pure (planner.classifyRow row bytes indexes) ∧
      ∀ draw, (planner.planRowWith handler row bytes indexes draw).run
        = pure (planner.planRow row bytes indexes draw)) ∧
    (isCiphertext bytes = false →
      (∀ m keys keys' legacy, MaybeSealed.fromBytes F bytes = .ok m →
        m.openWith prim keys legacy = m.openWith prim keys' legacy) ∧
      (prim.Total → prim.Encrypts → ∀ (keys keys' : EncryptionKeyring) (nonce nonce' : Nonce),
        (∃ outcome, { planner with keys }.planRow row bytes indexes (some nonce) = .ok outcome) ↔
          ∃ outcome, { planner with keys := keys' }.planRow row bytes indexes (some nonce')
            = .ok outcome) ∧
      ∀ (C : Option RecordKind) (s : Sealed F C), Sealed.fromBytes bytes ≠ .ok s) := by
  refine ⟨MaybeSealed.isLegacy_iff, planner.classifyRow_eq_legacy row hArity, ?_, ?_, ?_⟩
  · intro hMagic legacy legacy'
    refine ⟨?_, rfl, ?_⟩
    · intro m keys hRead
      obtain ⟨s, rfl, -⟩ := MaybeSealed.exists_sealed hMagic hRead
      rfl
    · intro draw
      rcases inspectCiphertext_cases bytes with ⟨-, l, hFits, rfl, -⟩ | ⟨hNone, -⟩ |
        ⟨-, e, hBad, hErr⟩
      · exact (RowPlanner.planRow_bytes { planner with legacy } row hArity hFits draw).trans
          (RowPlanner.planRow_bytes { planner with legacy := legacy' } row hArity hFits draw).symm
      · cases hNone.symm.trans hMagic
      · have hErr' (legacy : Option LegacyFormat) :=
          RowPlanner.planRow_malformed { planner with legacy } row hArity hBad hErr draw
        exact (hErr' legacy).trans (hErr' legacy').symm
  · intro hMagic m _ _ handler
    refine ⟨?_, planner.run_classifyRowWith row bytes indexes handler, ?_⟩
    · intro read keys hRead
      obtain ⟨s, rfl, -⟩ := MaybeSealed.exists_sealed hMagic hRead
      rfl
    · intro draw
      exact planner.planRowWith_of_isCiphertext row bytes indexes draw handler hMagic
  · intro hMagic
    refine ⟨?_, ?_, ?_⟩
    · intro m keys keys' legacy hRead
      cases (MaybeSealed.fromBytes_legacy hMagic).symm.trans hRead
      rfl
    · intro hTotal hEncrypts keys keys' nonce nonce'
      rw [RowPlanner.planRow_legacy { planner with keys } row hArity hMagic,
        RowPlanner.planRow_legacy { planner with keys := keys' } row hArity hMagic,
        RowPlanner.planLegacyRow_isOk, RowPlanner.planLegacyRow_isOk]
      simp only [Bound.exists_seal hTotal hEncrypts]
      rfl
    · intro C s hRead
      obtain ⟨l, -, hBytes⟩ := s.exists_layout
      rw [Sealed.fromBytes_eq_ok.mp hRead] at hBytes
      rw [hBytes, isCiphertext_bytes] at hMagic
      cases hMagic

end

/-! ## The vectors -/

/-- The plaintext of the vectors is legacy, and a planner seals it after a rotation as it did
before. -/
theorem legacy_separated_vector :
    ∃ outcome, { RowPlanner.new Vectors.prim.completed Vectors.vectorSeal Unit
      (.keyring Vectors.encryptionKeyring) with keys := Vectors.rotatedKeyring }.planRow ()
        Vectors.plaintext.val [] (some Vectors.nonce) = .ok outcome := by
  let planner := RowPlanner.new Vectors.prim.completed Vectors.vectorSeal Unit
    (.keyring Vectors.encryptionKeyring)
  have hPlanned : ∃ outcome, planner.planRow () Vectors.plaintext.val [] (some Vectors.nonce)
      = .ok outcome := by
    have hOk : (planner.planRow () Vectors.plaintext.val [] (some Vectors.nonce)).isOk = true := by
      decide +kernel
    revert hOk
    cases planner.planRow () Vectors.plaintext.val [] (some Vectors.nonce) with
    | ok outcome => exact fun _ => ⟨outcome, rfl⟩
    | error f =>
      intro h
      cases h
  obtain ⟨-, -, -, -, hLegacy⟩ := legacy_separated planner () Vectors.plaintext.val [] rfl
  obtain ⟨-, hKeys, -⟩ := hLegacy (by decide)
  exact (hKeys Vectors.total.completed Vectors.prim.completed_encrypts _ _ _ _).mp hPlanned

end Cryptbox

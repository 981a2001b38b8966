import Cryptbox.Migrate.Row
import Cryptbox.Vectors

/-!
# What a rewrite does to a row

Every successful plan is one of three: the row is current and nothing is written, an
envelope row is rewritten (`EnvelopeRewrite`), or a legacy row is sealed (`LegacyRewrite`).
The facts about rewrites follow from these descriptions.

* `RowPlanner.planRow_cases`: the three plans.
* `RowPlanner.classifyRow_write`: what a plan writes is current.
* `RowPlanner.planRow_state`: a plan finds the state that classification finds.
* `RowPlanner.planRow_preserves`: a rewritten row reads as it read before.
* `RowPlanner.planRow_columns`: which columns a rewrite derives and which it keeps.
-/

namespace Cryptbox

open Base Envelope

variable {prim : Primitives} {F : Seal} {R : Type}

/-- The rewrite of an envelope row that decrypts to `plaintext`. -/
structure EnvelopeRewrite (planner : RowPlanner prim F R) (context : SealContext)
    (ciphertext : Bytes) (indexes : List Bytes) (draw : Option Nonce) (plaintext : Bytes)
    (write : RowWrite) : Prop where
  opens : Bound.open prim context ciphertext planner.keys = .ok plaintext
  /-- A stale envelope is sealed anew, a current one is kept. -/
  ciphertext :
    (Bound.needsReseal context.fingerprint F.padding ciphertext planner.keys = .ok true ∧
      Bound.seal prim context F.padding plaintext planner.keys draw = .ok write.ciphertext) ∨
    (Bound.needsReseal context.fingerprint F.padding ciphertext planner.keys = .ok false ∧
      write.ciphertext = ciphertext)
  indexes : List.Forall₂ (fun c new => c.1.Rewrites plaintext c.2 new)
    (planner.indexes.zip indexes) write.indexes

/-- The rewrite of a legacy row that recovers to `plaintext` and decodes to `value`. -/
structure LegacyRewrite (planner : RowPlanner prim F R) (context : SealContext) (bytes : Bytes)
    (draw : Option Nonce) (plaintext : Bytes) (value : F.Value) (encoded : Vec)
    (write : RowWrite) : Prop where
  legacy : isCiphertext bytes = false
  recovered : recover bytes planner.legacy = .ok plaintext
  decoded : F.codec.decode plaintext = .ok value
  encodes : F.codec.encode value = .ok encoded
  sealed : Bound.seal prim context F.padding encoded.val planner.keys draw = .ok write.ciphertext
  derived : List.Forall₂ (fun column new => column.derive value = .ok new) planner.indexes
    write.indexes

namespace RowPlanner

variable {planner : RowPlanner prim F R} {row : R} {context : SealContext} {ciphertext : Bytes}
  {indexes : List Bytes} {draw : Option Nonce} {outcome : RowOutcome}

/-! ## The three plans -/

theorem planLegacyRow_eq_ok (hLegacy : isCiphertext ciphertext = false)
    (h : planner.planLegacyRow context ciphertext draw = .ok outcome) :
    ∃ write plaintext value encoded, outcome = ⟨.legacy, some write⟩ ∧
      LegacyRewrite planner context ciphertext draw plaintext value encoded write := by
  obtain ⟨plaintext, hRecover, h⟩ := bind_eq_ok.mp h
  obtain ⟨value, hDecode, h⟩ := bind_eq_ok.mp h
  obtain ⟨encoded, hEncode, h⟩ := bind_eq_ok.mp h
  obtain ⟨sealed, hSeal, h⟩ := bind_eq_ok.mp h
  obtain ⟨derived, hDerive, h⟩ := bind_eq_ok.mp h
  cases pure_eq_ok.mp h
  exact ⟨⟨sealed, derived⟩, plaintext, value, encoded, rfl, hLegacy, mapErr_eq_ok.mp hRecover,
    mapErr_eq_ok.mp hDecode, mapErr_eq_ok.mp hEncode, hSeal, mapM_eq_ok.mp hDerive⟩

theorem planCiphertext_eq_ok {envelopeIsStale : Bool} {out : Bytes × Bytes}
    (h : planner.planCiphertext context ciphertext envelopeIsStale draw = .ok out) :
    Bound.open prim context ciphertext planner.keys = .ok out.1 ∧
      ((envelopeIsStale = true ∧
        Bound.seal prim context F.padding out.1 planner.keys draw = .ok out.2) ∨
      (envelopeIsStale = false ∧ out.2 = ciphertext)) := by
  unfold planCiphertext at h
  cases envelopeIsStale with
  | true =>
    obtain ⟨hOpen, hSeal⟩ := Bound.reseal_eq_ok.mp h
    exact ⟨hOpen, Or.inl ⟨rfl, hSeal⟩⟩
  | false =>
    obtain ⟨plaintext, hOpen, h⟩ := bind_eq_ok.mp h
    cases pure_eq_ok.mp h
    exact ⟨hOpen, Or.inr ⟨rfl, rfl⟩⟩

theorem planIndexes_eq_ok {staleColumns : List Bool} {plaintext : Bytes} {new : List Bytes}
    (hArity : indexes.length = planner.indexes.length)
    (hStale : List.Forall₂ (fun c stale => c.1.isStale c.2 = .ok stale)
      (planner.indexes.zip indexes) staleColumns)
    (h : planner.planIndexes indexes staleColumns plaintext = .ok new) :
    List.Forall₂ (fun c new => c.1.Rewrites plaintext c.2 new) (planner.indexes.zip indexes)
      new := by
  unfold planIndexes at h
  by_cases hAny : staleColumns.contains true = true
  · rw [if_pos hAny] at h
    obtain ⟨value, hDecode, h⟩ := bind_eq_ok.mp h
    apply (forall₂_of_zip hStale (mapM_eq_ok.mp h)).imp
    rintro ⟨column, old⟩ new ⟨stale, hColumn, hNew⟩
    cases stale with
    | true => exact .derived hColumn (mapErr_eq_ok.mp hDecode) hNew
    | false =>
      cases hNew
      exact .kept hColumn
  · rw [if_neg hAny] at h
    cases h
    -- No column is stale, so each keeps the bytes it was zipped with.
    have hFresh : ∀ c ∈ planner.indexes.zip indexes, c.1.isStale c.2 = .ok false := by
      intro c hc
      obtain ⟨stale, hMem, hColumn⟩ := forall₂_exists hStale hc
      cases stale with
      | true => exact absurd (List.contains_iff_mem.mpr hMem) hAny
      | false => exact hColumn
    have hSnd : (planner.indexes.zip indexes).map Prod.snd = indexes :=
      List.map_snd_zip (le_of_eq hArity)
    suffices h : List.Forall₂ (fun c new => c.1.Rewrites plaintext c.2 new)
        (planner.indexes.zip indexes) ((planner.indexes.zip indexes).map Prod.snd) by
      rwa [hSnd] at h
    refine List.forall₂_map_right_iff.mpr (List.forall₂_same.mpr ?_)
    exact fun c hc => .kept (hFresh c hc)

theorem planEnvelopeRow_eq_ok (hArity : indexes.length = planner.indexes.length)
    (h : planner.planEnvelopeRow context ciphertext indexes draw = .ok outcome) :
    (outcome = .unchanged .current ∧
      Bound.needsReseal context.fingerprint F.padding ciphertext planner.keys = .ok false ∧
      ∀ c ∈ planner.indexes.zip indexes, c.1.isStale c.2 = .ok false) ∨
    ∃ write plaintext, outcome = ⟨.stale, some write⟩ ∧
      EnvelopeRewrite planner context ciphertext indexes draw plaintext write := by
  obtain ⟨envelopeIsStale, hReseal, h⟩ := bind_eq_ok.mp h
  obtain ⟨staleColumns, hStale, h⟩ := bind_eq_ok.mp h
  have hStale := mapM_eq_ok.mp hStale
  by_cases hCurrent : (!envelopeIsStale && !staleColumns.contains true) = true
  · rw [if_pos hCurrent] at h
    have hOutcome := (pure_eq_ok.mp h).symm
    rw [Bool.and_eq_true, Bool.not_eq_true', Bool.not_eq_true'] at hCurrent
    obtain ⟨rfl, hAny⟩ := hCurrent
    refine Or.inl ⟨hOutcome, hReseal, ?_⟩
    intro c hc
    obtain ⟨stale, hMem, hColumn⟩ := forall₂_exists hStale hc
    cases stale with
    | true => rw [List.contains_iff_mem.mpr hMem] at hAny; cases hAny
    | false => exact hColumn
  · rw [if_neg hCurrent] at h
    obtain ⟨out, hOut, h⟩ := bind_eq_ok.mp h
    obtain ⟨new, hNew, h⟩ := bind_eq_ok.mp h
    cases pure_eq_ok.mp h
    obtain ⟨hOpen, hCiphertext⟩ := planCiphertext_eq_ok hOut
    refine Or.inr ⟨⟨out.2, new⟩, out.1, rfl, hOpen, ?_, planIndexes_eq_ok hArity hStale hNew⟩
    rcases hCiphertext with ⟨rfl, hSeal⟩ | ⟨rfl, hKept⟩
    · exact Or.inl ⟨hReseal, hSeal⟩
    · exact Or.inr ⟨hReseal, hKept⟩

/-- **Every successful plan** leaves a current row alone, rewrites an envelope row or seals a
legacy row. -/
theorem planRow_cases (h : planner.planRow row ciphertext indexes draw = .ok outcome) :
    indexes.length = planner.indexes.length ∧
    ((outcome = .unchanged .current ∧
        planner.classifyRow row ciphertext indexes = .ok .current) ∨
      (∃ write plaintext, outcome = ⟨.stale, some write⟩ ∧
        EnvelopeRewrite planner (planner.context row) ciphertext indexes draw plaintext write) ∨
      ∃ write plaintext value encoded, outcome = ⟨.legacy, some write⟩ ∧
        LegacyRewrite planner (planner.context row) ciphertext draw plaintext value encoded
          write) := by
  obtain ⟨_, hArity, h⟩ := bind_eq_ok.mp h
  have hArity : indexes.length = planner.indexes.length := ensure_eq_ok.mp hArity
  refine ⟨hArity, ?_⟩
  rcases inspectCiphertext_cases ciphertext with ⟨-, l, -, -, hInspect⟩ | ⟨hMagic, hInspect⟩ |
    ⟨-, e, hBad, hInspect⟩
  · rw [hInspect] at h
    rcases planEnvelopeRow_eq_ok hArity h with ⟨hOutcome, hReseal, hFresh⟩ | hRewrite
    · exact Or.inl ⟨hOutcome, classifyRow_eq_current.mpr ⟨hArity, hReseal, hFresh⟩⟩
    · exact Or.inr (Or.inl hRewrite)
  · rw [hInspect] at h
    exact Or.inr (Or.inr (planLegacyRow_eq_ok hMagic h))
  · -- The errors of malformed envelopes are passed on: none of them means legacy bytes.
    rw [hInspect] at h
    cases e <;> first | exact hBad.elim | cases h

/-! ## What is written is current -/

theorem forall₂_fresh {plaintext : Bytes} {new : List Bytes}
    (hArity : indexes.length = planner.indexes.length)
    (h : List.Forall₂ (fun c new => c.1.Rewrites plaintext c.2 new) (planner.indexes.zip indexes)
      new) :
    List.Forall₂ (fun column new => column.isStale new = .ok false) planner.indexes new := by
  have hFst : (planner.indexes.zip indexes).map Prod.fst = planner.indexes :=
    List.map_fst_zip (le_of_eq hArity.symm)
  rw [← hFst]
  exact List.forall₂_map_left_iff.mpr (h.imp fun _ _ hRewrites => hRewrites.isStale)

/-- A written row is current when its envelope is and its columns are not stale. -/
theorem classifyRow_fresh {write : RowWrite} (row : R)
    (hReseal : Bound.needsReseal (planner.context row).fingerprint F.padding write.ciphertext
      planner.keys = .ok false)
    (hFresh : List.Forall₂ (fun column new => column.isStale new = .ok false) planner.indexes
      write.indexes) :
    planner.classifyRow row write.ciphertext write.indexes = .ok .current :=
  classifyRow_eq_current.mpr ⟨hFresh.length_eq.symm, hReseal, fun _ hc =>
    List.forall₂_zip hFresh hc⟩

/-- **What a plan writes is current**, for any record ID that the planner may read with it. -/
theorem classifyRow_write {write : RowWrite}
    (h : planner.planRow row ciphertext indexes draw = .ok outcome)
    (hWrite : outcome.write = some write) (row' : R) :
    planner.classifyRow row' write.ciphertext write.indexes = .ok .current := by
  rw [classifyRow_congr planner row' row]
  obtain ⟨hArity, ⟨rfl, -⟩ | ⟨write', plaintext, rfl, hRewrite⟩ |
    ⟨write', plaintext, value, encoded, rfl, hRewrite⟩⟩ := planRow_cases h
  · cases hWrite
  · obtain rfl := Option.some.inj hWrite
    refine classifyRow_fresh row ?_ (forall₂_fresh hArity hRewrite.indexes)
    rcases hRewrite.ciphertext with ⟨-, hSeal⟩ | ⟨hReseal, hKept⟩
    · exact Bound.needsReseal_seal hSeal
    · rwa [hKept]
  · obtain rfl := Option.some.inj hWrite
    exact classifyRow_fresh row (Bound.needsReseal_seal hRewrite.sealed)
      (hRewrite.derived.imp fun _ _ hDerive => IndexColumn.isStale_derive hDerive)

/-- A plan writes as many indexes as the row has. -/
theorem planRow_length {write : RowWrite}
    (h : planner.planRow row ciphertext indexes draw = .ok outcome)
    (hWrite : outcome.write = some write) : write.indexes.length = indexes.length := by
  have hRow : indexes.length = planner.indexes.length := (planRow_cases h).1
  have hNew := classifyRow_eq_current.mp (classifyRow_write h hWrite row)
  rw [hRow, hNew.1]

/-- A plan without a write is for a current row. -/
theorem classifyRow_unchanged (h : planner.planRow row ciphertext indexes draw = .ok outcome)
    (hWrite : outcome.write = none) :
    planner.classifyRow row ciphertext indexes = .ok .current := by
  obtain ⟨-, ⟨-, hCurrent⟩ | ⟨write, plaintext, rfl, -⟩ |
    ⟨write, plaintext, value, encoded, rfl, -⟩⟩ := planRow_cases h
  · exact hCurrent
  · cases hWrite
  · cases hWrite

/-- **A plan finds the state that classification finds.** -/
theorem planRow_state (h : planner.planRow row ciphertext indexes draw = .ok outcome) :
    planner.classifyRow row ciphertext indexes = .ok outcome.state := by
  obtain ⟨hArity, ⟨rfl, hCurrent⟩ | ⟨write, plaintext, rfl, hRewrite⟩ |
    ⟨write, plaintext, value, encoded, rfl, hRewrite⟩⟩ := planRow_cases h
  · exact hCurrent
  · obtain ⟨l, -, -, -, hFits, rfl, -⟩ := Bound.open_eq_ok.mp hRewrite.opens
    rw [classifyRow_bytes planner row hArity hFits]
    rcases hRewrite.ciphertext with ⟨hReseal, -⟩ | ⟨hReseal, -⟩
    · exact bind_eq_ok.mpr ⟨true, hReseal, rfl⟩
    · refine bind_eq_ok.mpr ⟨false, hReseal, bind_eq_ok.mpr ⟨true, ?_, rfl⟩⟩
      cases hStale : anyStale (planner.indexes.zip indexes) with
      | ok stale =>
        cases stale with
        | true => rfl
        | false =>
          -- A row without a stale column would have been planned as current.
          have hCurrent := classifyRow_eq_current.mpr
            ⟨hArity, hReseal, anyStale_eq_false.mp hStale⟩
          cases (planRow_current hCurrent draw).symm.trans h
      | error f =>
        -- A plan examines every column, so none fails.
        obtain ⟨c, hMem, hColumn⟩ := (anyStale_eq_error.mp hStale).exists_mem
        obtain ⟨new, -, hNew⟩ := forall₂_exists hRewrite.indexes hMem
        cases hNew with
        | kept hFresh => cases hFresh.symm.trans hColumn
        | derived hTrue => cases hTrue.symm.trans hColumn
  · exact classifyRow_legacy planner row hArity hRewrite.legacy

/-! ## What is written reads as before -/

/-- The ciphertext of a rewritten envelope row opens to the plaintext of the old one. -/
theorem open_envelopeRewrite (hAead : prim.DecryptsEncrypted) {plaintext : Bytes}
    {write : RowWrite}
    (h : EnvelopeRewrite planner context ciphertext indexes draw plaintext write) :
    Bound.open prim context write.ciphertext planner.keys = .ok plaintext := by
  rcases h.ciphertext with ⟨-, hSeal⟩ | ⟨-, hKept⟩
  · exact Bound.open_seal hAead hSeal planner.keys.get_current
  · rw [hKept]
    exact h.opens

/-- **A rewrite preserves what the row means.** Envelope bytes are rewritten to an envelope of
the same plaintext; legacy bytes to an envelope of the value they were read as, which is also
what every standalone reader returns before and after. -/
theorem planRow_preserves (hAead : prim.DecryptsEncrypted) (hCodec : F.codec.RoundTrips)
    {write : RowWrite} (h : planner.planRow row ciphertext indexes draw = .ok outcome)
    (hWrite : outcome.write = some write) :
    (isCiphertext ciphertext = true → ∃ plaintext,
      Bound.open prim (planner.context row) ciphertext planner.keys = .ok plaintext ∧
      Bound.open prim (planner.context row) write.ciphertext planner.keys = .ok plaintext) ∧
    (isCiphertext ciphertext = false → ∃ recovered value plaintext,
      recover ciphertext planner.legacy = .ok recovered ∧
      F.codec.decode recovered = .ok value ∧
      Bound.open prim (planner.context row) write.ciphertext planner.keys = .ok plaintext ∧
      F.codec.decode plaintext = .ok value ∧
      (planner.recordId row = none →
        (∃ before, MaybeSealed.fromBytes F ciphertext = .ok before ∧
          match planner.legacy with
          | some legacy => before.openLegacy prim (.keyring planner.keys) legacy = .ok value
          | none => before.open prim (.keyring planner.keys) = .ok value) ∧
        (∃ after, MaybeSealed.fromBytes F write.ciphertext = .ok after ∧
          after.open prim (.keyring planner.keys) = .ok value ∧
          ∀ legacy, after.openLegacy prim (.keyring planner.keys) legacy = .ok value) ∧
        ∃ sealed : Sealed F none, Sealed.fromBytes write.ciphertext = .ok sealed ∧
          sealed.open prim (.keyring planner.keys) = .ok value)) := by
  obtain ⟨hArity, ⟨rfl, -⟩ | ⟨write', plaintext, rfl, hRewrite⟩ |
    ⟨write', recovered, value, encoded, rfl, hRewrite⟩⟩ := planRow_cases h
  · cases hWrite
  · obtain rfl := Option.some.inj hWrite
    refine ⟨fun _ => ⟨plaintext, hRewrite.opens, open_envelopeRewrite hAead hRewrite⟩, ?_⟩
    intro hMagic
    rw [Bound.isCiphertext_of_open hRewrite.opens] at hMagic
    cases hMagic
  · obtain rfl := Option.some.inj hWrite
    refine ⟨fun hMagic => ?_, fun hMagic => ?_⟩
    · rw [hRewrite.legacy] at hMagic
      cases hMagic
    · have hOpen := Bound.open_seal hAead hRewrite.sealed planner.keys.get_current
      have hDecode := hCodec _ _ hRewrite.encodes
      refine ⟨recovered, value, encoded.val, hRewrite.recovered, hRewrite.decoded, hOpen, hDecode,
        fun hStandalone => ⟨⟨.legacy ciphertext, MaybeSealed.fromBytes_legacy hMagic, ?_⟩, ?_⟩⟩
      · have hLegacy : decodeLegacy F ciphertext planner.legacy = .ok value :=
          bind_eq_ok.mpr ⟨recovered, mapErr_eq_ok.mpr hRewrite.recovered,
            mapErr_eq_ok.mpr hRewrite.decoded⟩
        cases hHandler : planner.legacy with
        | some handler => rwa [hHandler] at hLegacy
        | none => rwa [hHandler] at hLegacy
      · obtain ⟨s, hBytes⟩ : ∃ s : Sealed F none, s.asBytes = write'.ciphertext :=
          ⟨⟨_, inspectCiphertext_seal hRewrite.sealed⟩, rfl⟩
        have hContext : planner.context row = .standalone prim F := by
          rw [context, hStandalone]
          rfl
        have hSealed : s.open prim (.keyring planner.keys) = .ok value :=
          Sealed.openUnder_eq_ok.mpr ⟨encoded.val, hBytes ▸ hContext ▸ hOpen, hDecode⟩
        exact ⟨⟨.sealed s, hBytes ▸ MaybeSealed.fromBytes_sealed s, hSealed, fun _ => hSealed⟩,
          s, Sealed.fromBytes_eq_ok.mpr hBytes, hSealed⟩

end RowPlanner

/-- The standalone planner of the vectors, with one index column. -/
def Vectors.planner : RowPlanner Vectors.prim vectorSeal Unit :=
  (RowPlanner.new Vectors.prim vectorSeal Unit (.keyring encryptionKeyring)).withIndex vectorIndex
    (.keyring indexKeyring)

theorem Vectors.planRow_plaintext (old : Bytes) :
    planner.planRow () plaintext.val [old] (some nonce)
      = .ok ⟨.legacy, some ⟨envelope, [index]⟩⟩ := by
  have hMagic : isCiphertext plaintext.val = false := by decide +kernel
  have hLegacy : planner.planLegacyRow (planner.context ()) plaintext.val (some nonce)
      = .ok ⟨.legacy, some ⟨envelope, [index]⟩⟩ := by decide +kernel
  exact (RowPlanner.planRow_legacy planner () rfl hMagic (some nonce)).trans hLegacy

namespace RowPlanner

/-- The plaintext of the vectors, stored as legacy bytes, reads as itself from its envelope. -/
theorem planRow_preserves_vector :
    ∃ recovered value plaintext, recover Vectors.plaintext.val none = .ok recovered ∧
      Codec.raw.decode recovered = .ok value ∧
      Bound.open Vectors.prim (Vectors.planner.context ()) Vectors.envelope
        Vectors.encryptionKeyring = .ok plaintext ∧
      Codec.raw.decode plaintext = .ok value := by
  obtain ⟨-, hLegacy⟩ := planRow_preserves Vectors.decryptsEncrypted Vectors.roundTrips
    (Vectors.planRow_plaintext []) rfl
  obtain ⟨recovered, value, plaintext, hRecover, hDecode, hOpen, hDecoded, -⟩ :=
    hLegacy (by decide +kernel)
  exact ⟨recovered, value, plaintext, hRecover, hDecode, hOpen, hDecoded⟩

/-! ## What becomes of the index columns -/

variable {planner : RowPlanner prim F R} {row : R} {ciphertext : Bytes} {indexes : List Bytes}
  {draw : Option Nonce} {outcome : RowOutcome} {write : RowWrite}

/-- What a rewrite puts in one column: a column of a legacy row and a stale column are
derived from the value that the written ciphertext opens to, any other keeps its bytes. -/
inductive ColumnRewrite (column : IndexColumn prim F) (isLegacy : Bool) (plaintext old : Bytes) :
    Bytes → Prop
  | kept (hEnvelope : isLegacy = false) (hFresh : column.isStale old = .ok false) :
      ColumnRewrite column isLegacy plaintext old old
  | derived {value : F.Value} {stored : BlindIndex column.spec}
      (hStale : isLegacy = true ∨ column.isStale old = .ok true)
      (hDecode : F.codec.decode plaintext = .ok value)
      (hDerive : BlindIndex.derive prim column.spec value column.source = .ok stored) :
      ColumnRewrite column isLegacy plaintext old stored.asBytes

theorem columnRewrite_derive {column : IndexColumn prim F} {isLegacy : Bool}
    {plaintext old new : Bytes} {value : F.Value}
    (hStale : isLegacy = true ∨ column.isStale old = .ok true)
    (hDecode : F.codec.decode plaintext = .ok value) (hDerive : column.derive value = .ok new) :
    ColumnRewrite column isLegacy plaintext old new := by
  obtain ⟨stored, hStored, rfl⟩ := IndexColumn.derive_eq_ok.mp hDerive
  exact .derived hStale hDecode hStored

/-- **The columns of a rewrite**, in registration order: one entry for each column, derived
or kept. -/
theorem planRow_columns (hAead : prim.DecryptsEncrypted) (hCodec : F.codec.RoundTrips)
    (h : planner.planRow row ciphertext indexes draw = .ok outcome)
    (hWrite : outcome.write = some write) :
    ∃ plaintext, Bound.open prim (planner.context row) write.ciphertext planner.keys
        = .ok plaintext ∧
      (isCiphertext ciphertext = true →
        Bound.open prim (planner.context row) ciphertext planner.keys = .ok plaintext) ∧
      List.Forall₂ (fun c new => ColumnRewrite c.1 (!isCiphertext ciphertext) plaintext c.2 new)
        (planner.indexes.zip indexes) write.indexes := by
  obtain ⟨hArity, ⟨rfl, -⟩ | ⟨write', plaintext, rfl, hRewrite⟩ |
    ⟨write', recovered, value, encoded, rfl, hRewrite⟩⟩ := planRow_cases h
  · cases hWrite
  · obtain rfl := Option.some.inj hWrite
    have hMagic := Bound.isCiphertext_of_open hRewrite.opens
    refine ⟨plaintext, open_envelopeRewrite hAead hRewrite, fun _ => hRewrite.opens,
      hRewrite.indexes.imp ?_⟩
    rw [hMagic]
    intro c new hColumn
    cases hColumn with
    | kept hFresh => exact .kept rfl hFresh
    | derived hStale hDecode hDerive =>
      exact columnRewrite_derive (Or.inr hStale) hDecode hDerive
  · obtain rfl := Option.some.inj hWrite
    have hOpen := Bound.open_seal hAead hRewrite.sealed planner.keys.get_current
    refine ⟨encoded.val, hOpen, fun hMagic => ?_, ?_⟩
    · rw [hRewrite.legacy] at hMagic
      cases hMagic
    · have hFst : (planner.indexes.zip indexes).map Prod.fst = planner.indexes :=
        List.map_fst_zip (le_of_eq hArity.symm)
      have hDerived := hRewrite.derived
      rw [← hFst, List.forall₂_map_left_iff] at hDerived
      apply hDerived.imp
      intro c new hDerive
      rw [hRewrite.legacy]
      exact columnRewrite_derive (Or.inl rfl) (hCodec _ _ hRewrite.encodes) hDerive

end RowPlanner

end Cryptbox

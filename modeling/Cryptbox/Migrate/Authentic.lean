import Cryptbox.Ideal
import Cryptbox.Migrate.Rewrite

/-!
# Only what authenticates is rewritten

Under idealised primitives. A rewrite of an envelope opens it for the row's own context first,
and writes an envelope that opens for that context and for no other. What it derives comes from
the decrypted plaintext: the bytes of a stale column matter only in that they are stale.

* `RowPlanner.planRow_differ`: two rows that differ in stale columns are planned alike.
* `RowPlanner.planRow_foreign`: an honest envelope of another row or seal is not rewritten.
* `RowPlanner.planRow_authenticated`: both, with what a write contains.
-/

namespace Cryptbox

open Base Envelope

variable {prim : Primitives} {F : Seal} {R : Type}

namespace RowPlanner

variable {planner : RowPlanner prim F R} {row : R} {context : SealContext} {ciphertext : Bytes}
  {indexes indexes' : List Bytes} {draw : Option Nonce}

/-! ## Stale columns -/

/-- Every column holds the same bytes in both rows, or is stale in both. -/
structure DifferInStale (planner : RowPlanner prim F R) (indexes indexes' : List Bytes) :
    Prop where
  length_eq : indexes'.length = indexes.length
  columns : ∀ (j : Nat) (column : IndexColumn prim F) (old old' : Bytes),
    planner.indexes[j]? = some column → indexes[j]? = some old → indexes'[j]? = some old' →
      old' = old ∨ (column.isStale old = .ok true ∧ column.isStale old' = .ok true)

/-- The same, of columns zipped with their bytes. -/
theorem DifferInStale.zip (h : planner.DifferInStale indexes indexes') :
    List.Forall₂ (fun c c' => c'.1 = c.1 ∧
        (c'.2 = c.2 ∨ (c.1.isStale c.2 = .ok true ∧ c.1.isStale c'.2 = .ok true)))
      (planner.indexes.zip indexes) (planner.indexes.zip indexes') := by
  refine List.forall₂_iff_get.mpr ⟨?_, fun j hj hj' => ?_⟩
  · rw [List.length_zip, List.length_zip, h.length_eq]
  · obtain ⟨hColumn, hOld⟩ := List.getElem?_zip_eq_some.mp (List.getElem?_eq_getElem hj)
    obtain ⟨hColumn', hOld'⟩ := List.getElem?_zip_eq_some.mp (List.getElem?_eq_getElem hj')
    exact ⟨Option.some.inj (hColumn'.symm.trans hColumn), h.columns j _ _ _ hColumn hOld hOld'⟩

/-- The staleness of the columns is the same. -/
theorem DifferInStale.isStale (h : planner.DifferInStale indexes indexes') :
    (planner.indexes.zip indexes').mapM (fun column => column.1.isStale column.2)
      = (planner.indexes.zip indexes).mapM fun column => column.1.isStale column.2 := by
  refine (mapM_congr (h.zip.imp ?_)).symm
  rintro ⟨column, old⟩ ⟨_, old'⟩ ⟨rfl, rfl | ⟨hOld, hOld'⟩⟩
  · rfl
  · exact hOld.trans hOld'.symm

/-- So are the columns written. -/
theorem DifferInStale.planIndexes (h : planner.DifferInStale indexes indexes')
    (hArity : indexes.length = planner.indexes.length) {staleColumns : List Bool}
    (hStale : (planner.indexes.zip indexes).mapM (fun column => column.1.isStale column.2)
      = .ok staleColumns) (plaintext : Bytes) :
    planner.planIndexes indexes' staleColumns plaintext
      = planner.planIndexes indexes staleColumns plaintext := by
  have hStale := mapM_eq_ok.mp hStale
  unfold RowPlanner.planIndexes
  by_cases hAny : staleColumns.contains true = true
  · rw [if_pos hAny, if_pos hAny]
    congr 1
    funext value
    refine (mapM_congr ((forall₂_zip_both h.zip hStale).imp ?_)).symm
    rintro ⟨⟨_, old⟩, _⟩ ⟨⟨column, old'⟩, stale⟩ ⟨⟨rfl, hBytes⟩, hOld, rfl⟩
    cases stale with
    | true => rfl
    | false =>
      -- The column is not stale, so it holds the same bytes.
      rcases hBytes with hSame | ⟨hTrue, -⟩
      · exact congrArg Except.ok hSame.symm
      · cases hTrue.symm.trans hOld
  · rw [if_neg hAny, if_neg hAny]
    have hSame : (planner.indexes.zip indexes').map Prod.snd
        = (planner.indexes.zip indexes).map Prod.snd := by
      apply Eq.symm
      rw [← List.forall₂_eq_eq_eq, List.forall₂_map_left_iff, List.forall₂_map_right_iff]
      have hFresh : ∀ c ∈ planner.indexes.zip indexes, c.1.isStale c.2 ≠ .ok true := by
        intro c hc hTrue
        obtain ⟨stale, hMem, hColumn⟩ := forall₂_exists hStale hc
        cases hTrue.symm.trans hColumn
        exact hAny (List.contains_iff_mem.mpr hMem)
      have hBoth := h.zip
      rw [List.forall₂_iff_zip] at hBoth ⊢
      refine ⟨hBoth.1, fun {c c'} hMem => ?_⟩
      rcases (hBoth.2 hMem).2 with hBytes | ⟨hTrue, -⟩
      · exact hBytes.symm
      · exact absurd hTrue (hFresh c (List.of_mem_zip hMem).1)
    rw [List.map_snd_zip (le_of_eq hArity), List.map_snd_zip (le_of_eq
      (h.length_eq.trans hArity))] at hSame
    rw [hSame]

/-- **Stale bytes do not matter**: rows that differ in stale columns are planned alike. -/
theorem planRow_differ (h : planner.DifferInStale indexes indexes') (row : R)
    (ciphertext : Bytes) (draw : Option Nonce) :
    planner.planRow row ciphertext indexes' draw = planner.planRow row ciphertext indexes draw := by
  by_cases hArity : indexes.length = planner.indexes.length
  · have hArity' : indexes'.length = planner.indexes.length := h.length_eq.trans hArity
    have hEnvelope (context : SealContext) :
        planner.planEnvelopeRow context ciphertext indexes' draw
          = planner.planEnvelopeRow context ciphertext indexes draw := by
      unfold planEnvelopeRow
      rw [h.isStale]
      cases hStale : (planner.indexes.zip indexes).mapM
        (fun column => column.1.isStale column.2) with
      | error f => rfl
      | ok staleColumns => simp only [ok_bind, h.planIndexes hArity hStale]
    unfold planRow checkArity
    rw [ensure, ensure, if_pos hArity, if_pos hArity', hEnvelope]
  · have hArity' : ¬ indexes'.length = planner.indexes.length := by
      rwa [h.length_eq]
    unfold planRow checkArity
    rw [ensure, ensure, if_neg hArity, if_neg hArity', h.length_eq]
    rfl

/-! ## Envelopes of other contexts -/

theorem planCiphertext_error {f : Failure}
    (hOpen : Bound.open prim context ciphertext planner.keys = .error f) (envelopeIsStale : Bool)
    (draw : Option Nonce) :
    planner.planCiphertext context ciphertext envelopeIsStale draw = .error f := by
  unfold planCiphertext Bound.reseal
  cases envelopeIsStale <;> simp only [hOpen, error_bind] <;> rfl

/-- A row that does not open is not rewritten, when a rewrite is needed. -/
theorem planRow_unopened (hArity : indexes.length = planner.indexes.length) {f : Failure}
    {envelopeIsStale : Bool}
    (hReseal : Bound.needsReseal (planner.context row).fingerprint F.padding ciphertext planner.keys
      = .ok envelopeIsStale)
    (hOpen : Bound.open prim (planner.context row) ciphertext planner.keys = .error f)
    (hColumns : ∀ c ∈ planner.indexes.zip indexes, ∃ stale, c.1.isStale c.2 = .ok stale)
    (hNeeded : envelopeIsStale = true ∨
      ∃ c ∈ planner.indexes.zip indexes, c.1.isStale c.2 = .ok true) (draw : Option Nonce) :
    planner.planRow row ciphertext indexes draw = .error f := by
  obtain ⟨checked, hCheck, -⟩ := bind_eq_ok.mp hReseal
  obtain ⟨l, hFits, rfl, -⟩ := check_eq_ok.mp hCheck
  let stale (c : IndexColumn prim F × Bytes) : Bool := decide (c.1.isStale c.2 = .ok true)
  have hStale : (planner.indexes.zip indexes).mapM (fun column => column.1.isStale column.2)
      = .ok ((planner.indexes.zip indexes).map stale) := by
    rw [mapM_eq_ok, List.forall₂_map_right_iff, List.forall₂_same]
    intro c hc
    obtain ⟨b, hb⟩ := hColumns c hc
    cases b <;> simp [stale, hb]
  have hWrites : (!envelopeIsStale && !((planner.indexes.zip indexes).map stale).contains true)
      = false := by
    rcases hNeeded with rfl | ⟨c, hc, hTrue⟩
    · rfl
    · have hMem : true ∈ (planner.indexes.zip indexes).map stale :=
        List.mem_map.mpr ⟨c, hc, decide_eq_true hTrue⟩
      rw [List.contains_iff_mem.mpr hMem, Bool.not_true, Bool.and_false]
  rw [planRow_bytes planner row hArity hFits draw]
  refine bind_eq_error.mpr (Or.inr ⟨_, hReseal, bind_eq_error.mpr (Or.inr ⟨_, hStale, ?_⟩)⟩)
  rw [hWrites]
  exact bind_eq_error.mpr (Or.inl (planCiphertext_error hOpen envelopeIsStale draw))

/-- **An honest envelope of another row or seal is not rewritten.** When a rewrite is needed, its
key is unknown or it does not authenticate. -/
theorem planRow_foreign (hIdeal : prim.Ideal) (hTotal : prim.Total) {id : SealId}
    {record : Option RecordValue} {padding : Padding} {plaintext : Bytes}
    {writer : EncryptionKeyring} {drawn : Option Nonce}
    (h : Bound.seal prim (.new prim id record) padding plaintext writer drawn = .ok ciphertext)
    (hKind : (planner.recordId row).map RecordValue.kind = record.map RecordValue.kind)
    (hOther : ¬ (F.id = id ∧ planner.recordId row = record)) (draw : Option Nonce) :
    (∀ outcome, planner.planRow row ciphertext indexes draw = .ok outcome →
      outcome = .unchanged .current) ∧
    (indexes.length = planner.indexes.length →
      (∀ c ∈ planner.indexes.zip indexes, ∃ stale, c.1.isStale c.2 = .ok stale) →
      (Bound.needsReseal (planner.context row).fingerprint F.padding ciphertext planner.keys
          = .ok true ∨
        ∃ c ∈ planner.indexes.zip indexes, c.1.isStale c.2 = .ok true) →
      planner.planRow row ciphertext indexes draw =
        if (planner.keys.get writer.current.id).isSome then err .authenticationFailed
        else err (.unknownEncryptionKey writer.current.id)) := by
  have hOpen := Bound.open_foreign hIdeal hTotal h hKind hOther planner.keys
  have hClosed : ∀ plaintext,
      Bound.open prim (planner.context row) ciphertext planner.keys ≠ .ok plaintext := by
    intro plaintext hOk
    have hBoth := hOpen.symm.trans hOk
    split at hBoth <;> cases hBoth
  obtain ⟨l, hFits, rfl, hFingerprint, -⟩ := Bound.seal_layout h
  constructor
  · intro outcome hPlan
    obtain ⟨-, ⟨rfl, -⟩ | ⟨write, plaintext, -, hRewrite⟩ |
      ⟨write, plaintext, value, encoded, -, hRewrite⟩⟩ := planRow_cases hPlan
    · rfl
    · exact absurd hRewrite.opens (hClosed plaintext)
    · cases hRewrite.legacy.symm.trans (isCiphertext_bytes l)
  · intro hArity hColumns hNeeded
    have hSame : l.fingerprint = (planner.context row).fingerprint :=
      hFingerprint.trans (congrArg (fingerprint prim) hKind.symm)
    have hReseal : Bound.needsReseal (planner.context row).fingerprint F.padding l.bytes planner.keys
        = .ok ((checked l ⟨[], (planner.context row).fingerprint⟩).needsReseal F.padding
          planner.keys) := by
      rw [Bound.needsReseal_bytes hFits, if_pos hSame]
    rw [hReseal] at hNeeded
    have hNeeded := hNeeded.imp_left Except.ok.inj
    split at hOpen
    · next hKnown =>
      rw [if_pos hKnown]
      exact planRow_unopened hArity hReseal hOpen hColumns hNeeded draw
    · next hUnknown =>
      rw [if_neg hUnknown]
      exact planRow_unopened hArity hReseal hOpen hColumns hNeeded draw

/-! ## What a rewrite authenticates -/

/-- **No unauthenticated envelope is rewritten, and nothing leaves its context.** For a row whose
bytes start with the magic:

1. before a write, the envelope opens for the row's own context under the key it names in the
   planner's keyring. What is written opens there too, to the same plaintext, and for no other
   seal ID or record ID; every column is kept or derived from that plaintext;
2. the plan is the same for any other bytes of a stale column that are stale too;
3. an envelope with another fingerprint is a `ContextMismatch`;
4. an honest envelope of another row or seal of the same kind is never rewritten, and fails
   where a rewrite is needed. -/
theorem planRow_authenticated (hIdeal : prim.Ideal) (hTotal : prim.Total)
    (planner : RowPlanner prim F R) (row : R) (hMagic : isCiphertext ciphertext = true)
    (indexes : List Bytes) (draw : Option Nonce) :
    (∀ outcome write, planner.planRow row ciphertext indexes draw = .ok outcome →
      outcome.write = some write →
      ∃ info key plaintext, inspectCiphertext ciphertext = .ok info ∧
        planner.keys.get info.keyId = some key ∧
        Bound.open prim (.new prim F.id (planner.recordId row)) ciphertext (.single key)
          = .ok plaintext ∧
        Bound.open prim (.new prim F.id (planner.recordId row)) write.ciphertext planner.keys
          = .ok plaintext ∧
        (∀ id record keyring plaintext',
          Bound.open prim (.new prim id record) write.ciphertext keyring = .ok plaintext' →
          id = F.id ∧ record = planner.recordId row ∧ plaintext' = plaintext) ∧
        List.Forall₂ (fun c new => c.1.Rewrites plaintext c.2 new) (planner.indexes.zip indexes)
          write.indexes) ∧
    (∀ indexes', planner.DifferInStale indexes indexes' →
      planner.planRow row ciphertext indexes' draw
        = planner.planRow row ciphertext indexes draw) ∧
    (∀ info, inspectCiphertext ciphertext = .ok info →
      info.contextFingerprint ≠ (planner.context row).fingerprint →
      indexes.length = planner.indexes.length →
      planner.classifyRow row ciphertext indexes = err .contextMismatch ∧
      planner.planRow row ciphertext indexes draw = err .contextMismatch) ∧
    ∀ id record padding plaintext writer drawn,
      Bound.seal prim (.new prim id record) padding plaintext writer drawn = .ok ciphertext →
      (planner.recordId row).map RecordValue.kind = record.map RecordValue.kind →
      ¬ (F.id = id ∧ planner.recordId row = record) →
      (∀ outcome, planner.planRow row ciphertext indexes draw = .ok outcome →
        outcome = ⟨.current, none⟩) ∧
      (indexes.length = planner.indexes.length →
        (∀ c ∈ planner.indexes.zip indexes, ∃ stale, c.1.isStale c.2 = .ok stale) →
        (Bound.needsReseal (planner.context row).fingerprint F.padding ciphertext planner.keys
            = .ok true ∨
          ∃ c ∈ planner.indexes.zip indexes, c.1.isStale c.2 = .ok true) →
        planner.planRow row ciphertext indexes draw =
          if (planner.keys.get writer.current.id).isSome then err .authenticationFailed
          else err (.unknownEncryptionKey writer.current.id)) := by
  refine ⟨fun outcome write hPlan hWrite => ?_, fun indexes' hDiffer => ?_,
    fun info hInspect hOther hArity => planRow_mismatch planner row hArity hInspect hOther draw,
    fun id record padding plaintext writer drawn hSeal hKind hOther =>
      planRow_foreign hIdeal hTotal hSeal hKind hOther draw⟩
  · obtain ⟨-, ⟨rfl, -⟩ | ⟨write', plaintext, rfl, hRewrite⟩ |
      ⟨write', plaintext, value, encoded, rfl, hRewrite⟩⟩ := planRow_cases hPlan
    · cases hWrite
    · obtain rfl := Option.some.inj hWrite
      obtain ⟨l, key, -, -, hFits, rfl, -, hGet, -⟩ := Bound.open_eq_ok.mp hRewrite.opens
      have hNamed : Bound.open prim (planner.context row) l.bytes (.single key)
          = Bound.open prim (planner.context row) l.bytes planner.keys := by
        apply Bound.open_congr
        intro l' hFits' hBytes
        rw [← Layout.bytes_injective hBytes, hGet, Ring.get_single, if_pos (Ring.get_id hGet).symm]
      have hWritten := open_envelopeRewrite hIdeal.decryptsEncrypted hRewrite
      refine ⟨l.parsed.info, key, plaintext, inspectCiphertext_bytes hFits, ?_,
        hNamed.trans hRewrite.opens, hWritten, fun id record keyring plaintext' hOpen => ?_,
        hRewrite.indexes⟩
      · rw [l.parsed_info]
        exact hGet
      · exact Bound.open_unique hIdeal hWritten hOpen
    · cases hRewrite.legacy.symm.trans hMagic
  · exact planRow_differ hDiffer row ciphertext draw

end RowPlanner

/-- An index of `VectorIndex` that names another key. -/
def Vectors.staleIndex : Bytes := be 19 0x02ccccccccbbbb4ccc8dddeeeeeeeeeeee000d ++ [0x12, 0x30]

theorem Vectors.planRow_staleIndex :
    planner.planRow () envelope [staleIndex] none = .ok ⟨.stale, some ⟨envelope, [index]⟩⟩ := by
  have hParsed : (inspectCiphertext envelope).isOk = true := by decide +kernel
  have hEnvelope : planner.planEnvelopeRow (planner.context ()) envelope [staleIndex] none
      = .ok ⟨.stale, some ⟨envelope, [index]⟩⟩ := by decide +kernel
  cases hInspect : inspectCiphertext envelope with
  | error e =>
    rw [hInspect] at hParsed
    cases hParsed
  | ok info => exact (RowPlanner.planRow_envelope planner () rfl hInspect none).trans hEnvelope

namespace RowPlanner

/-- The envelope of the vectors, beside a stale index, authenticates under the key it names. -/
theorem planRow_authenticated_vector : ∃ info key plaintext,
    inspectCiphertext Vectors.envelope = .ok info ∧
      Vectors.encryptionKeyring.get info.keyId = some key ∧
      Bound.open Vectors.prim (.standalone Vectors.prim Vectors.vectorSeal) Vectors.envelope
        (.single key) = .ok plaintext := by
  obtain ⟨hWrite, -⟩ := planRow_authenticated (KnownAnswers.ideal (by decide)) Vectors.total
    Vectors.planner () (by decide +kernel : isCiphertext Vectors.envelope = true)
    [Vectors.staleIndex] none
  obtain ⟨info, key, plaintext, hInspect, hGet, hOpen, -⟩ :=
    hWrite _ _ Vectors.planRow_staleIndex rfl
  exact ⟨info, key, plaintext, hInspect, hGet, hOpen⟩

end RowPlanner

end Cryptbox

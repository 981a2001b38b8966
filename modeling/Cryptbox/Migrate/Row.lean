import Cryptbox.Blind
import Cryptbox.Migrate.Read

/-!
# Planning one row

`migrate/row.rs`. A planner classifies a row from its metadata, or plans its replacement: a
legacy value is sealed, a stale envelope resealed, and every stale index column derived anew
from the decrypted value. A column remembers the spec and the keys it was registered with
(`IndexColumn.spec`, `IndexColumn.source`), which determine its other fields.

* `RowPlanner.classifyRow_eq_current`: when a row is current.
* `RowPlanner.planRow_current`: a current row is planned without a write.
* `RowPlanner.classifyRow_congr`: classification reads of a record ID only its kind.
* `IndexColumn.isStale_derive`: what a column derives is not stale.
-/

namespace Cryptbox

open Base Envelope

/-- The state of one row. -/
inductive RowState where
  | current
  | stale
  | legacy
  deriving DecidableEq, Repr

/-- The replacement of a row's encrypted column and of each of its index columns. -/
structure RowWrite where
  ciphertext : Bytes
  indexes : List Bytes
  deriving DecidableEq, Repr

structure RowOutcome where
  state : RowState
  write : Option RowWrite
  deriving DecidableEq, Repr

def RowOutcome.unchanged (state : RowState) : RowOutcome := ⟨state, none⟩

def deriveIndexBytes (prim : Primitives) {F : Seal} (spec : BlindIndexSpec F) (value : F.Value)
    (context : SealContext) (keys : BlindIndexKeyring) : Result Bytes :=
  BlindIndex.asBytes <$> deriveValue prim spec value context (.keyring keys)

/-- A registered index column. -/
structure IndexColumn (prim : Primitives) (F : Seal) where
  context : SealContext
  deriver : F.Value → SealContext → BlindIndexKeyring → Result Bytes
  keys : Result BlindIndexKeyring
  /-- The spec that `with_index` was called with. -/
  spec : BlindIndexSpec F
  /-- The keys that `with_index` was called with. -/
  source : BlindIndexKeys
  context_eq : context = indexContext prim F
  deriver_eq : deriver = deriveIndexBytes prim spec
  keys_eq : keys = source.blindIndexKeyring

/-- Plans the rows of one column family; `R` is what a row carries for its record ID. -/
structure RowPlanner (prim : Primitives) (F : Seal) (R : Type) where
  keys : EncryptionKeyring
  recordId : R → Option RecordValue
  legacy : Option LegacyFormat
  indexes : List (IndexColumn prim F)
  /-- A planner reads no record ID (`new`), or record IDs of one kind (`for_rows`). -/
  oneKind : ∃ kind, ∀ row, (recordId row).map RecordValue.kind = kind

namespace IndexColumn

variable {prim : Primitives} {F : Seal} (column : IndexColumn prim F)

def isStale (bytes : Bytes) : Result Bool := do
  let info ← inspectBlindIndex bytes
  let keys ← column.keys
  return info.indexKeyId != keys.current.id

def derive (value : F.Value) : Result Bytes := do
  let keys ← column.keys
  column.deriver value column.context keys

end IndexColumn

namespace RowPlanner

variable {prim : Primitives} {F : Seal} {R : Type}

/-- `RowPlanner::new`: a planner of standalone values. -/
def new (prim : Primitives) (F : Seal) (R : Type) (keys : EncryptionKeys) :
    RowPlanner prim F R where
  keys := keys.encryptionKeyring
  recordId _ := none
  legacy := none
  indexes := []
  oneKind := ⟨none, fun _ => rfl⟩

/-- `RowPlanner::for_rows`: a planner of a record's field. -/
def forRows (prim : Primitives) (F : Seal) {R : Type} (kind : RecordKind) (keys : EncryptionKeys)
    (recordId : R → kind.Id) : RowPlanner prim F R where
  keys := keys.encryptionKeyring
  recordId row := some (kind.recordValue (recordId row))
  legacy := none
  indexes := []
  oneKind := ⟨some kind, fun _ => congrArg some (kind.kind_recordValue _)⟩

def withLegacy (planner : RowPlanner prim F R) (legacy : LegacyFormat) : RowPlanner prim F R :=
  { planner with legacy := some legacy }

/-- Registers the next index column. -/
def withIndex (planner : RowPlanner prim F R) (spec : BlindIndexSpec F) (keys : BlindIndexKeys) :
    RowPlanner prim F R :=
  { planner with
    indexes := planner.indexes ++ [{
      context := indexContext prim F
      deriver := deriveIndexBytes prim spec
      keys := keys.blindIndexKeyring
      spec, source := keys
      context_eq := rfl
      deriver_eq := rfl
      keys_eq := rfl }] }

variable (planner : RowPlanner prim F R)

def checkArity (indexes : List Bytes) : Result Unit :=
  ensure (indexes.length = planner.indexes.length)
    (.indexColumnMismatch planner.indexes.length indexes.length)

/-- The seal context of a row. -/
def context (row : R) : SealContext := .new prim F.id (planner.recordId row)

/-- The loop of `classify_row` over the columns: it stops at the first stale one. -/
def anyStale : List (IndexColumn prim F × Bytes) → Result Bool
  | [] => .ok false
  | (column, bytes) :: rest => do
    if ← column.isStale bytes then return true else anyStale rest

/-- Classifies a row from its stored metadata, without decrypting. -/
def classifyRow (row : R) (ciphertext : Bytes) (indexes : List Bytes) : Result RowState := do
  planner.checkArity indexes
  match inspectCiphertext ciphertext with
  | .error (.err .notCiphertext) => return .legacy
  | .error f => .error f
  | .ok _ => do
    if ← Bound.needsReseal (planner.context row).envelope.fingerprint F.padding ciphertext
      planner.keys then return .stale
    if ← anyStale (planner.indexes.zip indexes) then return .stale
    return .current

def deriveIndexes (value : F.Value) : Result (List Bytes) :=
  planner.indexes.mapM fun column => column.derive value

def planLegacyRow (context : SealContext) (bytes : Bytes) (draw : Option Nonce) :
    Result RowOutcome := do
  let plaintext ← mapErr (recover bytes planner.legacy) .legacyRecoveryFailed
  let value ← mapErr (F.codec.decode plaintext) .codecFailed
  let plaintext ← mapErr (F.codec.encode value) .codecFailed
  let ciphertext ← Bound.seal prim context F.padding plaintext.val planner.keys draw
  let indexes ← planner.deriveIndexes value
  return ⟨.legacy, some ⟨ciphertext, indexes⟩⟩

/-- The plaintext of an envelope row and the ciphertext to write for it. -/
def planCiphertext (context : SealContext) (ciphertext : Bytes) (envelopeIsStale : Bool)
    (draw : Option Nonce) : Result (Bytes × Bytes) :=
  if envelopeIsStale then
    Bound.reseal prim (context, planner.keys) (context, planner.keys) F.padding ciphertext draw
  else do
    let plaintext ← Bound.open prim context ciphertext planner.keys
    return (plaintext, ciphertext)

/-- The index columns to write: stale ones are derived from the decrypted plaintext, never
from the stored index. -/
def planIndexes (indexes : List Bytes) (staleColumns : List Bool) (plaintext : Bytes) :
    Result (List Bytes) :=
  if staleColumns.contains true then do
    let value ← mapErr (F.codec.decode plaintext) .codecFailed
    ((planner.indexes.zip indexes).zip staleColumns).mapM fun column =>
      if column.2 then column.1.1.derive value else .ok column.1.2
  else .ok indexes

/-- The part of `plan_row` for a row whose bytes are an envelope. -/
def planEnvelopeRow (context : SealContext) (ciphertext : Bytes) (indexes : List Bytes)
    (draw : Option Nonce) : Result RowOutcome := do
  let envelopeIsStale ← Bound.needsReseal context.envelope.fingerprint F.padding ciphertext
    planner.keys
  let staleColumns ← (planner.indexes.zip indexes).mapM fun column => column.1.isStale column.2
  if !envelopeIsStale && !staleColumns.contains true then return .unchanged .current
  let out ← planner.planCiphertext context ciphertext envelopeIsStale draw
  let indexes ← planner.planIndexes indexes staleColumns out.1
  return ⟨.stale, some ⟨out.2, indexes⟩⟩

/-- Plans the replacement of a row. -/
def planRow (row : R) (ciphertext : Bytes) (indexes : List Bytes) (draw : Option Nonce) :
    Result RowOutcome := do
  planner.checkArity indexes
  match inspectCiphertext ciphertext with
  | .error (.err .notCiphertext) => planner.planLegacyRow (planner.context row) ciphertext draw
  | .error f => .error f
  | .ok _ => planner.planEnvelopeRow (planner.context row) ciphertext indexes draw

end RowPlanner

/-! ## Columns -/

namespace IndexColumn

variable {prim : Primitives} {F : Seal} {column : IndexColumn prim F}

theorem isStale_eq_ok {bytes : Bytes} {stale : Bool} :
    column.isStale bytes = .ok stale ↔ ∃ info keys, inspectBlindIndex bytes = .ok info ∧
      column.source.blindIndexKeyring = .ok keys ∧
      (info.indexKeyId != keys.current.id) = stale := by
  unfold isStale
  rw [column.keys_eq]
  simp only [bind_eq_ok, pure_eq_ok]
  constructor
  · intro h
    obtain ⟨info, hInfo, keys, hKeys, rfl⟩ := h
    exact ⟨info, keys, hInfo, hKeys, rfl⟩
  · intro h
    obtain ⟨info, keys, hInfo, hKeys, rfl⟩ := h
    exact ⟨info, hInfo, keys, hKeys, rfl⟩

/-- A column derives what its spec derives under the keys it was registered with. -/
theorem derive_eq_ok {value : F.Value} {new : Bytes} :
    column.derive value = .ok new ↔ ∃ stored : BlindIndex column.spec,
      BlindIndex.derive prim column.spec value column.source = .ok stored ∧
        stored.asBytes = new := by
  unfold derive BlindIndex.derive
  rw [column.keys_eq, column.context_eq, column.deriver_eq]
  simp only [bind_eq_ok, deriveIndexBytes, map_eq_ok, BlindIndex.deriveValue_eq_ok]
  constructor
  · intro h
    obtain ⟨keys, hKeys, stored, ⟨keyring, hKeyring, hDerive⟩, hBytes⟩ := h
    cases hKeyring
    exact ⟨stored, ⟨keys, hKeys, hDerive⟩, hBytes⟩
  · intro h
    obtain ⟨stored, ⟨keys, hKeys, hDerive⟩, hBytes⟩ := h
    exact ⟨keys, hKeys, stored, ⟨keys, rfl, hDerive⟩, hBytes⟩

/-- What a column derives is not stale. -/
theorem isStale_derive {value : F.Value} {new : Bytes} (h : column.derive value = .ok new) :
    column.isStale new = .ok false := by
  obtain ⟨stored, hDerive, rfl⟩ := derive_eq_ok.mp h
  obtain ⟨keys, hKeys, hDerive⟩ := BlindIndex.deriveValue_eq_ok.mp hDerive
  obtain ⟨normalized, -, hDerive⟩ := BlindIndex.deriveValueWithKey_eq_ok.mp hDerive
  obtain ⟨digest, -, hInfo⟩ := inspectBlindIndex_deriveIndex column.spec.valid
    (BlindIndex.deriveNormalized_eq_ok.mp hDerive)
  exact isStale_eq_ok.mpr ⟨_, keys, hInfo, hKeys, by simp⟩

/-- A column that is not stale names the current key. -/
theorem indexKeyId_of_fresh {keyring : BlindIndexKeyring} {stored : BlindIndex column.spec}
    (hKeys : column.source.blindIndexKeyring = .ok keyring)
    (hFresh : column.isStale stored.asBytes = .ok false) :
    stored.indexKeyId = .ok keyring.current.id := by
  obtain ⟨info, keys, hInfo, hKeys', hId⟩ := isStale_eq_ok.mp hFresh
  cases hKeys.symm.trans hKeys'
  obtain ⟨keyId, body, -, hKeyId, hInspect⟩ := stored.exists_header
  cases hInfo.symm.trans hInspect
  have hCurrent : keyId = keyring.current.id := by simpa using hId
  rw [hKeyId, hCurrent]

/-- What a rewrite puts in a column whose row decrypts to `plaintext`: a column that is not
stale keeps its bytes, a stale one is derived from the decoded value. -/
inductive Rewrites (column : IndexColumn prim F) (plaintext old : Bytes) : Bytes → Prop
  | kept (hFresh : column.isStale old = .ok false) : Rewrites column plaintext old old
  | derived {value : F.Value} {new : Bytes} (hStale : column.isStale old = .ok true)
      (hDecode : F.codec.decode plaintext = .ok value) (hDerive : column.derive value = .ok new) :
      Rewrites column plaintext old new

theorem Rewrites.isStale {plaintext old new : Bytes} (h : column.Rewrites plaintext old new) :
    column.isStale new = .ok false := by
  cases h with
  | kept hFresh => exact hFresh
  | derived hStale hDecode hDerive => exact isStale_derive hDerive

end IndexColumn

namespace RowPlanner

variable {prim : Primitives} {F : Seal} {R : Type} {planner : RowPlanner prim F R} {row row' : R}
  {ciphertext : Bytes} {indexes : List Bytes} {draw : Option Nonce}

/-! ## Classification and plans -/

theorem anyStale_eq_false {columns : List (IndexColumn prim F × Bytes)} :
    anyStale columns = .ok false ↔ ∀ c ∈ columns, c.1.isStale c.2 = .ok false := by
  induction columns with
  | nil => simp [anyStale]
  | cons c rest ih =>
    obtain ⟨column, bytes⟩ := c
    rw [anyStale, bind_eq_ok, List.forall_mem_cons, ← ih]
    constructor
    · intro h
      obtain ⟨stale, hStale, h⟩ := h
      cases stale with
      | true => cases pure_eq_ok.mp h
      | false => exact ⟨hStale, h⟩
    · intro h
      obtain ⟨hStale, h⟩ := h
      exact ⟨false, hStale, h⟩

/-- The first column that is not fresh gives `result`. -/
def FirstNotFresh (columns : List (IndexColumn prim F × Bytes)) (result : Result Bool) : Prop :=
  ∃ before c after, columns = before ++ c :: after ∧
    (∀ b ∈ before, b.1.isStale b.2 = .ok false) ∧ c.1.isStale c.2 = result

theorem firstNotFresh_cons {c : IndexColumn prim F × Bytes}
    {columns : List (IndexColumn prim F × Bytes)} {result : Result Bool}
    (hFresh : c.1.isStale c.2 = .ok false) (hResult : result ≠ .ok false) :
    FirstNotFresh (c :: columns) result ↔ FirstNotFresh columns result := by
  constructor
  · intro h
    obtain ⟨before, d, after, hSplit, hBefore, hd⟩ := h
    cases before with
    | nil =>
      cases hSplit
      exact absurd (hd.symm.trans hFresh) hResult
    | cons b before =>
      obtain ⟨rfl, rfl⟩ := List.cons.inj hSplit
      exact ⟨before, d, after, rfl, (List.forall_mem_cons.mp hBefore).2, hd⟩
  · intro h
    obtain ⟨before, d, after, rfl, hBefore, hd⟩ := h
    exact ⟨c :: before, d, after, rfl, List.forall_mem_cons.mpr ⟨hFresh, hBefore⟩, hd⟩

/-- The loop over the columns ends at the first one that is not fresh. -/
theorem anyStale_eq_iff {columns : List (IndexColumn prim F × Bytes)} {result : Result Bool}
    (hResult : result ≠ .ok false) : anyStale columns = result ↔ FirstNotFresh columns result := by
  induction columns with
  | nil =>
    constructor
    · intro h
      exact absurd h.symm hResult
    · intro h
      obtain ⟨before, c, after, hSplit, -⟩ := h
      cases before <;> cases hSplit
  | cons c columns ih =>
    obtain ⟨column, bytes⟩ := c
    rw [anyStale]
    have hFirst (stale : Result Bool) (hStale : column.isStale bytes = stale)
        (hNot : stale ≠ .ok false) : FirstNotFresh ((column, bytes) :: columns) result →
          stale = result := by
      intro h
      obtain ⟨before, d, after, hSplit, hBefore, hd⟩ := h
      cases before with
      | nil =>
        cases hSplit
        exact hStale.symm.trans hd
      | cons b before =>
        obtain ⟨rfl, rfl⟩ := List.cons.inj hSplit
        exact absurd (hStale.symm.trans (hBefore _ List.mem_cons_self)) hNot
    cases hStale : column.isStale bytes with
    | error f =>
      refine ⟨fun h => ⟨[], _, columns, rfl, (by intro b hb; cases hb), hStale.trans h⟩, ?_⟩
      exact hFirst _ hStale (by intro h; cases h)
    | ok stale =>
      cases stale with
      | false => exact ih.trans (firstNotFresh_cons hStale hResult).symm
      | true =>
        refine ⟨fun h => ⟨[], _, columns, rfl, (by intro b hb; cases hb), hStale.trans h⟩, ?_⟩
        exact hFirst _ hStale (by intro h; cases h)

theorem anyStale_eq_true {columns : List (IndexColumn prim F × Bytes)} :
    anyStale columns = .ok true ↔ FirstNotFresh columns (.ok true) :=
  anyStale_eq_iff (by intro h; cases h)

theorem anyStale_eq_error {columns : List (IndexColumn prim F × Bytes)} {f : Failure} :
    anyStale columns = .error f ↔ FirstNotFresh columns (.error f) :=
  anyStale_eq_iff (by intro h; cases h)

theorem FirstNotFresh.exists_mem {columns : List (IndexColumn prim F × Bytes)}
    {result : Result Bool} (h : FirstNotFresh columns result) :
    ∃ c ∈ columns, c.1.isStale c.2 = result := by
  obtain ⟨before, c, after, rfl, -, hResult⟩ := h
  exact ⟨c, List.mem_append_right _ List.mem_cons_self, hResult⟩

/-- The fingerprint of a planner's contexts does not depend on the row. -/
theorem context_fingerprint (planner : RowPlanner prim F R) (row row' : R) :
    (planner.context row).fingerprint = (planner.context row').fingerprint := by
  obtain ⟨kind, hKind⟩ := planner.oneKind
  exact SealContext.new_fingerprint prim ((hKind row).trans (hKind row').symm)

section

variable (planner : RowPlanner prim F R) (row : R)
  (hArity : indexes.length = planner.indexes.length)

include hArity

/-- Bytes without the magic are classified as legacy. -/
theorem classifyRow_legacy (hMagic : isCiphertext ciphertext = false) :
    planner.classifyRow row ciphertext indexes = .ok .legacy := by
  refine bind_eq_ok.mpr ⟨(), ensure_eq_ok.mpr hArity, ?_⟩
  rw [inspectCiphertext_notCiphertext hMagic]
  rfl

/-- Malformed envelopes are reported, never taken as legacy. -/
theorem classifyRow_malformed {e : Error} (hBad : e.IsMalformed)
    (hParse : inspectCiphertext ciphertext = err e) :
    planner.classifyRow row ciphertext indexes = err e := by
  refine bind_eq_error.mpr (Or.inr ⟨(), ensure_eq_ok.mpr hArity, ?_⟩)
  rw [hParse]
  cases e <;> first | exact hBad.elim | rfl

/-- An envelope is classified by its fingerprint, then by what the planner writes, then by the
index columns. -/
theorem classifyRow_bytes {l : Layout} (hFits : Supported l) :
    planner.classifyRow row l.bytes indexes = (do
      if ← Bound.needsReseal (planner.context row).fingerprint F.padding l.bytes planner.keys then
        return .stale
      if ← anyStale (planner.indexes.zip indexes) then return .stale
      return .current) := by
  unfold classifyRow checkArity
  rw [ensure, if_pos hArity, ok_bind, inspectCiphertext_bytes hFits]
  rfl

/-- Bytes without the magic are planned as legacy. -/
theorem planRow_legacy (hMagic : isCiphertext ciphertext = false) (draw : Option Nonce) :
    planner.planRow row ciphertext indexes draw
      = planner.planLegacyRow (planner.context row) ciphertext draw := by
  unfold planRow checkArity
  rw [ensure, if_pos hArity, ok_bind, inspectCiphertext_notCiphertext hMagic]

theorem planRow_malformed {e : Error} (hBad : e.IsMalformed)
    (hParse : inspectCiphertext ciphertext = err e) (draw : Option Nonce) :
    planner.planRow row ciphertext indexes draw = err e := by
  refine bind_eq_error.mpr (Or.inr ⟨(), ensure_eq_ok.mpr hArity, ?_⟩)
  rw [hParse]
  cases e <;> first | exact hBad.elim | rfl

/-- An envelope is planned as one. -/
theorem planRow_envelope {info : CiphertextInfo} (hInspect : inspectCiphertext ciphertext = .ok info)
    (draw : Option Nonce) :
    planner.planRow row ciphertext indexes draw
      = planner.planEnvelopeRow (planner.context row) ciphertext indexes draw := by
  unfold planRow checkArity
  rw [ensure, if_pos hArity, ok_bind, hInspect]

theorem planRow_bytes {l : Layout} (hFits : Supported l) (draw : Option Nonce) :
    planner.planRow row l.bytes indexes draw
      = planner.planEnvelopeRow (planner.context row) l.bytes indexes draw :=
  planRow_envelope planner row hArity (inspectCiphertext_bytes hFits) draw

/-- **An envelope of another kind of context is refused**, whatever else the row holds. -/
theorem planRow_mismatch {info : CiphertextInfo} (hInspect : inspectCiphertext ciphertext = .ok info)
    (hOther : info.contextFingerprint ≠ (planner.context row).fingerprint) (draw : Option Nonce) :
    planner.classifyRow row ciphertext indexes = err .contextMismatch ∧
      planner.planRow row ciphertext indexes draw = err .contextMismatch := by
  obtain ⟨l, hFits, rfl, rfl⟩ := inspectCiphertext_eq_ok.mp hInspect
  rw [l.parsed_info] at hOther
  have hReseal : Bound.needsReseal (planner.context row).fingerprint F.padding l.bytes planner.keys
      = err .contextMismatch := by
    rw [Bound.needsReseal_bytes hFits, if_neg hOther]
  constructor
  · rw [classifyRow_bytes planner row hArity hFits, hReseal]
    rfl
  · rw [planRow_bytes planner row hArity hFits draw]
    exact bind_eq_error.mpr (Or.inl hReseal)

/-- **What classification makes of a row**, by its bytes: legacy bytes, malformed ones, an
envelope of another kind of context, a stale one, and one that leaves it to the columns. -/
theorem classifyRow_cases (ciphertext : Bytes) :
    (isCiphertext ciphertext = false ∧ planner.classifyRow row ciphertext indexes = .ok .legacy) ∨
    (isCiphertext ciphertext = true ∧
      ((∃ e : Error, e.IsMalformed ∧ inspectCiphertext ciphertext = err e ∧
          planner.classifyRow row ciphertext indexes = err e) ∨
        ∃ info, inspectCiphertext ciphertext = .ok info ∧
          ((info.contextFingerprint ≠ (planner.context row).fingerprint ∧
              planner.classifyRow row ciphertext indexes = err .contextMismatch) ∨
            (info.contextFingerprint = (planner.context row).fingerprint ∧
              ¬ (info.keyId = planner.keys.current.id ∧ info.padded = F.padding.isPadded) ∧
              planner.classifyRow row ciphertext indexes = .ok .stale) ∨
            (info.contextFingerprint = (planner.context row).fingerprint ∧
              (info.keyId = planner.keys.current.id ∧ info.padded = F.padding.isPadded) ∧
              planner.classifyRow row ciphertext indexes
                = (fun stale => if stale then .stale else .current)
                    <$> anyStale (planner.indexes.zip indexes))))) := by
  rcases inspectCiphertext_cases ciphertext with ⟨hMagic, l, hFits, rfl, hInspect⟩ | ⟨hMagic, -⟩ |
    ⟨hMagic, e, hBad, hInspect⟩
  · refine Or.inr ⟨hMagic, Or.inr ⟨_, hInspect, ?_⟩⟩
    by_cases hOwn : l.parsed.info.contextFingerprint = (planner.context row).fingerprint
    · apply Or.inr
      have hReseal : Bound.needsReseal (planner.context row).fingerprint F.padding l.bytes
          planner.keys = .ok ((checked l ⟨[], (planner.context row).fingerprint⟩).needsReseal
            F.padding planner.keys) := by
        rw [Bound.needsReseal_bytes hFits, if_pos (by rwa [l.parsed_info] at hOwn)]
      rw [classifyRow_bytes planner row hArity hFits, hReseal, ok_bind]
      have hCurrent := needsReseal_checked l ⟨[], (planner.context row).fingerprint⟩ F.padding
        planner.keys
      rw [l.parsed_info] at hOwn ⊢
      cases hStale : (checked l ⟨[], (planner.context row).fingerprint⟩).needsReseal F.padding
        planner.keys with
      | true =>
        refine Or.inl ⟨hOwn, fun h => ?_, rfl⟩
        cases hStale.symm.trans (hCurrent.mpr h)
      | false =>
        refine Or.inr ⟨hOwn, hCurrent.mp hStale, ?_⟩
        cases anyStale (planner.indexes.zip indexes) with
        | error f => rfl
        | ok stale => cases stale <;> rfl
    · exact Or.inl ⟨hOwn, (planRow_mismatch planner row hArity hInspect hOwn none).1⟩
  · exact Or.inl ⟨hMagic, classifyRow_legacy planner row hArity hMagic⟩
  · exact Or.inr ⟨hMagic, Or.inl ⟨e, hBad, hInspect,
      classifyRow_malformed planner row hArity hBad hInspect⟩⟩

end

/-- **A row is current** when its envelope needs no reseal and no column is stale. -/
theorem classifyRow_eq_current :
    planner.classifyRow row ciphertext indexes = .ok .current ↔
      indexes.length = planner.indexes.length ∧
      Bound.needsReseal (planner.context row).fingerprint F.padding ciphertext planner.keys
        = .ok false ∧
      ∀ c ∈ planner.indexes.zip indexes, c.1.isStale c.2 = .ok false := by
  unfold classifyRow checkArity
  rw [bind_eq_ok, ← anyStale_eq_false]
  constructor
  · intro h
    obtain ⟨_, hArity, h⟩ := h
    refine ⟨ensure_eq_ok.mp hArity, ?_⟩
    split at h
    · cases pure_eq_ok.mp h
    · cases h
    · obtain ⟨stale, hReseal, h⟩ := bind_eq_ok.mp h
      cases stale with
      | true => cases pure_eq_ok.mp h
      | false =>
        obtain ⟨stale, hStale, h⟩ := bind_eq_ok.mp h
        cases stale with
        | true => cases pure_eq_ok.mp h
        | false => exact ⟨hReseal, hStale⟩
  · intro h
    obtain ⟨hArity, hReseal, hStale⟩ := h
    refine ⟨(), ensure_eq_ok.mpr hArity, ?_⟩
    obtain ⟨l, hFits, rfl, -⟩ := Bound.needsReseal_eq_false.mp hReseal
    rw [inspectCiphertext_bytes hFits]
    exact bind_eq_ok.mpr ⟨false, hReseal, bind_eq_ok.mpr ⟨false, hStale, rfl⟩⟩

/-- **A current row is planned as it is classified**, without a nonce. -/
theorem planRow_current (h : planner.classifyRow row ciphertext indexes = .ok .current)
    (draw : Option Nonce) :
    planner.planRow row ciphertext indexes draw = .ok (.unchanged .current) := by
  obtain ⟨hArity, hReseal, hFresh⟩ := classifyRow_eq_current.mp h
  obtain ⟨l, hFits, rfl, -⟩ := Bound.needsReseal_eq_false.mp hReseal
  have hStale : (planner.indexes.zip indexes).mapM (fun column => column.1.isStale column.2)
      = .ok ((planner.indexes.zip indexes).map fun _ => false) := by
    apply mapM_eq_ok.mpr
    exact List.forall₂_map_right_iff.mpr (List.forall₂_same.mpr hFresh)
  rw [planRow_bytes planner row hArity hFits draw]
  refine bind_eq_ok.mpr ⟨false, hReseal, bind_eq_ok.mpr ⟨_, hStale, ?_⟩⟩
  have hNone : ((planner.indexes.zip indexes).map fun _ => false).contains true = false := by
    simp
  rw [hNone]
  rfl

/-- Classification reads the row's record ID only for its kind. -/
theorem classifyRow_congr (planner : RowPlanner prim F R) (row row' : R) (ciphertext : Bytes)
    (indexes : List Bytes) :
    planner.classifyRow row ciphertext indexes = planner.classifyRow row' ciphertext indexes := by
  unfold classifyRow
  rw [show (planner.context row).envelope.fingerprint = (planner.context row').envelope.fingerprint
    from context_fingerprint planner row row']

end RowPlanner

end Cryptbox

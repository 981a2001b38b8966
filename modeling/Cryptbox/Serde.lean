import Cryptbox.Base.Coder
import Cryptbox.Vectors

/-!
# Serde

`serde_impl.rs`: typed stored values in the formats of `serde`. A format is human-readable or
binary; it is written a text or bytes, and calls the visitor with what it reads (`Content`). The
crate `base64` is a parameter that behaves as documented.

* `serializeBytes_eq_ok`: what is written, and that nothing fails on the way.
* `visit_eq_ok`: what is read as a value: its bytes, or its text in the one spelling that is
  written.
* `serde_exact`: both, for envelopes and for blind indexes.
-/

namespace Cryptbox

open Base Base.Base64

/-! ## Formats -/

/-- `&str`: a text that is in memory. -/
abbrev Str := { text : String // (asBytes text).length ≤ isizeMax }

/-- What a format is written, and what it calls the visitor with. -/
inductive Content where
  | str (text : Str)
  | bytes (bytes : Bytes)
  | byteBuf (bytes : Bytes)
  /-- The elements of a sequence, as far as they are bytes. -/
  | seq (elements : List (Option UInt8))
  /-- Anything that the visitor has no method for. -/
  | other

inductive SerializeError where
  | encodeSlice
  | utf8
  | panicked
  deriving DecidableEq, Repr

inductive DeserializeError where
  /-- `E::custom(error)`. -/
  | custom (error : Error)
  /-- The default of a method of the visitor. -/
  | invalidType (expecting : String)
  /-- An element of a sequence is no byte. -/
  | element
  | panicked
  deriving DecidableEq, Repr

/-! ## Writing -/

/-- Unpadded base64url text, written into a buffer of this length. -/
def serializeText (base64 : Crate) (bytes : Bytes) (capacity : Nat) :
    Except SerializeError Content :=
  if isizeMax < capacity then .error .panicked
  else match base64.urlSafeNoPad.encodeSlice bytes (Block.zero capacity) with
    | none => .error .encodeSlice
    | some (written, text) =>
      match fromUtf8 (text.val.take written) with
      | none => .error .utf8
      | some text =>
        -- The text is no longer than the buffer.
        if h : (asBytes text).length ≤ isizeMax then .ok (.str ⟨text, h⟩) else .error .panicked

/-- Writes `bytes` as bytes, or as unpadded base64url text when the format is human-readable. -/
def serializeBytes (base64 : Crate) (humanReadable : Bool) (bytes : Bytes) :
    Except SerializeError Content :=
  if !humanReadable then .ok (.bytes bytes)
  else serializeText base64 bytes ((base64.encodedLen bytes.length false).getD usizeMax)

/-! ## Reading -/

/-- `DeserializeFromBytes`. -/
structure DeserializeFromBytes (Value : Type) where
  expecting : String
  fromBytes : Bytes → Result Value

def Sealed.deserialize (F : Seal) (C : Option RecordKind) : DeserializeFromBytes (Sealed F C) where
  expecting := "a structurally valid CryptBox envelope, as bytes or unpadded base64url"
  fromBytes := Sealed.fromBytes

def BlindIndex.deserialize {F : Seal} (spec : BlindIndexSpec F) :
    DeserializeFromBytes (BlindIndex spec) where
  expecting := "a structurally valid CryptBox blind index, as bytes or unpadded base64url"
  fromBytes := BlindIndex.fromBytes spec

namespace DeserializeFromBytes

variable {Value : Type} (d : DeserializeFromBytes Value)

/-- `Value::deserialize_from_bytes(bytes).map_err(E::custom)`. -/
def deserializeFromBytes (bytes : Bytes) : Except DeserializeError Value :=
  match d.fromBytes bytes with
  | .ok value => .ok value
  | .error (.err error) => .error (.custom error)
  | .error .panic => .error .panicked

def visitStr (base64 : Crate) (text : Str) : Except DeserializeError Value :=
  let capacity := base64.decodedLenEstimate (asBytes text.val).length
  if isizeMax < capacity then .error .panicked
  else match base64.urlSafeNoPad.decodeSlice text.val (Block.zero capacity) with
    | none => .error (.custom .invalidEnvelope)
    | some (read, bytes) => d.deserializeFromBytes (bytes.val.take read)

/-- The elements are read one by one. -/
def visitSeq (elements : List (Option UInt8)) : Except DeserializeError Value :=
  match elements.mapM id with
  | none => .error .element
  | some bytes => d.deserializeFromBytes bytes

def visit (base64 : Crate) : Content → Except DeserializeError Value
  | .str text => d.visitStr base64 text
  | .bytes bytes => d.deserializeFromBytes bytes
  | .byteBuf bytes => d.deserializeFromBytes bytes
  | .seq elements => d.visitSeq elements
  | .other => .error (.invalidType d.expecting)

end DeserializeFromBytes

/-! ## What is written -/

/-- Bytes whose text fits into memory. -/
def Writable (bytes : Bytes) : Prop := encodedLen bytes.length false ≤ isizeMax

section

variable {base64 : Crate} (hCrate : base64.Documented usizeMax)

include hCrate

/-- The one text of some bytes. -/
def textOf {bytes : Bytes} (h : Writable bytes) : Str :=
  ⟨base64.urlSafeNoPad.encode bytes, (hCrate.urlSafeNoPad.length_encode bytes).trans_le h⟩

/-- **Nothing fails on the way** when the text fits into memory. -/
theorem serializeBytes_eq_ok {bytes : Bytes} (h : Writable bytes) (humanReadable : Bool) :
    serializeBytes base64 humanReadable bytes
      = .ok (if humanReadable then .str (textOf hCrate h) else .bytes bytes) := by
  have hUsize : encodedLen bytes.length false ≤ usizeMax := le_trans h (by decide)
  have hLength := hCrate.urlSafeNoPad.length_encode bytes
  obtain ⟨block, hWrite, hText⟩ :=
    (Block.zero (encodedLen bytes.length false)).overwrite_of_le hLength.le
  cases humanReadable with
  | false => rfl
  | true =>
    show serializeText base64 bytes _ = .ok (.str (textOf hCrate h))
    rw [hCrate.encodedLen, if_pos hUsize, Option.getD_some, serializeText,
      if_neg (Nat.not_lt.mpr h), hCrate.urlSafeNoPad.encodeSlice, hWrite]
    simp only [hText, fromUtf8_asBytes, dif_pos (hLength.trans_le h), textOf]

/-! ## What is read -/

theorem decodedLenEstimate_le (text : Str) :
    base64.decodedLenEstimate (asBytes text.val).length ≤ isizeMax := by
  have hText := text.property
  have hEstimate := hCrate.estimate_le (asBytes text.val).length
  have hMax : isizeMax = 4 * 2305843009213693951 + 3 := rfl
  omega

namespace DeserializeFromBytes

variable {Value : Type} (d : DeserializeFromBytes Value)

/-- A text answers as the bytes that it is the text of. -/
theorem visitStr_of_encode {text : Str} {bytes : Bytes}
    (h : base64.urlSafeNoPad.encode bytes = text.val) :
    d.visitStr base64 text = d.deserializeFromBytes bytes := by
  have hFits : bytes.length ≤ base64.decodedLenEstimate (asBytes text.val).length := by
    rw [← h, hCrate.urlSafeNoPad.length_encode]
    exact hCrate.le_estimate bytes.length false
  obtain ⟨block, hWrite, hRead⟩ :=
    (Block.zero (base64.decodedLenEstimate (asBytes text.val).length)).overwrite_of_le hFits
  have hDecode : base64.urlSafeNoPad.decodeSlice text.val (Block.zero _)
      = some (bytes.length, block) :=
    hCrate.urlSafeNoPad.decodeSlice_eq_some.mpr ⟨bytes, h, hWrite⟩
  have hMax := decodedLenEstimate_le hCrate text
  simp only [visitStr, if_neg (Nat.not_lt.mpr hMax), hDecode, hRead]

/-- Every other text is an invalid envelope. -/
theorem visitStr_of_not {text : Str} (h : ∀ bytes, base64.urlSafeNoPad.encode bytes ≠ text.val) :
    d.visitStr base64 text = .error (.custom .invalidEnvelope) := by
  have hMax := decodedLenEstimate_le hCrate text
  simp only [visitStr, if_neg (Nat.not_lt.mpr hMax), hCrate.urlSafeNoPad.strict text.val _ h]

omit hCrate in
theorem visitSeq_map_some (bytes : Bytes) :
    d.visitSeq (bytes.map some) = d.deserializeFromBytes bytes := by
  have hRead : (bytes.map some).mapM id = some bytes := by
    rw [option_mapM_eq_some, List.forall₂_map_left_iff, List.forall₂_same]
    exact fun _ _ => rfl
  rw [visitSeq, hRead]

end DeserializeFromBytes

end

/-! ## Stored values -/

/-- A kind of value whose reader takes the bytes of its values and nothing else. -/
structure Stored {Value : Type} (asBytes : Value → Bytes) (d : DeserializeFromBytes Value) :
    Prop where
  fromBytes : ∀ {bytes v}, d.fromBytes bytes = .ok v ↔ asBytes v = bytes
  total : ∀ bytes, d.fromBytes bytes ≠ .error .panic
  writable : ∀ v, Writable (asBytes v)

theorem Sealed.stored (F : Seal) (C : Option RecordKind) :
    Stored Sealed.asBytes (Sealed.deserialize F C) where
  fromBytes := Sealed.fromBytes_eq_ok
  total bytes h := by
    have hParse := Sealed.fromBytes_eq_error.mp h
    rcases Envelope.parseSupported_cases bytes with ⟨l, hFits, rfl⟩ | ⟨-, hErr⟩ | ⟨-, e, -, hErr⟩
    · cases hParse.symm.trans (Envelope.parseSupported_bytes hFits)
    · cases hParse.symm.trans hErr
    · cases hParse.symm.trans hErr
  writable s := by
    obtain ⟨l, hFits, hBytes⟩ := Sealed.exists_layout s
    have hMessage : l.ciphertext.length ≤ 274877906879 := hFits
    have hLength : s.asBytes.length = 31 + 24 + 16 + l.ciphertext.length :=
      hBytes ▸ Layout.length_bytes l
    have hMax : isizeMax = 9223372036854775807 := rfl
    unfold Writable encodedLen
    simp only [Bool.false_eq_true, if_false]
    split_ifs <;> omega

theorem BlindIndex.stored {F : Seal} (spec : BlindIndexSpec F) :
    Stored BlindIndex.asBytes (BlindIndex.deserialize spec) where
  fromBytes := BlindIndex.fromBytes_eq_ok
  total bytes h := by
    rcases BlindIndex.fromBytes_eq_error h with hErr | ⟨version, hErr⟩
    · cases hErr
    · cases hErr
  writable index := by
    obtain ⟨keyId, hInfo⟩ := index.parses
    have hLength : index.asBytes.length = indexHeaderLen + divCeil spec.bits.toNat 8 :=
      length_of_inspect hInfo
    have hBody := divCeil_le spec.valid
    have hHeader : indexHeaderLen = 19 := rfl
    have hMax : isizeMax = 9223372036854775807 := rfl
    unfold Writable encodedLen
    simp only [Bool.false_eq_true, if_false]
    split_ifs <;> omega

/-- What spells some bytes in a format. -/
inductive Spells (base64 : Crate) (bytes : Bytes) : Content → Prop
  | str {text : Str} (h : base64.urlSafeNoPad.encode bytes = text.val) :
    Spells base64 bytes (.str text)
  | bytes : Spells base64 bytes (.bytes bytes)
  | byteBuf : Spells base64 bytes (.byteBuf bytes)
  | seq : Spells base64 bytes (.seq (bytes.map some))

/-- How a kind of value is stored through `serde`. -/
structure SerdeExact (base64 : Crate) {Value : Type} (asBytes : Value → Bytes)
    (d : DeserializeFromBytes Value) : Prop where
  /-- Writing does not fail in either kind of format, and what it writes is read back. -/
  writes : ∀ humanReadable v, ∃ content,
    serializeBytes base64 humanReadable (asBytes v) = .ok content ∧ d.visit base64 content = .ok v
  /-- A value is read from what spells its bytes, and from nothing else. -/
  reads : ∀ content v, d.visit base64 content = .ok v ↔ Spells base64 (asBytes v) content
  /-- A text of some bytes answers as these do. -/
  texts : ∀ (text : Str) bytes, base64.urlSafeNoPad.encode bytes = text.val →
    d.visit base64 (.str text) = d.visit base64 (.bytes bytes)
  /-- Every other text is an invalid envelope. -/
  strange : ∀ text : Str, (∀ bytes, base64.urlSafeNoPad.encode bytes ≠ text.val) →
    d.visit base64 (.str text) = .error (.custom .invalidEnvelope)
  total : ∀ content, d.visit base64 content ≠ .error .panicked

variable {Value : Type} {toBytes : Value → Bytes} {d : DeserializeFromBytes Value}

theorem Stored.deserializeFromBytes (h : Stored toBytes d) {bytes : Bytes} {v : Value} :
    d.deserializeFromBytes bytes = .ok v ↔ toBytes v = bytes := by
  rw [← h.fromBytes, DeserializeFromBytes.deserializeFromBytes]
  constructor
  · intro hRead
    split at hRead
    · cases hRead
      assumption
    · cases hRead
    · cases hRead
  · intro hRead
    rw [hRead]

theorem Stored.deserializeFromBytes_ne (h : Stored toBytes d) (bytes : Bytes) :
    d.deserializeFromBytes bytes ≠ .error .panicked := by
  have hTotal := h.total bytes
  intro hPanic
  rw [DeserializeFromBytes.deserializeFromBytes] at hPanic
  split at hPanic
  · cases hPanic
  · cases hPanic
  · contradiction

section

variable {base64 : Crate} (hCrate : base64.Documented usizeMax)

include hCrate

theorem Stored.visit_of_spells (h : Stored toBytes d) {content : Content} {v : Value}
    (hSpells : Spells base64 (toBytes v) content) : d.visit base64 content = .ok v := by
  have hRead := h.deserializeFromBytes.mpr (rfl : toBytes v = toBytes v)
  cases hSpells with
  | str hText => exact (d.visitStr_of_encode hCrate hText).trans hRead
  | bytes => exact hRead
  | byteBuf => exact hRead
  | seq => exact (d.visitSeq_map_some _).trans hRead

/-- **What is read as a value** spells its bytes. -/
theorem Stored.visit_eq_ok (h : Stored toBytes d) {content : Content} {v : Value} :
    d.visit base64 content = .ok v ↔ Spells base64 (toBytes v) content := by
  refine ⟨fun hVisit => ?_, h.visit_of_spells hCrate⟩
  cases content with
  | str text =>
    by_cases hText : ∃ bytes, base64.urlSafeNoPad.encode bytes = text.val
    · obtain ⟨bytes, hText⟩ := hText
      have hRead := (d.visitStr_of_encode hCrate hText).symm.trans hVisit
      obtain rfl := h.deserializeFromBytes.mp hRead
      exact .str hText
    · cases (d.visitStr_of_not hCrate (not_exists.mp hText)).symm.trans hVisit
  | bytes bytes =>
    obtain rfl := h.deserializeFromBytes.mp hVisit
    exact .bytes
  | byteBuf bytes =>
    obtain rfl := h.deserializeFromBytes.mp hVisit
    exact .byteBuf
  | seq elements =>
    simp only [DeserializeFromBytes.visit, DeserializeFromBytes.visitSeq] at hVisit
    split at hVisit
    · cases hVisit
    · next bytes hElements =>
      obtain rfl := h.deserializeFromBytes.mp hVisit
      obtain rfl : elements = (toBytes v).map some := by
        have hAll := option_mapM_eq_some.mp hElements
        rw [← List.forall₂_eq_eq_eq, List.forall₂_map_right_iff]
        exact hAll
      exact .seq
  | other => cases hVisit

theorem Stored.visit_ne_panicked (h : Stored toBytes d) (content : Content) :
    d.visit base64 content ≠ .error .panicked := by
  cases content with
  | str text =>
    by_cases hText : ∃ bytes, base64.urlSafeNoPad.encode bytes = text.val
    · obtain ⟨bytes, hText⟩ := hText
      exact (d.visitStr_of_encode hCrate hText).trans_ne (h.deserializeFromBytes_ne bytes)
    · refine (d.visitStr_of_not hCrate (not_exists.mp hText)).trans_ne ?_
      intro hPanic
      cases hPanic
  | bytes bytes => exact h.deserializeFromBytes_ne bytes
  | byteBuf bytes => exact h.deserializeFromBytes_ne bytes
  | seq elements =>
    simp only [DeserializeFromBytes.visit, DeserializeFromBytes.visitSeq]
    split
    · intro hPanic
      cases hPanic
    · exact h.deserializeFromBytes_ne _
  | other =>
    intro hPanic
    cases hPanic

theorem Stored.exact (h : Stored toBytes d) : SerdeExact base64 toBytes d where
  writes humanReadable v := by
    refine ⟨_, serializeBytes_eq_ok hCrate (h.writable v) humanReadable,
      h.visit_of_spells hCrate ?_⟩
    cases humanReadable with
    | false => exact .bytes
    | true => exact .str rfl
  reads content v := h.visit_eq_ok hCrate
  texts text bytes hText := d.visitStr_of_encode hCrate hText
  strange text hText := d.visitStr_of_not hCrate hText
  total := h.visit_ne_panicked hCrate

end

/-- **Envelopes and blind indexes through `serde`**: nothing fails when they are written, what is
written is read back, and one spelling of their bytes is read in each kind of format. -/
theorem serde_exact (base64 : Crate) (hCrate : base64.Documented usizeMax) :
    (∀ F C, SerdeExact base64 Sealed.asBytes (Sealed.deserialize F C)) ∧
      ∀ (F : Seal) (spec : BlindIndexSpec F),
        SerdeExact base64 BlindIndex.asBytes (BlindIndex.deserialize spec) :=
  ⟨fun F C => (Sealed.stored F C).exact hCrate,
    fun _ spec => (BlindIndex.stored spec).exact hCrate⟩

/-- The index of the vectors is read from its text in RFC 4648. -/
theorem serde_exact_vector : ∃ index : BlindIndex Vectors.vectorIndex,
    index.asBytes = Vectors.index ∧ (BlindIndex.deserialize Vectors.vectorIndex).visit
      (rfc4648 usizeMax) (.str ⟨"Aqqqqqq7u0zMjd3u7u7u7u4ADbXo", by decide⟩) = .ok index := by
  obtain ⟨-, hIndexes⟩ := serde_exact (rfc4648 usizeMax) (rfc4648_documented usizeMax)
  have hRead : (BlindIndex.fromBytes Vectors.vectorIndex Vectors.index).isOk = true := by
    decide +kernel
  cases hIndex : BlindIndex.fromBytes Vectors.vectorIndex Vectors.index with
  | error f => cases hIndex ▸ hRead
  | ok index =>
    have hBytes := BlindIndex.fromBytes_eq_ok.mp hIndex
    refine ⟨index, hBytes, ((hIndexes _ _).reads _ index).mpr (.str ?_)⟩
    rw [hBytes]
    decide +kernel

end Cryptbox

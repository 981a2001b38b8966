import Cryptbox.Base.Text
import Cryptbox.Id.Text
import Mathlib.Data.List.GetD

/-!
# UUID literals

`attr.rs` of the derive crate: an ID is declared as a hyphenated UUID in a string literal, which
is parsed at expansion and emitted again as an integer literal in base 16.

* `uuidValue_eq_some`: a text is read as the value whose bytes it spells.
* `shift_exact`: no digit is shifted out while it is read.
* `literalValue_hexLiteral`: the literal that is emitted evaluates to the value.
-/

namespace Cryptbox.Derive

open Base

variable {Span : Type} {tag : IdTag}

/-! ## Reading -/

/-- Where the hyphens stand. -/
def hyphenPositions : List Nat := [8, 13, 18, 23]

/-- A digit is shifted in. -/
def shiftIn (value : BitVec 128) (digit : Nat) : BitVec 128 :=
  (value <<< 4) ||| BitVec.ofNat 128 digit

/-- One byte of the text, and its index. -/
def uuidStep (value : BitVec 128) (entry : UInt8 × Nat) : Option (BitVec 128) :=
  if entry.2 ∈ hyphenPositions then
    if entry.1 ≠ asciiByte '-' then none else some value
  else do
    let digit ← toDigit (charFrom entry.1)
    return shiftIn value digit

/-- Parses the hyphenated form. -/
def uuidValue (text : String) : Option (BitVec 128) :=
  let bytes := asBytes text
  if bytes.length ≠ 36 then none else bytes.zipIdx.foldlM uuidStep 0

/-! ## Emitting -/

/-- `format!("{:032x}", value)`. -/
def formatHex (value : BitVec 128) : List Char :=
  (Nat.toDigits 16 value.toNat).leftpad 32 '0'

/-- `&text[start..stop]`, of ASCII text. -/
def substring (text : List Char) (start stop : Nat) : Result (List Char) :=
  if start ≤ stop ∧ stop ≤ text.length then .ok ((text.take stop).drop start) else panics

/-- The hex literal grouped like the UUID. -/
def hexLiteral (value : BitVec 128) : Result (List Char) := do
  let hex := formatHex value
  let a ← substring hex 0 8
  let b ← substring hex 8 12
  let c ← substring hex 12 16
  let d ← substring hex 16 20
  let e ← substring hex 20 32
  return '0' :: 'x' :: (a ++ '_' :: (b ++ '_' :: (c ++ '_' :: (d ++ '_' :: e))))

/-- The value of an integer literal in base 16: underscores do not count. -/
def literalValue : List Char → Option Nat
  | '0' :: 'x' :: digits =>
    let digits := digits.filter (· ≠ '_')
    if digits = [] then none else readHex digits
  | _ => none

/-! ## Literals of the derive -/

/-- A message at a place of the source, `syn::Error`. -/
structure Diagnostic (Span : Type) where
  span : Span
  message : String

/-- `LitStr`. -/
structure LitStr (Span : Type) where
  value : String
  span : Span

/-- What stands between `=` and the next comma. -/
inductive Value (Span : Type) where
  | str (literal : LitStr Span)
  | tokens (span : Span)

/-- A validated UUID literal, kept with its span for diagnostics. -/
structure UuidLiteral (Span : Type) where
  value : BitVec 128
  span : Span
  nonNil : value ≠ 0

/-- `parse_uuid`. -/
def parseUuid (name : String) : Value Span → Except (Diagnostic Span) (UuidLiteral Span)
  | .tokens span => .error ⟨span, s!"`{name}` must be a UUID string literal, such as \"0b6f3c2a-8e41-4d57-a9c3-5e1f2d7b8a64\""⟩
  | .str literal =>
    match uuidValue literal.value with
    | none => .error ⟨literal.span, s!"`{name}` must be a hyphenated UUID, such as \"0b6f3c2a-8e41-4d57-a9c3-5e1f2d7b8a64\""⟩
    | some value =>
      if h : value = 0 then
        .error ⟨literal.span, s!"`{name}` must not be the nil UUID: generate a fresh one, such as with `uuidgen`"⟩
      else .ok ⟨value, literal.span, h⟩

/-- The ID in the expansion, `SealId::from_u128(#id)`: the compiler reads the literal as `u128`. -/
def UuidLiteral.id (literal : UuidLiteral Span) : Result (Identifier tag) := do
  match literalValue (← hexLiteral literal.value) with
  | some bits => if bits < 2 ^ 128 then Identifier.fromU128 (BitVec.ofNat 128 bits) else panics
  | none => panics

/-! ## What a text spells -/

/-- Where digit `k` of the 32 stands: behind the hyphens before it. -/
def digitPosition (k : Nat) : Nat :=
  if k < 8 then k else if k < 12 then k + 1 else if k < 16 then k + 2 else if k < 20 then k + 3
  else k + 4

/-- Digit `k` of the text, if it stands there. -/
def digitAt (text : Bytes) (k : Nat) : Option Nat := toDigit (charFrom (text.getD (digitPosition k) 0))

/-- The text is the hyphenated form of the bytes, in digits of either case. -/
structure Spells (text bytes : Bytes) : Prop where
  length : text.length = 36
  hyphens : ∀ position ∈ hyphenPositions, text[position]? = some (asciiByte '-')
  digits : ∀ i < 16, ∃ hi lo, digitAt text (2 * i) = some hi ∧ digitAt text (2 * i + 1) = some lo ∧
    bytes[i]? = some (UInt8.ofNat (16 * hi + lo))

/-- A hyphenated text: hyphens where they belong, and digits elsewhere. -/
structure Hyphenated (text : Bytes) : Prop where
  length : text.length = 36
  hyphens : ∀ position ∈ hyphenPositions, text[position]? = some (asciiByte '-')
  digits : ∀ position < 36, position ∉ hyphenPositions → ∃ byte, text[position]? = some byte ∧
    (48 ≤ byte.toNat ∧ byte.toNat ≤ 57 ∨ 97 ≤ byte.toNat ∧ byte.toNat ≤ 102 ∨
      65 ≤ byte.toNat ∧ byte.toNat ≤ 70)

theorem digitPositions :
    (List.range 36).filter (· ∉ hyphenPositions) = (List.range 32).map digitPosition := by
  decide

/-! ## Shifts -/

theorem toNat_shiftLeft_four {value : BitVec 128} (h : value.toNat < 16 ^ 31) :
    (value <<< 4).toNat = 16 * value.toNat := by
  rw [BitVec.toNat_shiftLeft, Nat.shiftLeft_eq]
  omega

theorem toNat_shiftIn {value : BitVec 128} {digit : Nat} (h : value.toNat < 16 ^ 31)
    (hDigit : digit < 16) : (shiftIn value digit).toNat = 16 * value.toNat + digit := by
  have hOr := Nat.two_pow_add_eq_or_of_lt (i := 4) hDigit value.toNat
  rw [shiftIn, BitVec.toNat_or, toNat_shiftLeft_four h, BitVec.toNat_ofNat,
    Nat.mod_eq_of_lt (by omega)]
  exact hOr.symm

/-- The digits are read as a number of base 16, as long as they fit. -/
theorem toNat_foldl_shiftIn {digits : List Nat} (hLength : digits.length ≤ 32)
    (h : ∀ digit ∈ digits, digit < 16) : (digits.foldl shiftIn 0).toNat = ofHex digits := by
  induction digits using List.reverseRecOn with
  | nil => rfl
  | append_singleton digits digit ih =>
    rw [List.length_append, List.length_singleton] at hLength
    have hDigits : ∀ d ∈ digits, d < 16 := fun d hd => h d (List.mem_append_left _ hd)
    have hDigit : digit < 16 := h digit (by simp)
    have hRead := ih (by omega) hDigits
    have hBound : (digits.foldl shiftIn 0).toNat < 16 ^ 31 := by
      rw [hRead]
      calc ofHex digits < 16 ^ digits.length := ofHex_lt hDigits
        _ ≤ 16 ^ 31 := Nat.pow_le_pow_right (by decide) (by omega)
    rw [List.foldl_append, List.foldl_cons, List.foldl_nil, toNat_shiftIn hBound hDigit, hRead,
      ofHex_concat]

/-! ## Reading a text -/

/-- The loop checks the hyphens and shifts the digits in. -/
theorem foldlM_uuidStep {entries : List (UInt8 × Nat)} {value result : BitVec 128} :
    entries.foldlM uuidStep value = some result ↔
      (∀ entry ∈ entries, entry.2 ∈ hyphenPositions → entry.1 = asciiByte '-') ∧
        ∃ digits, (entries.filter (·.2 ∉ hyphenPositions)).mapM
            (fun entry => toDigit (charFrom entry.1)) = some digits ∧
          digits.foldl shiftIn value = result := by
  induction entries generalizing value with
  | nil => simp
  | cons entry rest ih =>
    rw [List.foldlM_cons, List.forall_mem_cons, uuidStep]
    by_cases hHyphen : entry.2 ∈ hyphenPositions
    · rw [if_pos hHyphen, List.filter_cons_of_neg (by simpa using hHyphen)]
      by_cases hByte : entry.1 = asciiByte '-'
      · rw [if_neg (not_not_intro hByte)]
        refine ih.trans ?_
        simp [hByte]
      · rw [if_pos hByte]
        simp [hHyphen, hByte]
    · rw [if_neg hHyphen, List.filter_cons_of_pos (by simpa using hHyphen), List.mapM_cons]
      cases toDigit (charFrom entry.1) with
      | none => simp
      | some digit =>
        refine ih.trans ?_
        cases (rest.filter (·.2 ∉ hyphenPositions)).mapM fun entry => toDigit (charFrom entry.1) <;>
          simp [hHyphen]

/-- The entries of the digits. -/
theorem mapM_digits {bytes : Bytes} (hLength : bytes.length = 36) :
    (bytes.zipIdx.filter (·.2 ∉ hyphenPositions)).mapM (fun entry => toDigit (charFrom entry.1)) =
      (List.range 32).mapM (digitAt bytes) := by
  have hEntries : bytes.zipIdx = (List.range 36).map fun i => (bytes.getD i 0, i) := by
    refine List.ext_getElem (by simp [hLength]) fun i hi _ => ?_
    rw [List.length_zipIdx] at hi
    simp [hi]
  rw [hEntries, List.filter_map, List.mapM_map]
  exact congrArg (List.mapM _) digitPositions |>.trans (by rw [List.mapM_map]; rfl)

/-- The digits, one by one. -/
theorem mapM_digitAt {text : Bytes} {digits : List Nat} :
    (List.range 32).mapM (digitAt text) = some digits ↔
      digits.length = 32 ∧ ∀ k < 32, digitAt text k = digits[k]? := by
  rw [option_mapM_eq_some, List.forall₂_iff_get]
  constructor
  · rintro ⟨hLength, hAll⟩
    rw [List.length_range] at hLength
    refine ⟨hLength.symm, fun k hk => ?_⟩
    have hDigit := hAll k (by rwa [List.length_range]) (by omega)
    rwa [List.get_eq_getElem, List.get_eq_getElem, List.getElem_range, ← List.getElem?_eq_getElem]
      at hDigit
  · rintro ⟨hLength, hAll⟩
    refine ⟨List.length_range.trans hLength.symm, fun k hk hk' => ?_⟩
    rw [List.get_eq_getElem, List.get_eq_getElem, List.getElem_range, ← List.getElem?_eq_getElem]
    exact hAll k (by rwa [List.length_range] at hk)

theorem digits_bound {text : Bytes} {digits : List Nat}
    (h : (List.range 32).mapM (digitAt text) = some digits) :
    digits.length = 32 ∧ ∀ digit ∈ digits, digit < 16 := by
  obtain ⟨hLength, hDigits⟩ := mapM_digitAt.mp h
  refine ⟨hLength, fun digit hMem => ?_⟩
  obtain ⟨k, hk, rfl⟩ := List.mem_iff_getElem.mp hMem
  exact toDigit_lt ((hDigits k (by omega)).trans (List.getElem?_eq_getElem hk))

/-- The hyphens, as the loop meets them. -/
theorem forall_hyphens {bytes : Bytes} (hLength : bytes.length = 36) :
    (∀ entry ∈ bytes.zipIdx, entry.2 ∈ hyphenPositions → entry.1 = asciiByte '-') ↔
      ∀ position ∈ hyphenPositions, bytes[position]? = some (asciiByte '-') := by
  constructor
  · intro h position hHyphen
    have hPosition : position < bytes.length := by
      rw [hLength]
      revert position
      decide
    have hGet := List.getElem?_eq_getElem hPosition
    rw [hGet, ← h (bytes[position], position) (List.mem_zipIdx_iff_getElem?.mpr hGet) hHyphen]
  · rintro h ⟨byte, position⟩ hMem hHyphen
    exact Option.some.inj ((List.mem_zipIdx_iff_getElem?.mp hMem).symm.trans (h position hHyphen))

/-- A text is read as the number that its digits write. -/
theorem uuidValue_eq_ofHex {text : String} {value : BitVec 128} :
    uuidValue text = some value ↔ (asBytes text).length = 36 ∧
      (∀ position ∈ hyphenPositions, (asBytes text)[position]? = some (asciiByte '-')) ∧
        ∃ digits, (List.range 32).mapM (digitAt (asBytes text)) = some digits ∧
          value.toNat = ofHex digits := by
  simp only [uuidValue]
  by_cases hLength : (asBytes text).length = 36
  · rw [if_neg (not_not_intro hLength), foldlM_uuidStep, forall_hyphens hLength,
      mapM_digits hLength, iff_true_intro hLength, true_and]
    refine and_congr_right fun _ => exists_congr fun digits => and_congr_right fun hDigits => ?_
    obtain ⟨hCount, hBound⟩ := digits_bound hDigits
    rw [← toNat_foldl_shiftIn hCount.le hBound, eq_comm, ← BitVec.toNat_inj]
  · rw [if_pos hLength]
    exact iff_of_false (Option.some_ne_none _).symm fun h => hLength h.1

/-- The digits of a text are those of the bytes that it spells. -/
theorem digits_iff {text bytes : Bytes} (hBytes : bytes.length = 16) :
    (∀ i < 16, ∃ hi lo, digitAt text (2 * i) = some hi ∧ digitAt text (2 * i + 1) = some lo ∧
      bytes[i]? = some (UInt8.ofNat (16 * hi + lo))) ↔
        (List.range 32).mapM (digitAt text) = some (nibbles bytes) := by
  rw [mapM_digitAt, length_nibbles, hBytes, eq_self_iff_true, true_and]
  constructor
  · intro h k hk
    obtain ⟨i, hIndex⟩ := Nat.even_or_odd' k
    obtain ⟨hi, lo, hHigh, hLow, hByte⟩ := h i (by omega)
    have hSmall : hi < 16 ∧ lo < 16 := ⟨toDigit_lt hHigh, toDigit_lt hLow⟩
    have hToNat : (UInt8.ofNat (16 * hi + lo)).toNat = 16 * hi + lo := by
      rw [UInt8.toNat_ofNat']
      exact Nat.mod_eq_of_lt (by omega)
    have hDiv : (16 * hi + lo) / 16 = hi := by omega
    have hMod : (16 * hi + lo) % 16 = lo := by omega
    obtain ⟨hEven, hOdd⟩ := nibbles_getElem? bytes i
    rw [hByte, Option.map_some, hToNat] at hEven hOdd
    rcases hIndex with rfl | rfl
    · rw [hHigh, hEven, hDiv]
    · rw [hLow, hOdd, hMod]
  · intro h i hi
    have hByte : bytes[i]? = some bytes[i] := List.getElem?_eq_getElem (by omega)
    obtain ⟨hEven, hOdd⟩ := nibbles_getElem? bytes i
    rw [hByte, Option.map_some] at hEven hOdd
    refine ⟨bytes[i].toNat / 16, bytes[i].toNat % 16, ?_, ?_, ?_⟩
    · rw [h (2 * i) (by omega), hEven]
    · rw [h (2 * i + 1) (by omega), hOdd]
    · rw [hByte, Nat.div_add_mod, UInt8.ofNat_toNat]

/-- **A text is read** as the value whose bytes it spells. -/
theorem uuidValue_eq_some {text : String} {value : BitVec 128} :
    uuidValue text = some value ↔ Spells (asBytes text) (be 16 value.toNat) := by
  have hValue : value.toNat < 256 ^ 16 := value.isLt
  have hRead : ofHex (nibbles (be 16 value.toNat)) = value.toNat := by
    rw [← value_eq_ofHex, value_be, Nat.mod_eq_of_lt hValue]
  rw [uuidValue_eq_ofHex]
  constructor
  · rintro ⟨hLength, hHyphens, digits, hDigits, hOf⟩
    obtain ⟨hCount, hBound⟩ := digits_bound hDigits
    obtain ⟨bytes, hBytes, rfl⟩ := exists_nibbles (n := 16) hCount hBound
    refine ⟨hLength, hHyphens, ?_⟩
    rw [digits_iff (length_be 16 _), hOf, be_ofHex hBytes]
    exact hDigits
  · rintro ⟨hLength, hHyphens, hDigits⟩
    exact ⟨hLength, hHyphens, _, (digits_iff (length_be 16 _)).mp hDigits, hRead.symm⟩

/-- A byte is a digit when it is one of the ranges of digits. -/
theorem exists_toDigit {byte : UInt8} : (∃ digit, toDigit (charFrom byte) = some digit) ↔
    48 ≤ byte.toNat ∧ byte.toNat ≤ 57 ∨ 97 ≤ byte.toNat ∧ byte.toNat ≤ 102 ∨
      65 ≤ byte.toNat ∧ byte.toNat ≤ 70 := by
  unfold toDigit
  rw [charFrom_toNat]
  split_ifs <;> simp [*]

theorem exists_digitPosition {position : Nat} (h : position < 36)
    (hDigit : position ∉ hyphenPositions) : ∃ k < 32, digitPosition k = position := by
  revert position
  decide

theorem digitPosition_lt {k : Nat} (h : k < 32) :
    digitPosition k < 36 ∧ digitPosition k ∉ hyphenPositions := by
  revert k
  decide

theorem digitAt_eq {text : Bytes} {k : Nat} {byte : UInt8}
    (h : text[digitPosition k]? = some byte) : digitAt text k = toDigit (charFrom byte) := by
  rw [digitAt, List.getD_eq_getElem?_getD, h, Option.getD_some]

/-- **The texts** that are accepted. -/
theorem exists_uuidValue {text : String} :
    (∃ value, uuidValue text = some value) ↔ Hyphenated (asBytes text) := by
  constructor
  · rintro ⟨value, hValue⟩
    obtain ⟨hLength, hHyphens, digits, hDigits, -⟩ := uuidValue_eq_ofHex.mp hValue
    refine ⟨hLength, hHyphens, fun position hPosition hDigit => ?_⟩
    obtain ⟨k, hk, rfl⟩ := exists_digitPosition hPosition hDigit
    obtain ⟨hCount, hAll⟩ := mapM_digitAt.mp hDigits
    have hGet := List.getElem?_eq_getElem (l := asBytes text) (i := digitPosition k) (by omega)
    have hRead := (hAll k hk).trans (List.getElem?_eq_getElem (by omega))
    rw [digitAt_eq hGet] at hRead
    exact ⟨_, hGet, exists_toDigit.mp ⟨_, hRead⟩⟩
  · rintro ⟨hLength, hHyphens, hDigits⟩
    have hRead : ∀ k ∈ List.range 32, ∃ digit, digitAt (asBytes text) k = some digit := by
      intro k hk
      obtain ⟨hPosition, hDigit⟩ := digitPosition_lt (List.mem_range.mp hk)
      obtain ⟨byte, hGet, hByte⟩ := hDigits _ hPosition hDigit
      rw [digitAt_eq hGet]
      exact exists_toDigit.mpr hByte
    obtain ⟨digits, hAll⟩ := exists_forall₂ hRead
    have hDigits := option_mapM_eq_some.mpr hAll
    obtain ⟨hCount, hBound⟩ := digits_bound hDigits
    refine ⟨digits.foldl shiftIn 0, uuidValue_eq_ofHex.mpr ⟨hLength, hHyphens, digits, hDigits, ?_⟩⟩
    exact toNat_foldl_shiftIn hCount.le hBound

/-- **No digit** is shifted out, whatever bytes were read before. -/
theorem shift_exact {bytes : Bytes} {k : Nat} {value : BitVec 128} (hk : k < 36)
    (hRead : (bytes.zipIdx.take k).foldlM uuidStep 0 = some value) :
    (value <<< 4).toNat = 16 * value.toNat := by
  obtain ⟨-, digits, hDigits, rfl⟩ := foldlM_uuidStep.mp hRead
  have hCount : digits.length ≤ 31 := by
    have hAtMost : ∀ k < 36, ((List.range k).filter (· ∉ hyphenPositions)).length ≤ 31 := by decide
    have hIndexes : (bytes.zipIdx.take k).map Prod.snd = List.range (min k bytes.length) := by
      rw [List.map_take, List.zipIdx_map_snd, ← List.range_eq_range', List.take_range]
    have hEntries : digits.length =
        (((bytes.zipIdx.take k).map Prod.snd).filter (· ∉ hyphenPositions)).length := by
      rw [List.filter_map, List.length_map]
      exact (option_mapM_eq_some.mp hDigits).length_eq.symm
    rw [hEntries, hIndexes]
    exact hAtMost _ (by omega)
  have hBound : ∀ digit ∈ digits, digit < 16 := by
    intro digit hMem
    obtain ⟨entry, -, hEntry⟩ := forall₂_exists (option_mapM_eq_some.mp hDigits).flip hMem
    exact toDigit_lt hEntry
  refine toNat_shiftLeft_four ?_
  rw [toNat_foldl_shiftIn (hCount.trans (by decide)) hBound]
  calc ofHex digits < 16 ^ digits.length := ofHex_lt hBound
    _ ≤ 16 ^ 31 := Nat.pow_le_pow_right (by decide) hCount

/-! ## Groups of digits -/

/-- Five groups of digits with a separator between them. -/
def hyphenate {α : Type} (separator : α) (digits : List α) : List α :=
  digits.take 8 ++ separator :: ((digits.take 12).drop 8 ++ separator ::
    ((digits.take 16).drop 12 ++ separator :: ((digits.take 20).drop 16 ++ separator ::
      (digits.take 32).drop 20)))

section

variable {α : Type} {separator : α} {digits : List α}

theorem hyphenate_map {β : Type} (f : α → β) :
    hyphenate (f separator) (digits.map f) = (hyphenate separator digits).map f := by
  simp [hyphenate, List.map_take, List.map_drop]

/-- What stands where: a separator, or one of the digits. -/
theorem hyphenate_eq_map (h : digits.length = 32) : hyphenate separator digits =
    (hyphenate none ((List.range 32).map some)).map
      fun label => label.elim separator fun k => digits.getD k separator := by
  have hDigits : digits = (List.range 32).map fun k => digits.getD k separator := by
    refine List.ext_getElem (by simp [h]) fun i hi _ => ?_
    simp [hi]
  rw [← hyphenate_map, List.map_map]
  exact congrArg (hyphenate separator) hDigits

theorem mem_hyphenate {a : α} (h : a ∈ hyphenate separator digits) : a = separator ∨ a ∈ digits := by
  have hGroup (start stop : Nat) (hMem : a ∈ (digits.take stop).drop start) : a ∈ digits :=
    List.mem_of_mem_take (List.mem_of_mem_drop hMem)
  simp only [hyphenate, List.mem_append, List.mem_cons] at h
  rcases h with h | h | h | h | h | h | h | h | h
  · exact Or.inr (List.mem_of_mem_take h)
  all_goals first | exact Or.inl h | exact Or.inr (hGroup _ _ h)

theorem length_hyphenate (h : digits.length = 32) : (hyphenate separator digits).length = 36 := by
  rw [hyphenate_eq_map h, List.length_map]
  rfl

theorem hyphenate_hyphen (h : digits.length = 32) {position : Nat}
    (hPosition : position ∈ hyphenPositions) :
    (hyphenate separator digits)[position]? = some separator := by
  have hLabel : ∀ position ∈ hyphenPositions,
      (hyphenate none ((List.range 32).map some))[position]? = some none := by
    decide
  rw [hyphenate_eq_map h, List.getElem?_map, hLabel position hPosition]
  rfl

theorem hyphenate_digit (h : digits.length = 32) {k : Nat} (hk : k < 32) :
    (hyphenate separator digits)[digitPosition k]? = digits[k]? := by
  have hLabel : ∀ k < 32,
      (hyphenate none ((List.range 32).map some))[digitPosition k]? = some (some k) := by
    decide
  rw [hyphenate_eq_map h, List.getElem?_map, hLabel k hk, List.getElem?_eq_getElem (by omega)]
  simp [h, hk]

theorem take_append_drop_take (digits : List α) {a b : Nat} (h : a ≤ b) :
    digits.take a ++ (digits.take b).drop a = digits.take b := by
  have := List.take_append_drop a (digits.take b)
  rwa [List.take_take, Nat.min_eq_left h] at this

/-- The groups without the separators. -/
theorem filter_hyphenate [DecidableEq α] (h : digits.length = 32) (hDigits : separator ∉ digits) :
    (hyphenate separator digits).filter (· ≠ separator) = digits := by
  have hGroup {group : List α} (hMem : ∀ a ∈ group, a ∈ digits) :
      group.filter (· ≠ separator) = group := by
    refine List.filter_eq_self.mpr fun a ha => decide_eq_true ?_
    rintro rfl
    exact hDigits (hMem a ha)
  have hDrop (a b : Nat) : ((digits.take b).drop a).filter (· ≠ separator) = (digits.take b).drop a :=
    hGroup fun a ha => List.mem_of_mem_take (List.mem_of_mem_drop ha)
  have hTake : (digits.take 8).filter (· ≠ separator) = digits.take 8 :=
    hGroup fun a ha => List.mem_of_mem_take ha
  have hSeparator (rest : List α) : (separator :: rest).filter (· ≠ separator) =
      rest.filter (· ≠ separator) := List.filter_cons_of_neg (by simp)
  rw [hyphenate, List.filter_append, hSeparator, List.filter_append, hSeparator, List.filter_append,
    hSeparator, List.filter_append, hSeparator, hTake, hDrop, hDrop, hDrop, hDrop,
    ← List.append_assoc, ← List.append_assoc, ← List.append_assoc,
    take_append_drop_take digits (by decide), take_append_drop_take digits (by decide),
    take_append_drop_take digits (by decide), take_append_drop_take digits (by decide), ← h,
    List.take_length]

end

/-! ## The literal that is emitted -/

theorem length_formatHex (value : BitVec 128) : (formatHex value).length = 32 := by
  have hDigits : (Nat.toDigits 16 value.toNat).length ≤ 32 :=
    (Nat.length_toDigits_le_iff (by decide) (by decide)).mpr value.isLt
  rw [formatHex, List.length_leftpad]
  exact max_eq_left hDigits

theorem readHex_formatHex (value : BitVec 128) : readHex (formatHex value) = some value.toNat := by
  rw [formatHex, List.leftpad, readHex_zeros, readHex_toDigits]

theorem underscore_not_mem_formatHex (value : BitVec 128) : '_' ∉ formatHex value := by
  intro hMem
  obtain ⟨digits, hDigits, -⟩ := Option.map_eq_some_iff.mp (readHex_formatHex value)
  obtain ⟨digit, -, hDigit⟩ := forall₂_exists (option_mapM_eq_some.mp hDigits) hMem
  have hNone : toDigit '_' = none := by decide
  rw [hNone] at hDigit
  cases hDigit

theorem substring_eq {text : List Char} {start stop : Nat} (h : start ≤ stop)
    (hStop : stop ≤ text.length) :
    substring text start stop = .ok ((text.take stop).drop start) := if_pos ⟨h, hStop⟩

theorem hexLiteral_eq (value : BitVec 128) :
    hexLiteral value = .ok ('0' :: 'x' :: hyphenate '_' (formatHex value)) := by
  have hPart {start stop : Nat} (h : start ≤ stop) (hStop : stop ≤ 32) :
      substring (formatHex value) start stop = .ok (((formatHex value).take stop).drop start) :=
    substring_eq h (hStop.trans_eq (length_formatHex value).symm)
  unfold hexLiteral
  simp only [hPart, Nat.reduceLeDiff, ok_bind, List.drop_zero]
  rfl

/-- **The literal** evaluates to the value. -/
theorem literalValue_hexLiteral (value : BitVec 128) :
    ∃ tokens, hexLiteral value = .ok tokens ∧ literalValue tokens = some value.toNat := by
  have hLength := length_formatHex value
  have hDigits := filter_hyphenate hLength (underscore_not_mem_formatHex value)
  have hNe : formatHex value ≠ [] := by
    intro hNil
    rw [hNil] at hLength
    cases hLength
  refine ⟨_, hexLiteral_eq value, ?_⟩
  simp only [literalValue]
  rw [hDigits, if_neg hNe, readHex_formatHex]

/-- The ID in the expansion is that of the value. -/
theorem UuidLiteral.id_eq (literal : UuidLiteral Span) :
    (literal.id : Result (Identifier tag)) = .ok ⟨beBlock 16 literal.value.toNat⟩ := by
  obtain ⟨tokens, hTokens, hValue⟩ := literalValue_hexLiteral literal.value
  rw [UuidLiteral.id, hTokens, ok_bind, hValue]
  simp only [literal.value.isLt, if_true, BitVec.ofNat_toNat, BitVec.setWidth_eq]
  rw [Identifier.fromU128_eq, if_neg literal.nonNil]

/-! ## Letter case -/

/-- `a.eq_ignore_ascii_case(b)`. -/
def EqIgnoreAsciiCase (a b : String) : Prop :=
  (asBytes a).map toAsciiLowercase = (asBytes b).map toAsciiLowercase

theorem digitAt_toAsciiLowercase (text : Bytes) (k : Nat) :
    digitAt (text.map toAsciiLowercase) k = digitAt text k := by
  have hGet : (text.map toAsciiLowercase).getD (digitPosition k) (toAsciiLowercase 0) =
      toAsciiLowercase (text.getD (digitPosition k) 0) := List.getD_map _ _ toAsciiLowercase
  have hZero : toAsciiLowercase 0 = 0 := by decide
  rw [hZero] at hGet
  rw [digitAt, hGet, toDigit_toAsciiLowercase, digitAt]

/-- Two accepted texts have the same value exactly when they differ in case only. -/
theorem value_eq_iff {a b : String} {v w : BitVec 128} (ha : uuidValue a = some v)
    (hb : uuidValue b = some w) : v = w ↔ EqIgnoreAsciiCase a b := by
  constructor
  · rintro rfl
    obtain ⟨hLength, hHyphens, hDigits⟩ := uuidValue_eq_some.mp ha
    obtain ⟨hLength', hHyphens', hDigits'⟩ := uuidValue_eq_some.mp hb
    rw [digits_iff (length_be 16 _)] at hDigits hDigits'
    refine List.ext_getElem (by simp [hLength, hLength']) fun position hPosition _ => ?_
    rw [List.length_map, hLength] at hPosition
    rw [List.getElem_map, List.getElem_map]
    have hGet := List.getElem?_eq_getElem (l := asBytes a) (i := position) (by omega)
    have hGet' := List.getElem?_eq_getElem (l := asBytes b) (i := position) (by omega)
    by_cases hHyphen : position ∈ hyphenPositions
    · rw [hHyphens position hHyphen] at hGet
      rw [hHyphens' position hHyphen] at hGet'
      rw [← Option.some.inj hGet, ← Option.some.inj hGet']
    · obtain ⟨k, hk, rfl⟩ := exists_digitPosition hPosition hHyphen
      obtain ⟨hCount, hAll⟩ := mapM_digitAt.mp hDigits
      have hDigit := List.getElem?_eq_getElem (l := nibbles (be 16 v.toNat)) (i := k) (by omega)
      have hRead := (hAll k hk).trans hDigit
      have hRead' := ((mapM_digitAt.mp hDigits').2 k hk).trans hDigit
      rw [digitAt_eq hGet] at hRead
      rw [digitAt_eq hGet'] at hRead'
      exact (toDigit_eq_toDigit hRead).mp hRead'
  · intro hCase
    obtain ⟨-, -, digits, hDigits, hValue⟩ := uuidValue_eq_ofHex.mp ha
    obtain ⟨-, -, digits', hDigits', hValue'⟩ := uuidValue_eq_ofHex.mp hb
    have hSame : digitAt (asBytes a) = digitAt (asBytes b) := by
      funext k
      rw [← digitAt_toAsciiLowercase, hCase, digitAt_toAsciiLowercase]
    rw [hSame, hDigits'] at hDigits
    rw [← BitVec.toNat_inj, hValue, hValue', Option.some.inj hDigits]

/-! ## The form that is displayed -/

theorem take_flatMap_hexByte (bytes : Bytes) (n : Nat) :
    (bytes.flatMap hexByte).take (2 * n) = (bytes.take n).flatMap hexByte := by
  induction n generalizing bytes with
  | zero => simp
  | succ n ih =>
    cases bytes with
    | nil => simp
    | cons byte rest =>
      rw [List.flatMap_cons, Nat.mul_succ, List.take_succ_cons, List.flatMap_cons, ← ih]
      rfl

theorem drop_flatMap_hexByte (bytes : Bytes) (n : Nat) :
    (bytes.flatMap hexByte).drop (2 * n) = (bytes.drop n).flatMap hexByte := by
  induction n generalizing bytes with
  | zero => simp
  | succ n ih =>
    cases bytes with
    | nil => simp
    | cons byte rest =>
      rw [List.flatMap_cons, Nat.mul_succ, List.drop_succ_cons, ← ih]
      rfl

theorem toList_display (id : Identifier tag) :
    id.display.toList = hyphenate '-' (id.asBytes.val.flatMap hexByte) := by
  have hLength : id.asBytes.val.length ≤ 16 := (Block.length_val id.asBytes).le
  have hGroup (a b : Nat) : ((id.asBytes.val.flatMap hexByte).take (2 * b)).drop (2 * a) =
      ((id.asBytes.val.drop a).take (b - a)).flatMap hexByte := by
    rw [take_flatMap_hexByte, drop_flatMap_hexByte, List.drop_take]
  have hFirst := take_flatMap_hexByte id.asBytes.val 4
  have hLast : (id.asBytes.val.drop 10).take 6 = id.asBytes.val.drop 10 :=
    List.take_of_length_le (by rw [List.length_drop]; omega)
  rw [hyphenate, hFirst, hGroup 4 6, hGroup 6 8, hGroup 8 10, hGroup 10 16, hLast,
    Identifier.display, hyphenated, String.toList_intercalate]
  simp [hexEncode, List.intercalate]

theorem charFrom_asciiByte {c : Char} (h : c.toNat < 128) : charFrom (asciiByte c) = c := by
  rw [charFrom, asciiByte_toNat h, Char.ofNat_toNat]

theorem value_lt_two_pow (bytes : Block 16) : value bytes.val < 2 ^ 128 := by
  have hBound := value_lt bytes.val
  rw [Block.length_val] at hBound
  exact hBound

/-- The form that is displayed is read as the value of the bytes. -/
theorem uuidValue_display (id : Identifier tag) :
    uuidValue id.display = some (BitVec.ofNat 128 (value id.asBytes.val)) := by
  have hBytes : id.asBytes.val.length = 16 := Block.length_val id.asBytes
  have hAscii : ∀ digit < 16, (Nat.digitChar digit).toNat < 128 := by decide
  have hHex : id.asBytes.val.flatMap hexByte = (nibbles id.asBytes.val).map Nat.digitChar :=
    flatMap_hexByte _
  have hCount : (nibbles id.asBytes.val).length = 32 := by rw [length_nibbles, hBytes]
  have hLength : ((id.asBytes.val.flatMap hexByte).map asciiByte).length = 32 := by
    rw [hHex, List.length_map, List.length_map, hCount]
  -- The text is ASCII, so that its bytes stand where its characters do.
  have hText : asBytes id.display =
      hyphenate (asciiByte '-') ((id.asBytes.val.flatMap hexByte).map asciiByte) := by
    rw [asBytes, toList_display, hyphenate_map]
    refine utf8_eq_map fun c hMem => ?_
    rcases mem_hyphenate hMem with rfl | hDigit
    · decide
    · rw [hHex] at hDigit
      obtain ⟨digit, hNibble, rfl⟩ := List.mem_map.mp hDigit
      exact hAscii digit (nibbles_lt hNibble)
  have hDigits (k : Nat) (hk : k < 32) :
      digitAt (asBytes id.display) k = (nibbles id.asBytes.val)[k]? := by
    obtain ⟨digit, hDigit⟩ : ∃ digit, (nibbles id.asBytes.val)[k]? = some digit :=
      ⟨_, List.getElem?_eq_getElem (by omega)⟩
    have hSmall : digit < 16 := nibbles_lt (List.mem_of_getElem? hDigit)
    have hGet : (asBytes id.display)[digitPosition k]? = some (asciiByte (Nat.digitChar digit)) := by
      rw [hText, hyphenate_digit hLength hk, hHex, List.getElem?_map, List.getElem?_map, hDigit]
      rfl
    rw [digitAt_eq hGet, charFrom_asciiByte (hAscii _ hSmall), toDigit_digitChar hSmall, hDigit]
  refine uuidValue_eq_ofHex.mpr ⟨?_, ?_, nibbles id.asBytes.val, mapM_digitAt.mpr ⟨hCount, hDigits⟩,
    ?_⟩
  · rw [hText, length_hyphenate hLength]
  · intro position hPosition
    rw [hText, hyphenate_hyphen hLength hPosition]
  · rw [BitVec.toNat_ofNat, Nat.mod_eq_of_lt (value_lt_two_pow id.asBytes), value_eq_ofHex]

/-! ## The literals of the derive -/

/-- A literal is parsed when it is hyphenated and not nil, with its value and its span. -/
theorem parseUuid_eq_ok {name : String} {literal : LitStr Span} {parsed : UuidLiteral Span} :
    parseUuid name (.str literal) = .ok parsed ↔
      uuidValue literal.value = some parsed.value ∧ parsed.span = literal.span := by
  obtain ⟨value, span, hNonNil⟩ := parsed
  simp only [parseUuid]
  cases uuidValue literal.value with
  | none => simp
  | some read =>
    dsimp only
    by_cases hNil : read = 0
    · rw [dif_pos hNil]
      refine iff_of_false (fun h => nomatch h) fun h => hNonNil ?_
      rw [← Option.some.inj h.1, hNil]
    · simp only [hNil, dite_false, Except.ok.injEq, UuidLiteral.mk.injEq, Option.some_inj]
      rw [eq_comm (a := literal.span)]

/-- **What an ID literal denotes.** -/
structure UuidLiterals (Span : Type) (tag : IdTag) (name : String) : Prop where
  /-- The texts that are read. -/
  accepts : ∀ text, (∃ value, uuidValue text = some value) ↔ Hyphenated (asBytes text)
  /-- They are read as what they spell. -/
  reads : ∀ text value, uuidValue text = some value ↔
    Spells (asBytes text) (be 16 value.toNat)
  /-- No shift drops a bit that is set, whatever the text. -/
  exact : ∀ text k value, k < 36 →
    ((asBytes text).zipIdx.take k).foldlM uuidStep 0 = some value →
      (value <<< 4).toNat = 16 * value.toNat
  /-- Every value is emitted as a literal that evaluates to it. -/
  emits : ∀ value, ∃ tokens, hexLiteral value = .ok tokens ∧ literalValue tokens = some value.toNat
  /-- The ID of a value has its bytes; there is none of the nil value. -/
  declares : ∀ value : BitVec 128, (Identifier.fromU128 value : Result (Identifier tag)) =
    if value = 0 then panics else .ok ⟨beBlock 16 value.toNat⟩
  /-- Among the texts that are read, the nil value alone is rejected. -/
  rejects : ∀ (literal : LitStr Span) value, uuidValue literal.value = some value →
    ((∃ error, parseUuid name (.str literal) = .error error) ↔ value = 0)
  /-- The ID of a literal has the bytes that the literal spells. -/
  denotes : ∀ (literal : LitStr Span) parsed, parseUuid name (.str literal) = .ok parsed →
    ∃ id : Identifier tag, parsed.id = .ok id ∧ Spells (asBytes literal.value) id.asBytes.val
  /-- Literals give equal IDs exactly when they are equal up to letter case. -/
  agrees : ∀ (a b : LitStr Span) l m, parseUuid name (.str a) = .ok l →
    parseUuid name (.str b) = .ok m →
      ((l.id : Result (Identifier tag)) = m.id ↔ EqIgnoreAsciiCase a.value b.value)
  /-- An ID is accepted in the form that is displayed. -/
  displays : ∀ (id : Identifier tag) (span : Span), id.asBytes ≠ Block.zero 16 →
    ∃ parsed, parseUuid name (.str ⟨id.display, span⟩) = .ok parsed ∧ parsed.id = .ok id

/-- What is rejected among the texts that are read. -/
theorem parseUuid_eq_error {name : String} {literal : LitStr Span} {value : BitVec 128}
    (h : uuidValue literal.value = some value) :
    (∃ error, parseUuid name (.str literal) = .error error) ↔ value = 0 := by
  simp only [parseUuid, h]
  by_cases hNil : value = 0
  · rw [dif_pos hNil]
    exact iff_of_true ⟨_, rfl⟩ hNil
  · rw [dif_neg hNil]
    exact iff_of_false (fun ⟨_, hError⟩ => nomatch hError) hNil

theorem id_eq_id {a b : UuidLiteral Span} :
    (a.id : Result (Identifier tag)) = b.id ↔ a.value = b.value := by
  rw [UuidLiteral.id_eq, UuidLiteral.id_eq]
  constructor
  · intro h
    have hBytes : be 16 a.value.toNat = be 16 b.value.toNat :=
      congrArg (fun id : Identifier tag => id.asBytes.val) (Except.ok.inj h)
    exact BitVec.eq_of_toNat_eq (be_injective a.value.isLt b.value.isLt hBytes)
  · intro h
    rw [h]

/-- An ID that is not nil is parsed in the form that is displayed. -/
theorem parseUuid_display (name : String) (id : Identifier tag) (span : Span)
    (hNonNil : id.asBytes ≠ Block.zero 16) :
    ∃ parsed, parseUuid name (.str ⟨id.display, span⟩) = .ok parsed ∧ parsed.id = .ok id := by
  have hToNat : (BitVec.ofNat 128 (value id.asBytes.val)).toNat = value id.asBytes.val := by
    rw [BitVec.toNat_ofNat, Nat.mod_eq_of_lt (value_lt_two_pow id.asBytes)]
  have hBytes : beBlock 16 (BitVec.ofNat 128 (value id.asBytes.val)).toNat = id.asBytes := by
    refine Subtype.ext ?_
    have hBe := be_value id.asBytes.val
    rw [Block.length_val] at hBe
    rw [hToNat]
    exact hBe
  have hNe : BitVec.ofNat 128 (value id.asBytes.val) ≠ 0 := by
    intro hZero
    exact hNonNil (hBytes.symm.trans (Identifier.beBlock_eq_zero.mpr hZero))
  refine ⟨⟨_, span, hNe⟩, parseUuid_eq_ok.mpr ⟨uuidValue_display id, rfl⟩, ?_⟩
  rw [UuidLiteral.id_eq, hBytes]

theorem uuidLiterals (Span : Type) (tag : IdTag) (name : String) : UuidLiterals Span tag name where
  accepts := fun _ => exists_uuidValue
  reads := fun _ _ => uuidValue_eq_some
  exact := fun _ _ _ => shift_exact
  emits := literalValue_hexLiteral
  declares := Identifier.fromU128_eq
  rejects := fun _ _ => parseUuid_eq_error
  denotes := by
    intro literal parsed h
    exact ⟨_, parsed.id_eq, uuidValue_eq_some.mp (parseUuid_eq_ok.mp h).1⟩
  agrees := by
    intro a b l m ha hb
    rw [id_eq_id]
    exact value_eq_iff (parseUuid_eq_ok.mp ha).1 (parseUuid_eq_ok.mp hb).1
  displays := parseUuid_display name

end Cryptbox.Derive

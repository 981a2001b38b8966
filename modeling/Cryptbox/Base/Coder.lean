import Cryptbox.Base.Base64
import Cryptbox.Base.Hex
import Cryptbox.Base.Text

/-!
# Encoders

What a program calls of the crates `base64` and `hex`, which are parameters, and what their
documentation says of the calls. A decoder writes the start of a slice, whose length stays.

* `Base64.Coder.Documented`, `Base64.Crate.Documented`, `Hex.Documented`: the documentation.
* `Base64.Coder.Documented.decodeSlice_eq_some`: a strict engine decodes what it encodes, in one
  spelling.
* `Base64.rfc4648_documented`, `Hex.decodeToSlice_documented`: encoders that behave so.
-/

namespace Cryptbox.Base

/-! ## Slices -/

/-- Writes bytes at the start of a slice, and answers how many. -/
def Block.overwrite {n : Nat} (slice : Block n) (bytes : Bytes) : Option (Nat × Block n) :=
  if h : bytes.length ≤ n then
    some (bytes.length, ⟨bytes ++ slice.val.drop bytes.length, by
      rw [List.length_append, List.length_drop, slice.length_val]
      omega⟩)
  else none

theorem Block.overwrite_of_le {n : Nat} (slice : Block n) {bytes : Bytes} (h : bytes.length ≤ n) :
    ∃ block, slice.overwrite bytes = some (bytes.length, block) ∧
      block.val.take bytes.length = bytes :=
  ⟨_, dif_pos h, List.take_left' rfl⟩

/-- The whole slice is written. -/
theorem Block.overwrite_eq_all {n : Nat} {slice block : Block n} {bytes : Bytes} :
    slice.overwrite bytes = some (n, block) ↔ bytes = block.val := by
  unfold overwrite
  constructor
  · intro h
    split at h
    · obtain ⟨hLength, rfl⟩ := Prod.mk.inj (Option.some.inj h)
      have hNone : slice.val.drop bytes.length = [] :=
        List.drop_eq_nil_of_le (by rw [slice.length_val, hLength])
      show bytes = bytes ++ slice.val.drop bytes.length
      rw [hNone, List.append_nil]
    · cases h
  · rintro rfl
    have hNone : slice.val.drop block.val.length = [] :=
      List.drop_eq_nil_of_le (by rw [slice.length_val, block.length_val])
    rw [dif_pos block.length_val.le]
    refine congrArg some (Prod.ext block.length_val (Subtype.ext ?_))
    show block.val ++ slice.val.drop block.val.length = block.val
    rw [hNone, List.append_nil]

/-! ## The crate `base64` -/

namespace Base64

/-- The methods of an engine. -/
structure Coder where
  encode : Bytes → String
  encodeSlice : {n : Nat} → Bytes → Block n → Option (Nat × Block n)
  decodeSlice : {n : Nat} → String → Block n → Option (Nat × Block n)

structure Crate where
  encodedLen : Nat → Bool → Option Nat
  decodedLenEstimate : Nat → Nat
  standard : Coder
  urlSafeNoPad : Coder

/-- What is documented of an engine that reads as strictly as it writes. -/
structure Coder.Documented (coder : Coder) (padded : Bool) : Prop where
  length_encode : ∀ bytes,
    (asBytes (coder.encode bytes)).length = Base64.encodedLen bytes.length padded
  /-- The text is written, or does not fit. -/
  encodeSlice : ∀ {n : Nat} bytes (slice : Block n),
    coder.encodeSlice bytes slice = slice.overwrite (asBytes (coder.encode bytes))
  /-- What was encoded is written, or does not fit. -/
  decodeSlice : ∀ {n : Nat} bytes (slice : Block n),
    coder.decodeSlice (coder.encode bytes) slice = slice.overwrite bytes
  /-- Other symbols, other padding, and bits that do not count are refused. -/
  strict : ∀ {n : Nat} text (slice : Block n), (∀ bytes, coder.encode bytes ≠ text) →
    coder.decodeSlice text slice = none

/-- What is documented of the crate, where numbers end at `max`. -/
structure Crate.Documented (crate : Crate) (max : Nat) : Prop where
  encodedLen : ∀ length padded, crate.encodedLen length padded =
    if Base64.encodedLen length padded ≤ max then some (Base64.encodedLen length padded) else none
  /-- The estimate is conservative, rounded up to the next group of three bytes. -/
  le_estimate : ∀ length padded,
    length ≤ crate.decodedLenEstimate (Base64.encodedLen length padded)
  estimate_le : ∀ length, crate.decodedLenEstimate length ≤ (length + 3) / 4 * 3
  standard : crate.standard.Documented true
  urlSafeNoPad : crate.urlSafeNoPad.Documented false

/-- **A strict engine decodes** what it encodes, in one spelling. -/
theorem Coder.Documented.decodeSlice_eq_some {coder : Coder} {padded : Bool}
    (h : coder.Documented padded) {n count : Nat} {text : String} {slice block : Block n} :
    coder.decodeSlice text slice = some (count, block) ↔
      ∃ bytes, coder.encode bytes = text ∧ slice.overwrite bytes = some (count, block) := by
  constructor
  · intro hDecode
    by_cases hText : ∃ bytes, coder.encode bytes = text
    · obtain ⟨bytes, rfl⟩ := hText
      exact ⟨bytes, rfl, (h.decodeSlice bytes slice).symm.trans hDecode⟩
    · cases (h.strict text slice (not_exists.mp hText)).symm.trans hDecode
  · rintro ⟨bytes, rfl, hWrite⟩
    exact (h.decodeSlice bytes slice).trans hWrite

/-! ### RFC 4648 -/

def Engine.coder (e : Engine) : Coder where
  encode bytes := String.ofList (e.encode bytes)
  encodeSlice bytes slice := slice.overwrite (asBytes (String.ofList (e.encode bytes)))
  decodeSlice text slice := (e.decode text.toList).bind slice.overwrite

theorem Engine.coder_documented {e : Engine} (hAscii : ∀ c ∈ e.alphabet.chars, c.toNat < 128) :
    e.coder.Documented e.padded where
  length_encode bytes := by
    show (asBytes (String.ofList (e.encode bytes))).length = _
    rw [asBytes, String.toList_ofList, utf8_eq_map fun c => Engine.ascii_encode hAscii,
      List.length_map, Engine.length_encode]
  encodeSlice bytes slice := rfl
  decodeSlice bytes slice := by
    show (e.decode (String.ofList (e.encode bytes)).toList).bind slice.overwrite = _
    rw [String.toList_ofList, Engine.decode_eq_some.mpr rfl]
    rfl
  strict text slice hText := by
    show (e.decode text.toList).bind slice.overwrite = none
    cases hDecode : e.decode text.toList with
    | none => rfl
    | some bytes =>
      refine absurd ?_ (hText bytes)
      show String.ofList (e.encode bytes) = text
      rw [← Engine.decode_eq_some.mp hDecode, String.ofList_toList]

def rfc4648 (max : Nat) : Crate where
  encodedLen length padded :=
    if Base64.encodedLen length padded ≤ max then some (Base64.encodedLen length padded) else none
  decodedLenEstimate length := (length / 4 + if length % 4 = 0 then 0 else 1) * 3
  standard := Engine.standard.coder
  urlSafeNoPad := Engine.urlSafeNoPad.coder

/-- **The encoders of RFC 4648** behave as documented. -/
theorem rfc4648_documented (max : Nat) : (rfc4648 max).Documented max where
  encodedLen _ _ := rfl
  le_estimate length padded := by
    show length ≤ _
    unfold rfc4648 Base64.encodedLen
    dsimp only
    split_ifs <;> omega
  estimate_le length := by
    unfold rfc4648
    dsimp only
    split_ifs <;> omega
  standard := Engine.coder_documented fun c hMem => of_decide_eq_true
    (List.all_eq_true.mp (by decide : (Alphabet.standard.chars.all (·.toNat < 128)) = true) c hMem)
  urlSafeNoPad := Engine.coder_documented fun c hMem => of_decide_eq_true
    (List.all_eq_true.mp (by decide : (Alphabet.urlSafe.chars.all (·.toNat < 128)) = true) c hMem)

end Base64

/-! ## The crate `hex` -/

namespace Hex

abbrev DecodeToSlice := {n : Nat} → String → Block n → Option (Block n)

/-- Digits of either case that write the bytes. -/
def Spells (text : String) (bytes : Bytes) : Prop := text.toList.mapM toDigit = some (nibbles bytes)

theorem spells_hexEncode (bytes : Bytes) : Spells (hexEncode bytes) bytes := by
  unfold Spells hexEncode
  rw [String.toList_ofList, flatMap_hexByte, option_mapM_eq_some, List.forall₂_map_left_iff,
    List.forall₂_same]
  exact fun digit hMem => toDigit_digitChar (nibbles_lt hMem)

/-- The bytes of a text are digits exactly when its characters are. -/
theorem mapM_toDigit_utf8 (chars : List Char) :
    (utf8 chars).mapM (fun byte => toDigit (charFrom byte)) = chars.mapM toDigit := by
  induction chars with
  | nil => rfl
  | cons c rest ih =>
    rw [List.mapM_cons]
    rcases utf8EncodeChar_cases c with ⟨hc, -⟩ | ⟨hc, hNe, hAbove⟩
    · rw [utf8_cons_ascii hc, List.mapM_cons, ih, charFrom, asciiByte_toNat hc, Char.ofNat_toNat]
    · have hNone (c : Char) (hAbove : 128 ≤ c.toNat) : toDigit c = none := by
        unfold toDigit
        split_ifs <;> first | omega | rfl
      obtain ⟨byte, more, hBytes⟩ := List.exists_cons_of_ne_nil hNe
      have hByte : 128 ≤ (charFrom byte).toNat := by
        rw [charFrom_toNat]
        exact hAbove byte (hBytes ▸ List.mem_cons_self)
      rw [utf8_cons, hBytes, List.cons_append, List.mapM_cons, hNone _ hByte, hNone c hc]
      rfl

/-- Two texts spell the same bytes exactly when they differ in case only. -/
theorem Spells.iff_lowercase {a b : String} {bytes : Bytes} (h : Spells a bytes) :
    Spells b bytes ↔ (asBytes b).map toAsciiLowercase = (asBytes a).map toAsciiLowercase := by
  unfold Spells at h ⊢
  rw [← mapM_toDigit_utf8, ← asBytes] at h ⊢
  generalize asBytes a = a at h
  generalize asBytes b = b
  generalize nibbles bytes = digits at h ⊢
  have hAll := option_mapM_eq_some.mp h
  rw [option_mapM_eq_some]
  clear h
  induction hAll generalizing b with
  | nil =>
    rw [List.forall₂_nil_right_iff, List.map_nil, List.map_eq_nil_iff]
  | cons hDigit _ ih =>
    rw [List.forall₂_cons_right_iff]
    constructor
    · rintro ⟨byte, rest, hByte, hRest, rfl⟩
      rw [List.map_cons, List.map_cons, (toDigit_eq_toDigit hByte).mp hDigit, (ih rest).mp hRest]
    · intro hLower
      rw [List.map_cons, List.map_eq_cons_iff] at hLower
      obtain ⟨byte, rest, rfl, hByte, hRest⟩ := hLower
      exact ⟨byte, rest, (toDigit_eq_toDigit hDigit).mpr hByte.symm, (ih rest).mpr hRest, rfl⟩

theorem Spells.length {text : String} {bytes : Bytes} (h : Spells text bytes) :
    (asBytes text).length = 2 * bytes.length := by
  unfold Spells at h
  rw [← mapM_toDigit_utf8, ← asBytes] at h
  rw [(option_mapM_eq_some.mp h).length_eq, length_nibbles]

/-- Digits of either case fill the slice, and nothing else does. -/
def Documented (decodeToSlice : DecodeToSlice) : Prop :=
  ∀ {n : Nat} text (slice block : Block n),
    decodeToSlice text slice = some block ↔ Spells text block.val

/-- Pairs of digits. -/
def pairs : List Nat → Bytes
  | [] => []
  | [_] => []
  | hi :: lo :: rest => UInt8.ofNat (16 * hi + lo) :: pairs rest

def decodeToSlice : DecodeToSlice := fun {n} text _ => do
  let digits ← text.toList.mapM toDigit
  if h : digits.length % 2 = 0 ∧ (pairs digits).length = n then some ⟨pairs digits, h.2⟩ else none

theorem pairs_nibbles (bytes : Bytes) : pairs (nibbles bytes) = bytes := by
  induction bytes with
  | nil => rfl
  | cons byte rest ih =>
    have hByte : 16 * (byte.toNat / 16) + byte.toNat % 16 = byte.toNat := Nat.div_add_mod ..
    show UInt8.ofNat (16 * (byte.toNat / 16) + byte.toNat % 16) :: pairs (nibbles rest) = _
    rw [hByte, UInt8.ofNat_toNat, ih]

theorem nibbles_pairs {digits : List Nat} (hEven : digits.length % 2 = 0)
    (hDigits : ∀ digit ∈ digits, digit < 16) : nibbles (pairs digits) = digits := by
  obtain ⟨bytes, -, rfl⟩ := exists_nibbles (n := digits.length / 2) (by omega) hDigits
  rw [pairs_nibbles]

theorem decodeToSlice_documented : Documented decodeToSlice := by
  intro n text slice block
  refine Option.bind_eq_some_iff.trans ?_
  unfold Spells
  constructor
  · rintro ⟨digits, hDigits, h⟩
    split at h
    · next hSize =>
      cases h
      have hSmall : ∀ digit ∈ digits, digit < 16 := fun digit hMem => by
        obtain ⟨c, -, hDigit⟩ := forall₂_exists (option_mapM_eq_some.mp hDigits).flip hMem
        exact toDigit_lt hDigit
      rw [hDigits, nibbles_pairs hSize.1 hSmall]
    · cases h
  · intro h
    have hSize : (nibbles block.val).length % 2 = 0 ∧ (pairs (nibbles block.val)).length = n := by
      rw [length_nibbles, pairs_nibbles, block.length_val]
      exact ⟨by omega, rfl⟩
    refine ⟨_, h, ?_⟩
    rw [dif_pos hSize]
    exact congrArg some (Subtype.ext (pairs_nibbles _))

end Hex

end Cryptbox.Base

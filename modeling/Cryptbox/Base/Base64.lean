import Cryptbox.Base.Bytes
import Cryptbox.Base.Except
import Mathlib.Data.List.DropRight

/-!
# Base64

Three bytes are written as four digits below 64, most significant first, and one or two bytes at
the end as two or three digits. The strict reader takes no other spelling: no other characters,
no bits that do not count, and padding exactly where it is written.

* `decodeDigits_eq_some`: digits are read when they are what is written for the bytes.
* `Engine.decode_eq_some`: so is a text, over any alphabet, padded or not.
* `Engine.length_encode`: the length of a text.
-/

namespace Cryptbox.Base.Base64

/-! ## Digits -/

def encodeDigits : Bytes → List Nat
  | [] => []
  | [a] => [a.toNat / 4, a.toNat % 4 * 16]
  | [a, b] => [a.toNat / 4, a.toNat % 4 * 16 + b.toNat / 16, b.toNat % 16 * 4]
  | a :: b :: c :: rest =>
    [a.toNat / 4, a.toNat % 4 * 16 + b.toNat / 16, b.toNat % 16 * 4 + c.toNat / 64, c.toNat % 64]
      ++ encodeDigits rest

/-- The bits of the last digit that do not count are zero. -/
def decodeDigits : List Nat → Option Bytes
  | [] => some []
  | [_] => none
  | [w, x] => if x % 16 = 0 then some [UInt8.ofNat (w * 4 + x / 16)] else none
  | [w, x, y] =>
    if y % 4 = 0 then
      some [UInt8.ofNat (w * 4 + x / 16), UInt8.ofNat (x % 16 * 16 + y / 4)]
    else none
  | w :: x :: y :: z :: rest =>
    (decodeDigits rest).map fun bytes =>
      [UInt8.ofNat (w * 4 + x / 16), UInt8.ofNat (x % 16 * 16 + y / 4),
        UInt8.ofNat (y % 4 * 64 + z)] ++ bytes

theorem encodeDigits_lt (bytes : Bytes) : ∀ digit ∈ encodeDigits bytes, digit < 64 := by
  fun_induction encodeDigits bytes with
  | case1 => simp
  | case2 a =>
    have ha := a.toNat_lt
    simp only [List.forall_mem_cons, List.not_mem_nil, false_implies, implies_true, and_true]
    omega
  | case3 a b =>
    have ha := a.toNat_lt
    have hb := b.toNat_lt
    simp only [List.forall_mem_cons, List.not_mem_nil, false_implies, implies_true, and_true]
    omega
  | case4 a b c rest ih =>
    have ha := a.toNat_lt
    have hb := b.toNat_lt
    have hc := c.toNat_lt
    simp only [List.cons_append, List.nil_append, List.forall_mem_cons]
    exact ⟨by omega, by omega, by omega, by omega, ih⟩

theorem toNat_ofNat_byte {n : Nat} (h : n < 256) : (UInt8.ofNat n).toNat = n := by
  rw [UInt8.toNat_ofNat']
  exact Nat.mod_eq_of_lt h

/-- **What is written is read.** -/
theorem decodeDigits_encodeDigits (bytes : Bytes) :
    decodeDigits (encodeDigits bytes) = some bytes := by
  have hByte (a : UInt8) {n : Nat} (h : n = a.toNat) : UInt8.ofNat n = a := by
    rw [h, UInt8.ofNat_toNat]
  fun_induction encodeDigits bytes with
  | case1 => rfl
  | case2 a =>
    have ha := a.toNat_lt
    rw [decodeDigits, if_pos (by omega), hByte a (by omega)]
  | case3 a b =>
    have ha := a.toNat_lt
    have hb := b.toNat_lt
    rw [decodeDigits, if_pos (by omega), hByte a (by omega), hByte b (by omega)]
  | case4 a b c rest ih =>
    have ha := a.toNat_lt
    have hb := b.toNat_lt
    have hc := c.toNat_lt
    simp only [List.cons_append, List.nil_append, decodeDigits, ih, Option.map_some]
    rw [hByte a (by omega), hByte b (by omega), hByte c (by omega)]

/-- **Digits are read exactly when they are written** for the bytes. -/
theorem decodeDigits_eq_some {digits : List Nat} {bytes : Bytes}
    (hDigits : ∀ digit ∈ digits, digit < 64) :
    decodeDigits digits = some bytes ↔ digits = encodeDigits bytes := by
  constructor
  · intro h
    fun_induction decodeDigits digits generalizing bytes with
    | case1 =>
      cases h
      rfl
    | case2 => cases h
    | case3 w x hZero =>
      simp only [List.forall_mem_cons] at hDigits
      cases h
      simp (disch := omega) only [encodeDigits, toNat_ofNat_byte, List.cons.injEq, and_true]
      omega
    | case4 => cases h
    | case5 w x y hZero =>
      simp only [List.forall_mem_cons] at hDigits
      cases h
      simp (disch := omega) only [encodeDigits, toNat_ofNat_byte, List.cons.injEq, and_true]
      omega
    | case6 => cases h
    | case7 w x y z rest ih =>
      simp only [List.forall_mem_cons] at hDigits
      obtain ⟨hw, hx, hy, hz, hRest⟩ := hDigits
      obtain ⟨tail, hTail, rfl⟩ := Option.map_eq_some_iff.mp h
      have hDigits := ih hRest hTail
      simp (disch := omega) only [List.cons_append, List.nil_append, encodeDigits,
        toNat_ofNat_byte, List.cons.injEq, ← hDigits, and_true]
      omega
  · rintro rfl
    exact decodeDigits_encodeDigits bytes

/-! ## Lengths -/

/-- `base64::encoded_len`, without its overflow. -/
def encodedLen (length : Nat) (padded : Bool) : Nat :=
  length / 3 * 4 + if length % 3 = 0 then 0 else if padded then 4 else length % 3 + 1

theorem length_encodeDigits (bytes : Bytes) :
    (encodeDigits bytes).length = encodedLen bytes.length false := by
  unfold encodedLen
  fun_induction encodeDigits bytes with
  | case1 => rfl
  | case2 a => simp
  | case3 a b => simp
  | case4 a b c rest ih =>
    rw [List.length_append, ih]
    simp only [List.length_cons, List.length_nil, Bool.false_eq_true, if_false]
    split_ifs <;> omega

/-! ## Texts -/

/-- Sixty-four characters, none of them the padding. -/
structure Alphabet where
  chars : List Char
  length : chars.length = 64
  nodup : chars.Nodup
  noPadding : '=' ∉ chars

namespace Alphabet

def standard : Alphabet where
  chars := "ABCDEFGHIJKLMNOPQRSTUVWXYZabcdefghijklmnopqrstuvwxyz0123456789+/".toList
  length := by decide
  nodup := by decide
  noPadding := by decide

def urlSafe : Alphabet where
  chars := "ABCDEFGHIJKLMNOPQRSTUVWXYZabcdefghijklmnopqrstuvwxyz0123456789-_".toList
  length := by decide
  nodup := by decide
  noPadding := by decide

variable (alphabet : Alphabet)

def write (digit : Nat) : Char := alphabet.chars.getD digit '='

def read (c : Char) : Option Nat :=
  if c ∈ alphabet.chars then some (alphabet.chars.idxOf c) else none

variable {alphabet}

/-- A character is read as the digit that it is written for. -/
theorem read_eq_some {c : Char} {digit : Nat} :
    alphabet.read c = some digit ↔ digit < 64 ∧ c = alphabet.write digit := by
  unfold read write
  constructor
  · intro h
    split at h
    · next hMem =>
      cases h
      have hLt := List.idxOf_lt_length_iff.mpr hMem
      refine ⟨alphabet.length ▸ hLt, ?_⟩
      rw [← List.getElem_eq_getD (h := hLt), List.getElem_idxOf]
    · cases h
  · rintro ⟨hDigit, rfl⟩
    rw [← alphabet.length] at hDigit
    rw [← List.getElem_eq_getD (h := hDigit), if_pos (List.getElem_mem hDigit),
      alphabet.nodup.idxOf_getElem _ hDigit]

theorem write_ne_padding {digit : Nat} (h : digit < 64) : alphabet.write digit ≠ '=' := by
  rw [← alphabet.length] at h
  rw [write, ← List.getElem_eq_getD (h := h)]
  intro hPadding
  exact alphabet.noPadding (hPadding ▸ List.getElem_mem h)

end Alphabet

/-- What an engine writes and reads: the characters, and whether there is padding. -/
structure Engine where
  alphabet : Alphabet
  padded : Bool

namespace Engine

/-- The engines of the crate `base64`. -/
def standard : Engine := ⟨.standard, true⟩

def urlSafeNoPad : Engine := ⟨.urlSafe, false⟩

variable (e : Engine)

/-- The length of the padding after so many digits. -/
def padding (digits : Nat) : Nat := if e.padded then (4 - digits % 4) % 4 else 0

def encode (bytes : Bytes) : List Char :=
  let digits := encodeDigits bytes
  digits.map e.alphabet.write ++ List.replicate (e.padding digits.length) '='

def decode (text : List Char) : Option Bytes :=
  let digits := text.rdropWhile (· == '=')
  if text.length = digits.length + e.padding digits.length then
    (digits.mapM e.alphabet.read).bind decodeDigits
  else none

variable {e} {text : List Char} {bytes : Bytes} {digits : List Nat}

theorem length_encode : (e.encode bytes).length = encodedLen bytes.length e.padded := by
  unfold encode padding
  rw [List.length_append, List.length_map, List.length_replicate, length_encodeDigits]
  unfold encodedLen
  cases e.padded with
  | false => simp
  | true =>
    simp only [Bool.false_eq_true, if_false, if_true]
    split_ifs <;> omega

theorem mem_encode {c : Char} (h : c ∈ e.encode bytes) : c ∈ e.alphabet.chars ∨ c = '=' := by
  rcases List.mem_append.mp h with hMem | hMem
  · obtain ⟨digit, hDigit, rfl⟩ := List.mem_map.mp hMem
    have hLt := encodeDigits_lt bytes digit hDigit
    rw [← e.alphabet.length] at hLt
    refine Or.inl ?_
    rw [Alphabet.write, ← List.getElem_eq_getD (h := hLt)]
    exact List.getElem_mem hLt
  · exact Or.inr (List.mem_replicate.mp hMem).2

theorem ascii_encode (hAlphabet : ∀ c ∈ e.alphabet.chars, c.toNat < 128) {c : Char}
    (h : c ∈ e.encode bytes) : c.toNat < 128 := by
  rcases mem_encode h with hMem | rfl
  · exact hAlphabet c hMem
  · decide

theorem mapM_read : text.mapM e.alphabet.read = some digits ↔
    (∀ digit ∈ digits, digit < 64) ∧ text = digits.map e.alphabet.write := by
  rw [option_mapM_eq_some]
  constructor
  · intro h
    induction h with
    | nil => simp
    | cons hRead _ ih =>
      obtain ⟨hDigit, rfl⟩ := Alphabet.read_eq_some.mp hRead
      obtain ⟨hDigits, rfl⟩ := ih
      exact ⟨List.forall_mem_cons.mpr ⟨hDigit, hDigits⟩, rfl⟩
  · rintro ⟨hDigits, rfl⟩
    rw [List.forall₂_map_left_iff, List.forall₂_same]
    exact fun digit hMem => Alphabet.read_eq_some.mpr ⟨hDigits digit hMem, rfl⟩

/-- The padding ends where a digit stands. -/
theorem rdropWhile_encode (hDigits : ∀ digit ∈ digits, digit < 64) (count : Nat) :
    (digits.map e.alphabet.write ++ List.replicate count '=').rdropWhile (· == '=')
      = digits.map e.alphabet.write := by
  induction count with
  | zero =>
    rw [List.replicate_zero, List.append_nil, List.rdropWhile_eq_self_iff]
    intro hNonempty hLast
    obtain ⟨digit, hDigit, hWrite⟩ := List.mem_map.mp (List.getLast_mem hNonempty)
    rw [← hWrite] at hLast
    exact Alphabet.write_ne_padding (hDigits digit hDigit) (eq_of_beq hLast)
  | succ count ih =>
    rw [List.replicate_succ', ← List.append_assoc, List.rdropWhile_concat_pos _ _ _ rfl, ih]

/-- **A text is read exactly when it is what is written for the bytes.** -/
theorem decode_eq_some : e.decode text = some bytes ↔ text = e.encode bytes := by
  simp only [decode, encode]
  constructor
  · intro h
    split at h
    · next hLength =>
      obtain ⟨digits, hRead, hDecode⟩ := Option.bind_eq_some_iff.mp h
      obtain ⟨hDigits, hText⟩ := mapM_read.mp hRead
      obtain rfl := (decodeDigits_eq_some hDigits).mp hDecode
      have hSplit := List.rdropWhile_append_rtakeWhile (p := (· == '=')) (l := text)
      have hPadding : text.rtakeWhile (· == '=')
          = List.replicate (e.padding (encodeDigits bytes).length) '=' := by
        refine List.eq_replicate_iff.mpr ⟨?_, fun c hc => ?_⟩
        · have hCount := congrArg List.length hSplit
          rw [hText, List.length_map] at hLength
          rw [List.length_append, hText, List.length_map] at hCount
          omega
        · have hPad := List.mem_rtakeWhile_imp hc
          exact eq_of_beq hPad
      rw [← hSplit, hText, hPadding]
    · cases h
  · rintro rfl
    have hDigits := encodeDigits_lt bytes
    rw [rdropWhile_encode hDigits, if_pos (by simp), mapM_read.mpr ⟨hDigits, rfl⟩, Option.bind_some,
      decodeDigits_encodeDigits]

end Engine

example : Engine.urlSafeNoPad.decode "_-8".toList = some [255, 239] := by decide

example : Engine.urlSafeNoPad.decode "_-9".toList = none := by decide

end Cryptbox.Base.Base64

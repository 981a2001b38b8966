import Cryptbox.Base.Bytes
import Cryptbox.Base.Except
import Mathlib.Data.Nat.Digits.Defs

/-!
# Hexadecimal digits

Bytes are written as pairs of lowercase digits, and digits of either case are read, as numbers
below 16, most significant first.

* `toDigit_eq_toDigit`: two digits are read alike when they differ in case only.
* `value_eq_ofHex`: a number is read from its bytes as from their digits.
* `readHex_toDigits`: what is written in base 16 is read back, behind any number of zeros.
-/

namespace Cryptbox.Base

/-! ## Digits -/

/-- The two digits of a byte. -/
def hexByte (byte : UInt8) : List Char :=
  [Nat.digitChar (byte.toNat / 16), Nat.digitChar (byte.toNat % 16)]

def hexEncode (bytes : Bytes) : String := String.ofList (bytes.flatMap hexByte)

/-- `c.to_digit(16)`. -/
def toDigit (c : Char) : Option Nat :=
  if 48 ≤ c.toNat ∧ c.toNat ≤ 57 then some (c.toNat - 48)
  else if 97 ≤ c.toNat ∧ c.toNat ≤ 102 then some (c.toNat - 87)
  else if 65 ≤ c.toNat ∧ c.toNat ≤ 70 then some (c.toNat - 55)
  else none

theorem toDigit_lt {c : Char} {digit : Nat} (h : toDigit c = some digit) : digit < 16 := by
  unfold toDigit at h
  split_ifs at h <;> cases h <;> omega

theorem toDigit_digitChar {digit : Nat} (h : digit < 16) :
    toDigit (Nat.digitChar digit) = some digit := by
  have hAll : ∀ d < 16, toDigit (Nat.digitChar d) = some d := by decide
  exact hAll digit h

/-- `char::from(byte)`. -/
def charFrom (byte : UInt8) : Char := Char.ofNat byte.toNat

theorem charFrom_toNat (byte : UInt8) : (charFrom byte).toNat = byte.toNat := by
  have hByte : byte.toNat < 256 := byte.toNat_lt
  have hValid : byte.toNat.isValidChar := Or.inl (by omega)
  rw [charFrom, Char.ofNat, dif_pos hValid]
  rfl

/-- `byte.to_ascii_lowercase()`. -/
def toAsciiLowercase (byte : UInt8) : UInt8 :=
  if 65 ≤ byte.toNat ∧ byte.toNat ≤ 90 then byte + 32 else byte

theorem toAsciiLowercase_toNat (byte : UInt8) : (toAsciiLowercase byte).toNat =
    if 65 ≤ byte.toNat ∧ byte.toNat ≤ 90 then byte.toNat + 32 else byte.toNat := by
  unfold toAsciiLowercase
  split
  · have h32 : (32 : UInt8).toNat = 32 := rfl
    rw [UInt8.toNat_add, h32]
    omega
  · rfl

theorem toDigit_toAsciiLowercase (byte : UInt8) :
    toDigit (charFrom (toAsciiLowercase byte)) = toDigit (charFrom byte) := by
  unfold toDigit
  rw [charFrom_toNat, charFrom_toNat, toAsciiLowercase_toNat]
  by_cases hUpper : 65 ≤ byte.toNat ∧ byte.toNat ≤ 90
  · rw [if_pos hUpper]
    -- the letters above `F` are no digits in either case
    split_ifs <;> first | omega | exact congrArg some (by omega) | rfl
  · rw [if_neg hUpper]

/-- A digit has one lowercase form. -/
theorem toAsciiLowercase_of_toDigit {byte : UInt8} {digit : Nat}
    (h : toDigit (charFrom byte) = some digit) :
    (toAsciiLowercase byte).toNat = if digit < 10 then 48 + digit else 87 + digit := by
  unfold toDigit at h
  rw [charFrom_toNat] at h
  rw [toAsciiLowercase_toNat]
  split_ifs at h <;> cases h <;> split_ifs <;> omega

/-- **Digits are read alike** when they differ in case only. -/
theorem toDigit_eq_toDigit {a b : UInt8} {digit : Nat} (h : toDigit (charFrom a) = some digit) :
    toDigit (charFrom b) = some digit ↔ toAsciiLowercase a = toAsciiLowercase b := by
  constructor
  · intro h'
    rw [← UInt8.toNat_inj, toAsciiLowercase_of_toDigit h, toAsciiLowercase_of_toDigit h']
  · intro hLower
    rw [← toDigit_toAsciiLowercase, ← hLower, toDigit_toAsciiLowercase, h]

/-! ## Numbers -/

/-- The number that `digits` write, most significant first. -/
def ofHex (digits : List Nat) : Nat := Nat.ofDigits 16 digits.reverse

@[simp] theorem ofHex_nil : ofHex [] = 0 := rfl

theorem ofHex_concat (digits : List Nat) (digit : Nat) :
    ofHex (digits ++ [digit]) = 16 * ofHex digits + digit := by
  rw [ofHex, List.reverse_append, List.reverse_singleton, List.singleton_append, Nat.ofDigits_cons,
    Nat.add_comm]
  rfl

theorem ofHex_zeros (n : Nat) (digits : List Nat) :
    ofHex (List.replicate n 0 ++ digits) = ofHex digits := by
  rw [ofHex, List.reverse_append, List.reverse_replicate, Nat.ofDigits_append_replicate_zero, ofHex]

theorem ofHex_lt {digits : List Nat} (h : ∀ digit ∈ digits, digit < 16) :
    ofHex digits < 16 ^ digits.length := by
  have := Nat.ofDigits_lt_base_pow_length (b := 16) (l := digits.reverse) (by decide)
    fun digit hMem => h digit (List.mem_reverse.mp hMem)
  rwa [List.length_reverse] at this

/-! ## Bytes -/

/-- The digits of the bytes. -/
def nibbles (bytes : Bytes) : List Nat :=
  bytes.flatMap fun byte => [byte.toNat / 16, byte.toNat % 16]

theorem length_nibbles (bytes : Bytes) : (nibbles bytes).length = 2 * bytes.length := by
  simp [nibbles, List.length_flatMap, Nat.mul_comm]

theorem nibbles_lt {bytes : Bytes} {digit : Nat} (h : digit ∈ nibbles bytes) : digit < 16 := by
  obtain ⟨byte, -, hDigit⟩ := List.mem_flatMap.mp h
  have : byte.toNat < 256 := byte.toNat_lt
  rcases List.mem_pair.mp hDigit with rfl | rfl <;> omega

/-- Bytes are written with their digits. -/
theorem flatMap_hexByte (bytes : Bytes) :
    bytes.flatMap hexByte = (nibbles bytes).map Nat.digitChar := by
  rw [nibbles, List.map_flatMap]
  rfl

theorem nibbles_getElem? (bytes : Bytes) (i : Nat) :
    (nibbles bytes)[2 * i]? = bytes[i]?.map (·.toNat / 16) ∧
      (nibbles bytes)[2 * i + 1]? = bytes[i]?.map (·.toNat % 16) := by
  induction bytes generalizing i with
  | nil => exact ⟨rfl, rfl⟩
  | cons byte rest ih =>
    cases i with
    | zero => exact ⟨rfl, rfl⟩
    | succ i => exact ih i

/-- **A number** is read from its bytes as from their digits. -/
theorem value_eq_ofHex (bytes : Bytes) : value bytes = ofHex (nibbles bytes) := by
  induction bytes using List.reverseRecOn with
  | nil => rfl
  | append_singleton bytes byte ih =>
    have hDigits : nibbles (bytes ++ [byte]) =
        nibbles bytes ++ [byte.toNat / 16] ++ [byte.toNat % 16] := by
      simp [nibbles]
    have hValue : value (bytes ++ [byte]) = value bytes * 256 + byte.toNat := by
      simp [value]
    rw [hDigits, ofHex_concat, ofHex_concat, hValue, ih]
    omega

/-- Every even number of digits are the digits of some bytes. -/
theorem exists_nibbles {n : Nat} {digits : List Nat} (hLength : digits.length = 2 * n)
    (h : ∀ digit ∈ digits, digit < 16) : ∃ bytes : Bytes, bytes.length = n ∧ nibbles bytes = digits := by
  induction n generalizing digits with
  | zero => exact ⟨[], rfl, (List.length_eq_zero_iff.mp hLength).symm⟩
  | succ n ih =>
    match digits, hLength with
    | hi :: lo :: rest, hLength =>
      obtain ⟨hHi, hRest⟩ := List.forall_mem_cons.mp h
      obtain ⟨hLo, hRest⟩ := List.forall_mem_cons.mp hRest
      obtain ⟨bytes, hBytes, rfl⟩ := ih (by simpa [Nat.mul_succ] using hLength) hRest
      have hByte : (UInt8.ofNat (16 * hi + lo)).toNat = 16 * hi + lo := by
        rw [UInt8.toNat_ofNat']
        exact Nat.mod_eq_of_lt (by omega)
      have hHigh : (16 * hi + lo) / 16 = hi := by omega
      have hLow : (16 * hi + lo) % 16 = lo := by omega
      refine ⟨UInt8.ofNat (16 * hi + lo) :: bytes, congrArg (· + 1) hBytes, ?_⟩
      rw [nibbles, List.flatMap_cons, hByte, hHigh, hLow]
      rfl

theorem be_ofHex {n : Nat} {bytes : Bytes} (h : bytes.length = n) :
    be n (ofHex (nibbles bytes)) = bytes := by
  subst h
  rw [← value_eq_ofHex, be_value]

/-! ## Reading -/

/-- The number that the digits of a text write. -/
def readHex (chars : List Char) : Option Nat := (chars.mapM toDigit).map ofHex

theorem readHex_concat (chars : List Char) (c : Char) :
    readHex (chars ++ [c]) =
      (readHex chars).bind fun high => (toDigit c).map fun digit => 16 * high + digit := by
  unfold readHex
  rw [List.mapM_append, List.mapM_cons, List.mapM_nil]
  cases chars.mapM toDigit with
  | none => rfl
  | some digits =>
    cases toDigit c with
    | none => rfl
    | some digit => exact congrArg some (ofHex_concat digits digit)

/-- **What is written** in base 16 is read back. -/
theorem readHex_toDigits (n : Nat) : readHex (Nat.toDigits 16 n) = some n := by
  induction n using Nat.strongRecOn with
  | ind n ih =>
    rw [Nat.toDigits_eq_if (by decide)]
    split
    · next hSmall =>
      have := readHex_concat [] (Nat.digitChar n)
      rw [List.nil_append] at this
      rw [this, toDigit_digitChar hSmall]
      simp [readHex]
    · next hLarge =>
      rw [readHex_concat, ih (n / 16) (by omega), toDigit_digitChar (Nat.mod_lt n (by decide))]
      exact congrArg some (Nat.div_add_mod n 16)

theorem readHex_zeros (n : Nat) (chars : List Char) :
    readHex (List.replicate n '0' ++ chars) = readHex chars := by
  have hZeros : (List.replicate n '0').mapM toDigit = some (List.replicate n 0) := by
    induction n with
    | zero => rfl
    | succ n ih =>
      rw [List.replicate_succ, List.mapM_cons, ih]
      rfl
  unfold readHex
  rw [List.mapM_append, hZeros]
  cases chars.mapM toDigit with
  | none => rfl
  | some digits => exact congrArg some (ofHex_zeros n digits)

end Cryptbox.Base

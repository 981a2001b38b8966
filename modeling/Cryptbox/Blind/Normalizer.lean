import Cryptbox.Base.Text
import Cryptbox.Slice

/-!
# Normalizer names

A blind index names the normalizer it was derived with, `<name>/<version>`. The library checks a
name with loops over its bytes, at compile time in `blind.rs`; the derive crate checks the same
name with `rsplit_once` in `attr.rs`.

* `validNormalizer_eq`: the loops stay within the text and give the answer of the derive crate.
* `Derive.validNormalizer_iff`: the names that the derive crate accepts.
* `validNormalizer_agrees`: both accept exactly the versioned names.
-/

namespace Cryptbox

open Base

/-! ## The two checks -/

/-- Reports whether `name` is a versioned normalizer name, `<name>/<version>`:
a non-empty name, `/`, and a decimal version from 1 without leading zeros. -/
def validNormalizer (name : String) : Result Bool := do
  let bytes := asBytes name
  let slash ← scanBack (fun position => do return decide ((← index bytes position) = asciiByte '/'))
    bytes.length
  if slash = 0 then return false
  if (← index bytes slash) ≠ asciiByte '/' then return false
  if slash + 1 = bytes.length then return false
  if (← index bytes (slash + 1)) = asciiByte '0' then return false
  let other ← scan (fun position => do return !isAsciiDigit (← index bytes position)) (slash + 1)
    bytes.length
  return !other

/-- Reports whether `name` is a versioned normalizer name, in the derive crate. -/
def Derive.validNormalizer (name : String) : Bool :=
  match rsplitOnce '/' name.toList with
  | none => false
  | some (name, version) =>
    !name.isEmpty && !version.isEmpty && !(version.head? == some '0') &&
      (utf8 version).all isAsciiDigit

/-- `text` is `name`, a slash, which is the last one, and `version`, a decimal number from 1. -/
structure Versioned (text name version : String) : Prop where
  text_eq : text = name ++ "/" ++ version
  last : '/' ∉ version.toList
  name_ne : name ≠ ""
  version_ne : version ≠ ""
  digits : ∀ c ∈ version.toList, c.isDigit = true
  fromOne : version.toList.head? ≠ some '0'

/-! ## The loops over the bytes -/

/-- The loop from the end stops at the last separator, or at the start without one. -/
theorem scanBack_index (bytes : Bytes) (separator : UInt8) :
    scanBack (fun position => do return decide ((← index bytes position) = separator)) bytes.length =
      (.ok (match rsplitOnce separator bytes with
        | some (before, _) => before.length
        | none => 0) : Result Nat) := by
  obtain ⟨last, hScan, hLast⟩ := scanBack_spec fun position (hPosition : position < bytes.length) =>
    index_decides hPosition fun byte => decide (byte = separator)
  have hHit (i : Nat) :
      (∃ byte, bytes[i]? = some byte ∧ decide (byte = separator) = true) ↔
        bytes[i]? = some separator := by
    simp
  simp only [hHit] at hLast
  rw [hScan]
  congr 1
  rcases hLast with ⟨hLt, hByte, hAfter⟩ | ⟨rfl, hNone⟩
  · have hSplit : rsplitOnce separator bytes = some (bytes.take last, bytes.drop (last + 1)) := by
      refine rsplitOnce_eq_some.mpr ⟨?_, fun hMem => ?_⟩
      · obtain ⟨hLast, hGet⟩ := List.getElem?_eq_some_iff.mp hByte
        rw [← hGet, List.getElem_cons_drop, List.take_append_drop]
      · obtain ⟨i, hi, hGet⟩ := List.mem_iff_getElem.mp hMem
        rw [List.length_drop] at hi
        refine hAfter (last + 1 + i) (by omega) (by omega) ?_
        rw [List.getElem?_eq_getElem (by omega), ← hGet, List.getElem_drop]
    rw [hSplit]
    exact (List.length_take_of_le (Nat.le_of_lt hLt)).symm
  · have hNotMem : separator ∉ bytes := by
      intro hMem
      obtain ⟨i, hi, hGet⟩ := List.mem_iff_getElem.mp hMem
      exact hNone i hi (by rw [List.getElem?_eq_getElem hi, hGet])
    rw [rsplitOnce_of_not_mem hNotMem]

/-- The loop over the version finds whether a byte is no digit. -/
theorem scan_digits (before : Bytes) (separator : UInt8) (after : Bytes) :
    scan (fun position => do
        return !isAsciiDigit (← index (before ++ separator :: after) position)) (before.length + 1)
      (before ++ separator :: after).length =
      (.ok (!after.all isAsciiDigit) : Result Bool) := by
  have hScan := scan_decides fun position (_ : before.length + 1 ≤ position)
    (hPosition : position < (before ++ separator :: after).length) =>
      index_decides hPosition fun byte => !isAsciiDigit byte
  obtain ⟨other, hOther, hIff⟩ := hScan
  rw [hOther]
  congr 1
  rw [Bool.eq_iff_iff, hIff, Bool.not_eq_true', List.all_eq_false]
  have hAfter (i : Nat) : (before ++ separator :: after)[before.length + 1 + i]? = after[i]? := by
    rw [List.getElem?_append_right (by omega),
      show before.length + 1 + i - before.length = i + 1 by omega, List.getElem?_cons_succ]
  constructor
  · rintro ⟨position, hFrom, -, byte, hByte, hTest⟩
    obtain ⟨i, rfl⟩ := Nat.exists_eq_add_of_le hFrom
    rw [hAfter] at hByte
    exact ⟨byte, List.mem_of_getElem? hByte, by simpa using hTest⟩
  · rintro ⟨byte, hMem, hTest⟩
    obtain ⟨i, hi, hGet⟩ := List.mem_iff_getElem.mp hMem
    refine ⟨before.length + 1 + i, by omega, ?_, byte, ?_, by simpa using hTest⟩
    · rw [List.length_append, List.length_cons]
      omega
    · rw [hAfter, List.getElem?_eq_getElem hi, hGet]

/-! ## Agreement -/

/-- **The loops** stay within the text and give the answer of the derive crate. -/
theorem validNormalizer_eq (name : String) :
    validNormalizer name = .ok (Derive.validNormalizer name) := by
  have hSlash : ('/' : Char).toNat < 128 := by decide
  have hZero : ('0' : Char).toNat < 128 := by decide
  have hSplit := rsplitOnce_utf8 hSlash name.toList
  unfold validNormalizer Derive.validNormalizer
  simp only [scanBack_index, ok_bind]
  rw [asBytes, hSplit]
  cases hChars : rsplitOnce '/' name.toList with
  | none => rfl
  | some split =>
    obtain ⟨before, after⟩ := split
    obtain ⟨hText, -⟩ := rsplitOnce_eq_some.mp hChars
    simp only [Option.map_some]
    rw [hText, utf8_append, utf8_cons_ascii hSlash]
    have hAt : index (utf8 before ++ asciiByte '/' :: utf8 after) (utf8 before).length =
        .ok (asciiByte '/') := by
      rw [index_eq_ok, List.getElem?_append_right (Nat.le_refl _), Nat.sub_self]
      rfl
    rw [hAt, ok_bind, if_neg (not_not_intro rfl)]
    by_cases hName : before = []
    · subst hName
      rfl
    · have hNameBytes : (utf8 before).length ≠ 0 := by simpa using hName
      rw [if_neg hNameBytes]
      by_cases hVersion : after = []
      · subst hVersion
        simp
      · have hVersionBytes : utf8 after ≠ [] := by simpa using hVersion
        obtain ⟨first, more, hFirst⟩ := List.exists_cons_of_ne_nil hVersionBytes
        have hNext : index (utf8 before ++ asciiByte '/' :: utf8 after) ((utf8 before).length + 1) =
            .ok first := by
          rw [index_eq_ok, List.getElem?_append_right (by omega), Nat.add_sub_cancel_left, hFirst]
          rfl
        have hLeading : first = asciiByte '0' ↔ after.head? = some '0' := by
          rw [← head?_utf8_eq_ascii hZero, hFirst, List.head?_cons, Option.some_inj]
        have hNotLast : (utf8 before).length + 1 ≠
            (utf8 before ++ asciiByte '/' :: utf8 after).length := by
          rw [hFirst, List.length_append, List.length_cons, List.length_cons]
          omega
        rw [if_neg hNotLast, hNext, ok_bind, scan_digits, ok_bind]
        by_cases hZeroFirst : after.head? = some '0'
        · rw [if_pos (hLeading.mpr hZeroFirst)]
          simp [hZeroFirst]
        · rw [if_neg (hLeading.not.mpr hZeroFirst)]
          simp [hZeroFirst, hName, hVersion]

/-- **The derive crate** accepts the versioned names. -/
theorem Derive.validNormalizer_iff (text : String) :
    Derive.validNormalizer text = true ↔ ∃ name version, Versioned text name version := by
  unfold Derive.validNormalizer
  constructor
  · intro h
    split at h
    · cases h
    · next name version hSplit =>
      obtain ⟨hText, hLast⟩ := rsplitOnce_eq_some.mp hSplit
      simp only [Bool.and_eq_true, Bool.not_eq_true', List.isEmpty_eq_false_iff, beq_eq_false_iff_ne,
        List.all_eq_true] at h
      obtain ⟨⟨⟨hName, hVersion⟩, hFromOne⟩, hDigits⟩ := h
      refine ⟨String.ofList name, String.ofList version, ?_, ?_, ?_, ?_, ?_, ?_⟩
      · apply String.toList_injective
        simp [hText]
      · rwa [String.toList_ofList]
      · simpa using hName
      · simpa using hVersion
      · rw [String.toList_ofList]
        exact forall_isAsciiDigit_utf8.mp hDigits
      · rwa [String.toList_ofList]
  · rintro ⟨name, version, rfl, hLast, hName, hVersion, hDigits, hFromOne⟩
    have hSplit : rsplitOnce '/' (name ++ "/" ++ version).toList =
        some (name.toList, version.toList) := by
      refine rsplitOnce_eq_some.mpr ⟨?_, hLast⟩
      simp
    have hDigitBytes := forall_isAsciiDigit_utf8.mpr hDigits
    rw [hSplit]
    simp only [Bool.and_eq_true, Bool.not_eq_true', List.isEmpty_eq_false_iff, beq_eq_false_iff_ne,
      List.all_eq_true]
    exact ⟨⟨⟨by simpa using hName, by simpa using hVersion⟩, hFromOne⟩, hDigitBytes⟩

example : Derive.validNormalizer "a/b/3" = true ∧ Derive.validNormalizer "email/01" = false := by
  decide

/-- **Both checks** give the same answer, without an index out of range, and accept exactly the
versioned names. -/
theorem validNormalizer_agrees (text : String) :
    validNormalizer text = .ok (Derive.validNormalizer text) ∧
      (validNormalizer text = .ok true ↔ ∃ name version, Versioned text name version) ∧
      (Derive.validNormalizer text = true ↔ ∃ name version, Versioned text name version) := by
  have hEq := validNormalizer_eq text
  have hIff := Derive.validNormalizer_iff text
  refine ⟨hEq, ?_, hIff⟩
  rw [hEq, ← hIff, Except.ok.injEq]

end Cryptbox

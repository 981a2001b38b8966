import Cryptbox.Base.Bytes

/-!
# Text as bytes

The UTF-8 bytes of a text. An ASCII character is one byte, its own code, and the bytes of all
other characters lie above: what is looked for among the bytes by an ASCII code is found where
the character stands.

* `utf8EncodeChar_cases`: the bytes of one character.
* `ascii_mem_utf8`: an ASCII byte of a text is a character of it.
* `rsplitOnce_eq_some`: a list split at its last separator.
* `rsplitOnce_utf8`: a text and its bytes are split at the same place.
-/

namespace Cryptbox.Base

universe u

/-! ## Bytes of characters -/

/-- The UTF-8 bytes of a text. -/
def utf8 (chars : List Char) : Bytes := chars.flatMap String.utf8EncodeChar

/-- `text.as_bytes()`. -/
def asBytes (text : String) : Bytes := utf8 text.toList

/-- These are the bytes that a string is made of. -/
theorem asBytes_eq (text : String) : asBytes text = text.toByteArray.data.toList := by
  rw [← String.utf8Encode_toList]
  simp [asBytes, utf8, List.utf8Encode]

/-- `String::from_utf8`. -/
def fromUtf8 (bytes : Bytes) : Option String := String.fromUTF8? ⟨bytes.toArray⟩

@[simp] theorem fromUtf8_asBytes (text : String) : fromUtf8 (asBytes text) = some text := by
  have hBytes : (⟨(asBytes text).toArray⟩ : ByteArray) = text.toByteArray := by
    rw [asBytes_eq]
  unfold fromUtf8 String.fromUTF8?
  rw [hBytes, dif_pos text.isValidUTF8]
  rfl

/-- A character is its code, or bytes above every ASCII code. -/
theorem utf8EncodeChar_cases (c : Char) :
    (c.toNat < 128 ∧ String.utf8EncodeChar c = [UInt8.ofNat c.toNat]) ∨
      (128 ≤ c.toNat ∧ String.utf8EncodeChar c ≠ [] ∧
        ∀ byte ∈ String.utf8EncodeChar c, 128 ≤ byte.toNat) := by
  by_cases hAscii : c.toNat < 128
  · refine Or.inl ⟨hAscii, ?_⟩
    rw [String.utf8EncodeChar]
    exact if_pos (Nat.le_of_lt_succ hAscii)
  · refine Or.inr ⟨Nat.le_of_not_lt hAscii, String.utf8EncodeChar_ne_nil, ?_⟩
    have hAbove : ¬ c.val.toNat ≤ 0x7f := by
      show ¬ c.toNat ≤ 127
      omega
    have hByte (n : Nat) (hn : n % 256 ≥ 128) : 128 ≤ (UInt8.ofNat n).toNat := by
      rw [UInt8.toNat_ofNat']
      exact hn
    simp only [String.utf8EncodeChar, hAbove, if_false]
    split_ifs
    all_goals
      simp only [List.mem_cons, List.not_mem_nil, or_false]
      rintro byte hMem
      rcases hMem with rfl | rfl | rfl | rfl
    all_goals exact hByte _ (by omega)

/-- The byte of an ASCII character. -/
def asciiByte (c : Char) : UInt8 := UInt8.ofNat c.toNat

theorem asciiByte_toNat {c : Char} (hc : c.toNat < 128) : (asciiByte c).toNat = c.toNat := by
  rw [asciiByte, UInt8.toNat_ofNat']
  exact Nat.mod_eq_of_lt (by omega)

theorem asciiByte_inj {c d : Char} (hc : c.toNat < 128) (hd : d.toNat < 128) :
    asciiByte c = asciiByte d ↔ c = d := by
  rw [← UInt8.toNat_inj, asciiByte_toNat hc, asciiByte_toNat hd]
  exact Char.toNat_inj

theorem ascii_mem_utf8EncodeChar {c d : Char} (hc : c.toNat < 128) :
    asciiByte c ∈ String.utf8EncodeChar d ↔ c = d := by
  rcases utf8EncodeChar_cases d with ⟨hd, hEncode⟩ | ⟨hd, -, hAbove⟩
  · rw [hEncode, List.mem_singleton]
    exact asciiByte_inj hc hd
  · refine iff_of_false (fun hMem => ?_) ?_
    · have := hAbove _ hMem
      rw [asciiByte_toNat hc] at this
      omega
    · rintro rfl
      omega

/-! ## Bytes of texts -/

@[simp] theorem utf8_nil : utf8 [] = [] := rfl

theorem utf8_cons (c : Char) (chars : List Char) :
    utf8 (c :: chars) = String.utf8EncodeChar c ++ utf8 chars := rfl

theorem utf8_append (before after : List Char) :
    utf8 (before ++ after) = utf8 before ++ utf8 after := by
  rw [utf8, utf8, utf8, List.flatMap_append]

theorem utf8_cons_ascii {c : Char} (hc : c.toNat < 128) (chars : List Char) :
    utf8 (c :: chars) = asciiByte c :: utf8 chars := by
  rcases utf8EncodeChar_cases c with ⟨-, hEncode⟩ | ⟨hNot, -⟩
  · rw [utf8_cons, hEncode]
    rfl
  · omega

theorem utf8_eq_map {chars : List Char} (h : ∀ c ∈ chars, c.toNat < 128) :
    utf8 chars = chars.map asciiByte := by
  induction chars with
  | nil => rfl
  | cons c rest ih =>
    obtain ⟨hc, hRest⟩ := List.forall_mem_cons.mp h
    rw [utf8_cons_ascii hc, ih hRest, List.map_cons]

@[simp] theorem utf8_eq_nil {chars : List Char} : utf8 chars = [] ↔ chars = [] := by
  cases chars with
  | nil => simp
  | cons c rest => simp [utf8_cons, String.utf8EncodeChar_ne_nil]

/-- **An ASCII byte** of a text is a character of it. -/
theorem ascii_mem_utf8 {c : Char} (hc : c.toNat < 128) {chars : List Char} :
    asciiByte c ∈ utf8 chars ↔ c ∈ chars := by
  rw [utf8, List.mem_flatMap]
  simp only [ascii_mem_utf8EncodeChar hc]
  exact exists_eq_right'

/-- A text starts with an ASCII character if its bytes start with the byte of it. -/
theorem head?_utf8_eq_ascii {c : Char} (hc : c.toNat < 128) {chars : List Char} :
    (utf8 chars).head? = some (asciiByte c) ↔ chars.head? = some c := by
  cases chars with
  | nil => simp
  | cons d rest =>
    rcases utf8EncodeChar_cases d with ⟨hd, -⟩ | ⟨hd, hNe, hAbove⟩
    · rw [utf8_cons_ascii hd, List.head?_cons, List.head?_cons, Option.some_inj, Option.some_inj]
      exact asciiByte_inj hd hc
    · obtain ⟨byte, more, hBytes⟩ := List.exists_cons_of_ne_nil hNe
      rw [utf8_cons, hBytes, List.cons_append, List.head?_cons, List.head?_cons, Option.some_inj,
        Option.some_inj]
      refine iff_of_false (fun hByte => ?_) ?_
      · have := hAbove byte (hBytes ▸ List.mem_cons_self)
        rw [hByte, asciiByte_toNat hc] at this
        omega
      · rintro rfl
        omega

/-- `byte.is_ascii_digit()`. -/
def isAsciiDigit (byte : UInt8) : Bool := 48 ≤ byte.toNat && byte.toNat ≤ 57

/-- The bytes of a text are digits exactly when its characters are. -/
theorem forall_isAsciiDigit_utf8 {chars : List Char} :
    (∀ byte ∈ utf8 chars, isAsciiDigit byte = true) ↔ ∀ c ∈ chars, c.isDigit = true := by
  have hDigit (c : Char) :
      (∀ byte ∈ String.utf8EncodeChar c, isAsciiDigit byte = true) ↔ c.isDigit = true := by
    have hIsDigit : c.isDigit = true ↔ 48 ≤ c.toNat ∧ c.toNat ≤ 57 := by
      simp [Char.isDigit, UInt32.le_iff_toNat_le]
    rcases utf8EncodeChar_cases c with ⟨hc, hEncode⟩ | ⟨hc, hNe, hAbove⟩
    · rw [hEncode, List.forall_mem_singleton, hIsDigit, isAsciiDigit, ← asciiByte,
        asciiByte_toNat hc, Bool.and_eq_true, decide_eq_true_iff, decide_eq_true_iff]
    · refine iff_of_false (fun hAll => ?_) ?_
      · obtain ⟨byte, hByte⟩ := List.exists_mem_of_ne_nil _ hNe
        have hLow := hAll byte hByte
        have hHigh := hAbove byte hByte
        rw [isAsciiDigit, Bool.and_eq_true, decide_eq_true_iff, decide_eq_true_iff] at hLow
        omega
      · rw [hIsDigit]
        omega
  rw [utf8, List.forall_mem_flatMap]
  simp only [hDigit]

/-! ## Splitting at the last separator -/

/-- `text.rsplit_once(separator)`. -/
def rsplitOnce {α : Type u} [DecidableEq α] (separator : α) : List α → Option (List α × List α)
  | [] => none
  | a :: rest =>
    match rsplitOnce separator rest with
    | some (before, after) => some (a :: before, after)
    | none => if a = separator then some ([], rest) else none

section

variable {α : Type u} [DecidableEq α] {separator : α}

theorem rsplitOnce_of_not_mem {items : List α} (h : separator ∉ items) :
    rsplitOnce separator items = none := by
  induction items with
  | nil => rfl
  | cons a rest ih =>
    obtain ⟨hNe, hRest⟩ := not_or.mp (fun hOr => h (List.mem_cons.mpr hOr))
    rw [rsplitOnce, ih hRest]
    exact if_neg (Ne.symm hNe)

theorem rsplitOnce_append (before : List α) {after : List α} (h : separator ∉ after) :
    rsplitOnce separator (before ++ separator :: after) = some (before, after) := by
  induction before with
  | nil =>
    rw [List.nil_append, rsplitOnce, rsplitOnce_of_not_mem h]
    exact if_pos rfl
  | cons a rest ih => rw [List.cons_append, rsplitOnce, ih]

/-- A separator that occurs has a last place. -/
theorem exists_last {items : List α} (h : separator ∈ items) :
    ∃ before after, items = before ++ separator :: after ∧ separator ∉ after := by
  induction items with
  | nil => cases h
  | cons a rest ih =>
    by_cases hRest : separator ∈ rest
    · obtain ⟨before, after, rfl, hAfter⟩ := ih hRest
      exact ⟨a :: before, after, rfl, hAfter⟩
    · obtain rfl : separator = a := (List.mem_cons.mp h).resolve_right hRest
      exact ⟨[], rest, rfl, hRest⟩

/-- **The last separator** is where the list is split. -/
theorem rsplitOnce_eq_some {items before after : List α} :
    rsplitOnce separator items = some (before, after) ↔
      items = before ++ separator :: after ∧ separator ∉ after := by
  constructor
  · intro h
    by_cases hMem : separator ∈ items
    · obtain ⟨before', after', rfl, hAfter⟩ := exists_last hMem
      rw [rsplitOnce_append before' hAfter] at h
      cases h
      exact ⟨rfl, hAfter⟩
    · rw [rsplitOnce_of_not_mem hMem] at h
      cases h
  · rintro ⟨rfl, hAfter⟩
    exact rsplitOnce_append before hAfter

end

/-- **A text and its bytes** are split at the same place. -/
theorem rsplitOnce_utf8 {c : Char} (hc : c.toNat < 128) (chars : List Char) :
    rsplitOnce (asciiByte c) (utf8 chars) =
      (rsplitOnce c chars).map fun split => (utf8 split.1, utf8 split.2) := by
  by_cases hMem : c ∈ chars
  · obtain ⟨before, after, rfl, hAfter⟩ := exists_last hMem
    have hBytes : asciiByte c ∉ utf8 after := (ascii_mem_utf8 hc).not.mpr hAfter
    rw [rsplitOnce_append before hAfter, utf8_append, utf8_cons_ascii hc,
      rsplitOnce_append (utf8 before) hBytes]
    rfl
  · rw [rsplitOnce_of_not_mem hMem, rsplitOnce_of_not_mem ((ascii_mem_utf8 hc).not.mpr hMem)]
    rfl

end Cryptbox.Base

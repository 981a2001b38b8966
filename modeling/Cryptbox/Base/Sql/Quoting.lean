import Mathlib.Data.List.Forall2
import Cryptbox.Base.Sql.Lexer

/-!
# Quoted identifiers and placeholders

A quoted identifier is read from its first double quote to the first one that is not doubled.
The placeholders of a text are those outside its quoted identifiers, with their own texts.

* `lexIdentifier_reads`: what is read here is what the lexer of a statement reads.
* `Issues`: the placeholders of a piece of text, wherever it stands.
* `Issues.append`, `Issues.intercalate`: pieces are put together.
-/

namespace Cryptbox.Base.Sql

/-! ## Quoted identifiers -/

/-- A quoted identifier after its first double quote, and the text that follows it. -/
def lexQuoted : List Char → Option (List Char × List Char)
  | [] => none
  | '\x22' :: '\x22' :: rest => (lexQuoted rest).map fun (name, after) => ('\x22' :: name, after)
  | '\x22' :: rest => some ([], rest)
  | c :: rest => (lexQuoted rest).map fun (name, after) => (c :: name, after)

/-- Reads a quoted identifier at the start of a text; the rest of the text follows it. -/
def lexIdentifier : List Char → Option (String × List Char)
  | '\x22' :: rest => (lexQuoted rest).map fun (name, after) => (String.ofList name, after)
  | _ => none

theorem lexQuoted_double (rest : List Char) : lexQuoted ('\x22' :: '\x22' :: rest) =
    (lexQuoted rest).map fun (name, after) => ('\x22' :: name, after) := by
  rw [lexQuoted]

theorem lexQuoted_close {rest : List Char} (h : rest.head? ≠ some '\x22') :
    lexQuoted ('\x22' :: rest) = some ([], rest) := by
  rw [lexQuoted]
  rintro after rfl
  exact h rfl

theorem lexQuoted_other {c : Char} (hc : c ≠ '\x22') (rest : List Char) :
    lexQuoted (c :: rest) = (lexQuoted rest).map fun (name, after) => (c :: name, after) := by
  rw [lexQuoted]
  · exact fun _ hChar _ => hc hChar
  · exact hc

/-- The lexer of a statement reads the identifier from the same characters. -/
theorem lexQuoted_reads {text name rest : List Char} (h : lexQuoted text = some (name, rest)) :
    ∃ quoted, text = quoted ++ rest ∧ ∀ before count read,
      quoted.foldl Lexer.step ⟨before, .quoted read, count⟩ =
        ⟨before, .quote (name.reverse ++ read), count⟩ := by
  induction text using lexQuoted.induct generalizing name rest with
  | case1 => cases h
  | case2 text ih =>
    rw [lexQuoted_double] at h
    obtain ⟨⟨inner, after⟩, hInner, hEq⟩ := Option.map_eq_some_iff.mp h
    cases hEq
    obtain ⟨quoted, rfl, hFold⟩ := ih hInner
    refine ⟨'\x22' :: '\x22' :: quoted, rfl, fun before count read => ?_⟩
    rw [List.reverse_cons, List.append_assoc]
    exact hFold before count ('\x22' :: read)
  | case3 text hNext =>
    have hHead : text.head? ≠ some '\x22' := by
      cases text with
      | nil => simp
      | cons c after =>
        intro hQuote
        exact hNext after (by rw [Option.some.inj hQuote])
    rw [lexQuoted_close hHead] at h
    cases h
    exact ⟨['\x22'], rfl, fun _ _ _ => rfl⟩
  | case4 c text hDouble hOther ih =>
    have hc : c ≠ '\x22' := fun hQuote => hOther hQuote
    rw [lexQuoted_other hc] at h
    obtain ⟨⟨inner, after⟩, hInner, hEq⟩ := Option.map_eq_some_iff.mp h
    cases hEq
    obtain ⟨quoted, rfl, hFold⟩ := ih hInner
    refine ⟨c :: quoted, rfl, fun before count read => ?_⟩
    have hStep : Lexer.step ⟨before, .quoted read, count⟩ c =
        ⟨before, .quoted (c :: read), count⟩ := if_neg hc
    rw [List.foldl_cons, hStep, hFold, List.reverse_cons, List.append_assoc]
    rfl

/-- **What is read** is one token of a statement. -/
theorem lexIdentifier_reads {text rest : List Char} {name : String}
    (h : lexIdentifier text = some (name, rest)) :
    ∃ quoted, text = quoted ++ rest ∧
      ∀ count, Ends count (String.ofList quoted) [.identifier name] count := by
  unfold lexIdentifier at h
  split at h
  · next text =>
    obtain ⟨⟨chars, after⟩, hQuoted, hEq⟩ := Option.map_eq_some_iff.mp h
    cases hEq
    obtain ⟨quoted, rfl, hFold⟩ := lexQuoted_reads hQuoted
    refine ⟨'\x22' :: quoted, rfl, fun count before => ?_⟩
    have hOpen : Lexer.step ⟨before, .idle, count⟩ '\x22' =
        ⟨before, .quoted [], count⟩ := rfl
    rw [after, String.toList_ofList, List.foldl_cons, hOpen, hFold, List.append_nil]
    refine ⟨?_, ?_⟩
    · intro chars hMode
      cases hMode
    · simp [Lexer.flush]
  · cases h

/-! ## Placeholders -/

/-- The placeholders of a text, in its order; `quoted` says that it starts inside a quoted
identifier, which a double quote ends, and another one after it enters again. -/
def placeholderTexts (quoted : Bool) : List Char → List String
  | [] => []
  | c :: rest =>
    if c = '\x22' then placeholderTexts (!quoted) rest
    else if quoted then placeholderTexts quoted rest
    else if c = '?' then "?" :: placeholderTexts quoted rest
    else if c = '$' then
      String.ofList ('$' :: rest.takeWhile Char.isDigit) :: placeholderTexts quoted rest
    else placeholderTexts quoted rest

/-- No digit that would go on a number before the text. -/
def NoDigit (text : List Char) : Prop := text.head?.any Char.isDigit = false

/-- The placeholders of a piece of text outside quoted identifiers are `params`, whatever
follows. -/
structure Issues (text : String) (params : List String) : Prop where
  noDigit : NoDigit text.toList
  texts_append : ∀ rest, NoDigit rest →
    placeholderTexts false (text.toList ++ rest) = params ++ placeholderTexts false rest

theorem NoDigit.append {text rest : List Char} (h : NoDigit text) (hRest : NoDigit rest) :
    NoDigit (text ++ rest) := by
  cases text with
  | nil => exact hRest
  | cons c text => exact h

theorem noDigit_nil : NoDigit [] := rfl

theorem noDigit_cons {c : Char} (hc : c.isDigit = false) (text : List Char) : NoDigit (c :: text) :=
  hc

/-- A character that neither quotes nor starts a placeholder. -/
def isPlain (c : Char) : Bool := c ≠ '\x22' && c ≠ '?' && c ≠ '$'

/-- A text without quotes and placeholders, that does not go on a number. -/
def isPlainText (text : String) : Bool :=
  text.toList.all isPlain && !text.toList.head?.any Char.isDigit

theorem placeholderTexts_plain {chars : List Char} (h : ∀ c ∈ chars, isPlain c = true)
    (rest : List Char) : placeholderTexts false (chars ++ rest) = placeholderTexts false rest := by
  induction chars with
  | nil => rfl
  | cons c chars ih =>
    obtain ⟨hc, hChars⟩ := List.forall_mem_cons.mp h
    simp only [isPlain, Bool.and_eq_true, decide_eq_true_iff] at hc
    obtain ⟨⟨hQuote, hQuestion⟩, hDollar⟩ := hc
    rw [List.cons_append, placeholderTexts, if_neg hQuote, if_neg Bool.false_ne_true,
      if_neg hQuestion, if_neg hDollar, ih hChars]

namespace Issues

variable {text text' : String} {params params' : List String}

/-- A text without placeholders. -/
theorem plain (h : isPlainText text = true) : Issues text [] := by
  obtain ⟨hChars, hDigit⟩ := Bool.and_eq_true_iff.mp h
  constructor
  · exact Bool.not_eq_eq_eq_not.mp hDigit
  · intro rest _
    exact placeholderTexts_plain (List.all_eq_true.mp hChars) rest

/-- **Pieces** are put together. -/
theorem append (h : Issues text params) (h' : Issues text' params') :
    Issues (text ++ text') (params ++ params') where
  noDigit := by
    rw [String.toList_append]
    exact h.noDigit.append h'.noDigit
  texts_append := by
    intro rest hRest
    rw [String.toList_append, List.append_assoc, h.texts_append _ (h'.noDigit.append hRest),
      h'.texts_append rest hRest, List.append_assoc]

/-- The items of a list, between separators. -/
theorem intercalate {separator : String} (hSeparator : Issues separator []) {texts : List String}
    {items : List (List String)} (h : List.Forall₂ Issues texts items) :
    Issues (separator.intercalate texts) items.flatten := by
  induction h with
  | nil =>
    rw [String.intercalate_nil]
    exact .plain rfl
  | cons head tail ih =>
    cases tail with
    | nil =>
      rw [String.intercalate_singleton, List.flatten_cons, List.flatten_nil, List.append_nil]
      exact head
    | cons head' tail' =>
      rw [String.intercalate_cons_cons, List.flatten_cons]
      have hRest := (head.append hSeparator).append ih
      rwa [List.append_nil] at hRest

theorem placeholderTexts_eq (h : Issues text params) :
    placeholderTexts false text.toList = params := by
  have hEnd := h.texts_append [] noDigit_nil
  rwa [List.append_nil, placeholderTexts, List.append_nil] at hEnd

end Issues

theorem issues_question : Issues "?" ["?"] where
  noDigit := noDigit_cons rfl []
  texts_append := fun _ _ => rfl

theorem issues_dollar (number : Nat) : Issues ("$" ++ number.repr) ["$" ++ number.repr] where
  noDigit := by
    rw [String.toList_append]
    exact noDigit_cons rfl number.repr.toList
  texts_append := by
    intro rest hRest
    have hDigits : ∀ c ∈ number.repr.toList, c.isDigit = true := by
      intro c hc
      rw [Nat.toList_repr] at hc
      exact Nat.isDigit_of_mem_toDigits (by omega) (by omega) hc
    have hPlain : ∀ c ∈ number.repr.toList, isPlain c = true := by
      intro c hc
      have hDigit := hDigits c hc
      rw [isPlain, Bool.and_eq_true, Bool.and_eq_true, decide_eq_true_iff, decide_eq_true_iff,
        decide_eq_true_iff]
      refine ⟨⟨?_, ?_⟩, ?_⟩ <;> rintro rfl <;> cases hDigit
    have hWhile : (number.repr.toList ++ rest).takeWhile Char.isDigit = number.repr.toList := by
      rw [List.takeWhile_append_of_pos hDigits, List.append_right_eq_self]
      cases rest with
      | nil => rfl
      | cons c rest => exact List.takeWhile_cons_of_neg (Bool.not_eq_true _ ▸ hRest)
    have hText : String.ofList ('$' :: number.repr.toList) = "$" ++ number.repr := by
      apply String.toList_injective
      rw [String.toList_ofList, String.toList_append]
      rfl
    rw [String.toList_append, List.append_assoc]
    show String.ofList ('$' :: (number.repr.toList ++ rest).takeWhile Char.isDigit)
      :: placeholderTexts false (number.repr.toList ++ rest) = _
    rw [hWhile, hText, placeholderTexts_plain hPlain]
    rfl

end Cryptbox.Base.Sql

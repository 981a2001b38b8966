import Mathlib.Tactic.Common

/-!
# The tokens of an SQL statement

A lexer for the part of SQL that is made of words, quoted identifiers, placeholders and single
symbols. It is a fold over the characters, so that the tokens of a text are put together from
those of its pieces. Placeholders are `$n`, or `?` for the number after the largest so far.

* `Reads`, `Ends`: the tokens of a piece of text, and how the placeholders are numbered in it.
* `Reads.append`, `Ends.append`: pieces are put together between two tokens.
* `Items.intercalate`: so are the items of a list.
-/

namespace Cryptbox.Base.Sql

inductive Token where
  | word (text : String)
  | identifier (name : String)
  | param (number : Nat)
  | symbol (c : Char)
  deriving DecidableEq, Repr

/-- What the lexer is in the middle of; characters stand last first. -/
inductive Mode where
  | idle
  | word (chars : List Char)
  | quoted (chars : List Char)
  /-- After a double quote in an identifier: its end, or the first of two. -/
  | quote (chars : List Char)
  | param (number : Nat)
  deriving DecidableEq

structure Lexer where
  /-- The tokens so far, last first. -/
  tokens : List Token
  mode : Mode
  /-- The largest number of a placeholder so far. -/
  count : Nat
  deriving DecidableEq

def isWordChar (c : Char) : Bool := c.isAlphanum || c == '_'

namespace Lexer

/-- Ends the token that the lexer is in the middle of. -/
def flush (l : Lexer) : Lexer :=
  match l.mode with
  | .idle => l
  | .word chars => ⟨.word (String.ofList chars.reverse) :: l.tokens, .idle, l.count⟩
  | .quote chars => ⟨.identifier (String.ofList chars.reverse) :: l.tokens, .idle, l.count⟩
  | .param number => ⟨.param number :: l.tokens, .idle, max l.count number⟩
  | .quoted _ => l

/-- The first character of a token. -/
def begin (l : Lexer) (c : Char) : Lexer :=
  if c = ' ' then l
  else if c = '\x22' then { l with mode := .quoted [] }
  else if c = '?' then ⟨.param (l.count + 1) :: l.tokens, .idle, l.count + 1⟩
  else if c = '$' then { l with mode := .param 0 }
  else if isWordChar c then { l with mode := .word [c] }
  else { l with tokens := .symbol c :: l.tokens }

def step (l : Lexer) (c : Char) : Lexer :=
  match l.mode with
  | .idle => l.begin c
  | .word chars => if isWordChar c then { l with mode := .word (c :: chars) } else l.flush.begin c
  | .quoted chars =>
    if c = '\x22' then { l with mode := .quote chars } else { l with mode := .quoted (c :: chars) }
  | .quote chars =>
    if c = '\x22' then { l with mode := .quoted (c :: chars) } else l.flush.begin c
  | .param number =>
    if c.isDigit then { l with mode := .param (10 * number + (c.toNat - '0'.toNat)) }
    else l.flush.begin c

/-- The lexer is not inside a quoted identifier. -/
def Closed (l : Lexer) : Prop := ∀ chars, l.mode ≠ .quoted chars

/-- The lexer with other tokens before its own. -/
def push (l : Lexer) (before : List Token) : Lexer := { l with tokens := l.tokens ++ before }

theorem begin_push (l : Lexer) (before : List Token) (c : Char) :
    (l.push before).begin c = (l.begin c).push before := by
  unfold begin
  split_ifs <;> rfl

/-- What the lexer does does not depend on the tokens that it has. -/
theorem step_push (l : Lexer) (before : List Token) (c : Char) :
    (l.push before).step c = (l.step c).push before := by
  obtain ⟨tokens, mode, count⟩ := l
  cases mode with
  | idle => exact begin_push ..
  | word chars =>
    simp only [step, push]
    split
    · rfl
    · exact begin_push ⟨.word (String.ofList chars.reverse) :: tokens, .idle, count⟩ before c
  | quoted chars =>
    simp only [step, push]
    split <;> rfl
  | quote chars =>
    simp only [step, push]
    split
    · rfl
    · exact begin_push ⟨.identifier (String.ofList chars.reverse) :: tokens, .idle, count⟩ before c
  | param number =>
    simp only [step, push]
    split
    · rfl
    · exact begin_push ⟨.param number :: tokens, .idle, max count number⟩ before c

end Lexer

/-- The tokens of a text, unless an identifier in it has no end. -/
def lex (text : String) : Option (List Token) :=
  let l := text.toList.foldl Lexer.step ⟨[], .idle, 0⟩
  match l.mode with
  | .quoted _ => none
  | _ => some l.flush.tokens.reverse

/-! ## Pieces of text -/

/-- The lexer after a piece of text that it comes to between two tokens. -/
def after (count : Nat) (text : String) (before : List Token) : Lexer :=
  text.toList.foldl Lexer.step ⟨before, .idle, count⟩

/-- Between two tokens, the lexer reads `tokens` from `text` and stands between two tokens again.
The largest number of a placeholder goes from `count` to `count'`. -/
def Reads (count : Nat) (text : String) (tokens : List Token) (count' : Nat) : Prop :=
  ∀ before, after count text before = ⟨tokens.reverse ++ before, .idle, count'⟩

/-- Between two tokens, the lexer reads `tokens` from `text`, and may still be in the last one. -/
def Ends (count : Nat) (text : String) (tokens : List Token) (count' : Nat) : Prop :=
  ∀ before, (after count text before).Closed ∧
    (after count text before).flush = ⟨tokens.reverse ++ before, .idle, count'⟩

/-- The text starts with a character that ends whatever token stands before it. -/
def Breaks (text : String) : Prop :=
  ∃ c rest, text.toList = c :: rest ∧ isWordChar c = false ∧ c ≠ '\x22'

theorem after_push (count : Nat) (text : String) (before : List Token) :
    after count text before = (after count text []).push before := by
  have hFold (chars : List Char) (l : Lexer) :
      chars.foldl Lexer.step (l.push before) = (chars.foldl Lexer.step l).push before := by
    induction chars generalizing l with
    | nil => rfl
    | cons c chars ih => rw [List.foldl_cons, List.foldl_cons, Lexer.step_push, ih]
  exact hFold text.toList ⟨[], .idle, count⟩

/-- A literal piece of text is read by evaluation. -/
theorem Reads.literal {count count' : Nat} {text : String} {tokens : List Token}
    (h : after count text [] = ⟨tokens.reverse, .idle, count'⟩) :
    Reads count text tokens count' := by
  intro before
  rw [after_push, h]
  rfl

instance (l : Lexer) : Decidable l.Closed :=
  match hMode : l.mode with
  | .quoted chars => isFalse fun h => h chars hMode
  | .idle => isTrue fun _ h => by rw [hMode] at h; cases h
  | .word _ => isTrue fun _ h => by rw [hMode] at h; cases h
  | .quote _ => isTrue fun _ h => by rw [hMode] at h; cases h
  | .param _ => isTrue fun _ h => by rw [hMode] at h; cases h

theorem Ends.literal {count count' : Nat} {text : String} {tokens : List Token}
    (hClosed : (after count text []).Closed)
    (hFlush : (after count text []).flush = ⟨tokens.reverse, .idle, count'⟩) :
    Ends count text tokens count' := by
  intro before
  rw [after_push]
  refine ⟨hClosed, ?_⟩
  generalize after count text [] = l at hClosed hFlush
  obtain ⟨read, mode, number⟩ := l
  cases mode with
  | quoted chars => exact absurd rfl (hClosed chars)
  | idle =>
    cases hFlush
    rfl
  | word chars => exact congrArg (·.push before) hFlush
  | quote chars => exact congrArg (·.push before) hFlush
  | param value => exact congrArg (·.push before) hFlush

theorem Breaks.space {text : String} {rest : List Char} (h : text.toList = ' ' :: rest) :
    Breaks text :=
  ⟨' ', rest, h, rfl, by decide⟩

section

variable {count count' count'' : Nat} {text text' : String} {tokens tokens' : List Token}
  {c : Char} {l : Lexer}

theorem Lexer.step_break (hClosed : l.Closed) (hWord : isWordChar c = false)
    (hQuote : c ≠ '\x22') : l.step c = l.flush.step c := by
  have hDigit : c.isDigit = false := by
    cases hDigit : c.isDigit with
    | false => rfl
    | true => simp [isWordChar, Char.isAlphanum, hDigit] at hWord
  obtain ⟨before, mode, n⟩ := l
  cases mode with
  | idle => rfl
  | word chars => simp [step, flush, hWord]
  | quoted chars => exact absurd rfl (hClosed chars)
  | quote chars => simp [step, flush, hQuote]
  | param number => simp [step, flush, hDigit]

theorem after_append (count : Nat) (text text' : String) (before : List Token) :
    after count (text ++ text') before
      = text'.toList.foldl Lexer.step (after count text before) := by
  unfold after
  rw [String.toList_append, List.foldl_append]

theorem Reads.ends (h : Reads count text tokens count') : Ends count text tokens count' := by
  intro before
  rw [h before]
  refine ⟨?_, rfl⟩
  intro chars hMode
  cases hMode

/-- A piece of text after one that ends between two tokens. -/
theorem Reads.append (h : Reads count text tokens count')
    (h' : Ends count' text' tokens' count'') :
    Ends count (text ++ text') (tokens ++ tokens') count'' := by
  intro before
  obtain ⟨hClosed, hFlush⟩ := h' (tokens.reverse ++ before)
  rw [after_append, h before]
  refine ⟨hClosed, hFlush.trans ?_⟩
  rw [List.reverse_append, List.append_assoc]

/-- What the lexer makes of a text that breaks off the token before it. -/
theorem Ends.after_append (h : Ends count text tokens count') (hBreaks : Breaks text')
    (before : List Token) :
    after count (text ++ text') before = after count' text' (tokens.reverse ++ before) := by
  obtain ⟨c, rest, hText, hWord, hQuote⟩ := hBreaks
  obtain ⟨hClosed, hFlush⟩ := h before
  rw [Sql.after_append, hText, List.foldl_cons, Lexer.step_break hClosed hWord hQuote, hFlush,
    ← List.foldl_cons, ← hText, after]

/-- **A piece of text that breaks off the token before it.** -/
theorem Ends.append (h : Ends count text tokens count') (hBreaks : Breaks text')
    (h' : Reads count' text' tokens' count'') :
    Reads count (text ++ text') (tokens ++ tokens') count'' := by
  intro before
  rw [h.after_append hBreaks, h', List.reverse_append, List.append_assoc]

theorem Ends.append_ends (h : Ends count text tokens count') (hBreaks : Breaks text')
    (h' : Ends count' text' tokens' count'') :
    Ends count (text ++ text') (tokens ++ tokens') count'' := by
  intro before
  rw [h.after_append hBreaks, List.reverse_append, List.append_assoc]
  exact h' _

theorem Ends.lex (h : Ends 0 text tokens count) : lex text = some tokens := by
  obtain ⟨hClosed, hFlush⟩ := h []
  unfold after at hClosed hFlush
  unfold Sql.lex
  dsimp only
  rw [hFlush, List.append_nil, List.reverse_reverse]
  split
  · next chars hMode => exact absurd hMode (hClosed chars)
  · rfl

end

/-! ## Placeholders -/

section

variable {count : Nat}

theorem ends_question (count : Nat) : Ends count "?" [.param (count + 1)] (count + 1) := by
  have hReads : Reads count "?" [.param (count + 1)] (count + 1) := fun _ => rfl
  exact hReads.ends

theorem foldl_digits {digits : List Char} (hDigits : ∀ c ∈ digits, c.isDigit = true)
    (before : List Token) (number : Nat) :
    digits.foldl Lexer.step ⟨before, .param number, count⟩
      = ⟨before, .param (Nat.ofDigitChars 10 digits number), count⟩ := by
  induction digits generalizing number with
  | nil => simp
  | cons c digits ih =>
    obtain ⟨hc, hDigits⟩ := List.forall_mem_cons.mp hDigits
    have hStep : Lexer.step ⟨before, .param number, count⟩ c
        = ⟨before, .param (10 * number + (c.toNat - '0'.toNat)), count⟩ := by
      simp [Lexer.step, hc]
    rw [List.foldl_cons, hStep, ih hDigits, Nat.ofDigitChars_cons]

/-- The digits of a number are read as the number. -/
theorem ends_dollar {number : Nat} (hLe : count ≤ number) :
    Ends count ("$" ++ number.repr) [.param number] number := by
  have hDigits : ∀ c ∈ number.repr.toList, c.isDigit = true := by
    intro c hc
    rw [Nat.toList_repr] at hc
    exact Nat.isDigit_of_mem_toDigits (by omega) (by omega) hc
  intro before
  have hBegin : after count "$" before = ⟨before, .param 0, count⟩ := rfl
  rw [after_append, hBegin, foldl_digits hDigits, Nat.toList_repr, Nat.ofDigitChars_ten_toDigits]
  refine ⟨?_, ?_⟩
  · intro chars hMode
    cases hMode
  · simp [Lexer.flush, hLe]

end

/-! ## Lists -/

/-- The tokens of texts, each read after the one before it. -/
inductive Items : Nat → List String → List (List Token) → Nat → Prop
  | nil (count : Nat) : Items count [] [] count
  | cons {count count' count'' : Nat} {text : String} {tokens : List Token} {texts : List String}
      {rest : List (List Token)} (head : Ends count text tokens count')
      (tail : Items count' texts rest count'') :
      Items count (text :: texts) (tokens :: rest) count''

/-- **The items of a list**, between separators that break them off. -/
theorem Items.intercalate {count count' : Nat} {separator : String} {between : List Token}
    (hBreaks : Breaks separator) (hBetween : ∀ count, Reads count separator between count)
    {text : String} {texts : List String} {tokens : List (List Token)}
    (h : Items count (text :: texts) tokens count') :
    Ends count (separator.intercalate (text :: texts)) (between.intercalate tokens) count' := by
  induction texts generalizing count text tokens with
  | nil =>
    cases h with
    | cons head tail =>
      cases tail
      rw [String.intercalate_singleton, List.intercalate_singleton]
      exact head
  | cons next texts ih =>
    cases h with
    | @cons _ mid _ _ first _ others head tail =>
      cases tail with
      | @cons _ _ _ _ second _ more head' tail' =>
        have hRest := ih (.cons head' tail')
        rw [String.intercalate_cons_cons, List.intercalate_cons_cons]
        exact (head.append hBreaks (hBetween mid)).append hRest

end Cryptbox.Base.Sql

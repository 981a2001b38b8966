import Cryptbox.Derive.Stream

/-!
# Streams of words

Streams of tokens in which paths, types and the attributes of the stored form are one word each, as
an instance of what is documented of `syn`.

* `first_lt`, `peeks_iff`: what reading one token does.
* `words`: the instance.
-/

namespace Cryptbox.Derive

open Base Base.Parsing

namespace Vectors

variable {Span α : Type}

/-! ## Tokens -/

inductive Literal where
  | str (value : String)
  /-- The digits, and the suffix behind them. -/
  | int (digits : Nat) (suffix : String)

inductive TokenTree (Span : Type) where
  | ident (ident : Ident Span)
  | punct (char : Char) (span : Span)
  | literal (literal : Literal) (span : Span)
  | group (stream : List (TokenTree Span)) (span : Span)

def TokenTree.span : TokenTree Span → Span
  | .ident name => name.span
  | .punct _ span => span
  | .literal _ span => span
  | .group _ span => span

structure Input (Span : Type) where
  tokens : List (TokenTree Span)
  /-- Where an end that comes too early is reported. -/
  scope : Span
  /-- The first token that was left over in a group. -/
  unexpected : Option Span

/-- The input is dropped: the first token that is left is noted, unless one was before. -/
def Input.leftOver (input : Input Span) : Option Span :=
  input.unexpected.or (input.tokens.head?.map TokenTree.span)

/-! ## One token -/

/-- The first token, if it is one that is expected. -/
def first (expected : TokenTree Span → Option α) (message : String) : Parser (Input Span) Span α :=
  fun input =>
    match input.tokens with
    | [] => .error ⟨input.scope, s!"unexpected end of input, {message}"⟩ input
    | token :: rest =>
      match expected token with
      | some a => .ok a { input with tokens := rest }
      | none => .error ⟨token.span, message⟩ input

def peeks (expected : TokenTree Span → Option α) (input : Input Span) : Bool :=
  (input.tokens.head?.bind expected).isSome

section

variable {expected : TokenTree Span → Option α} {message : String}

theorem first_lt {input rest : Input Span} {a : α}
    (h : (first expected message).run input = .ok a rest) :
    rest.tokens.length < input.tokens.length := by
  simp only [EStateM.run, first] at h
  split at h
  · cases h
  · next token tokens hTokens =>
    split at h
    · cases h
      rw [hTokens]
      exact Nat.lt_succ_self _
    · cases h

theorem first_keeps :
    Keeps (Shorter fun input => input.tokens.length) (first expected message) := by
  intro input
  cases hRun : (first expected message).run input with
  | ok a rest => exact (first_lt hRun).le
  | error e rest =>
    simp only [EStateM.run, first] at hRun
    split at hRun
    · cases hRun
      exact Std.Refl.refl _
    · split at hRun
      · cases hRun
      · cases hRun
        exact Std.Refl.refl _

theorem peeks_iff {input : Input Span} : peeks expected input = true ↔
    ∃ a rest, (first expected message).run input = .ok a rest := by
  simp only [peeks, EStateM.run, first]
  split
  · next hTokens => simp [hTokens]
  · next token tokens hTokens =>
    rw [hTokens, List.head?_cons, Option.bind_some]
    cases expected token with
    | none => simp
    | some a => exact iff_of_true rfl ⟨a, _, rfl⟩

end

def punct? (char : Char) : TokenTree Span → Option Unit
  | .punct c _ => if c = char then some () else none
  | _ => none

def litStr? : TokenTree Span → Option (LitStr Span)
  | .literal (.str value) span => some ⟨value, span⟩
  | _ => none

def litInt? : TokenTree Span → Option (LitInt Span)
  | .literal (.int digits suffix) span => some ⟨false, digits, suffix, span⟩
  | _ => none

def word? : TokenTree Span → Option (Ident Span)
  | .ident name => some name
  | _ => none

/-- An identifier is no keyword. -/
def ident? (token : TokenTree Span) : Option (Ident Span) :=
  (word? token).filter fun name => name.text ≠ "struct"

def group? : TokenTree Span → Option (List (TokenTree Span) × Span)
  | .group stream span => some (stream, span)
  | _ => none

/-! ## The instance -/

def word : Parser (Input Span) Span (Ident Span) := first word? "expected identifier"

theorem word_map_keeps (f : Ident Span → α) :
    Keeps (Shorter fun input => input.tokens.length) (f <$> word) := Keeps.map first_keeps f

/-- The type that is a word, with arguments in angle brackets or without. -/
def tyOf (text : String) (arguments : Option (List (Ty String))) : Ty String :=
  .path false [.mk text (arguments.map (List.map .type))] text

/-- The parsers. Tokens stand for themselves. -/
def wordParsers : Parsers (Input String) String String String where
  isEmpty input := input.tokens.isEmpty
  peek char := peeks (punct? char)
  peekLitStr := peeks litStr?
  punct char := first (punct? char) s!"expected `{char}`"
  litStr := first litStr? "expected string literal"
  litInt := first litInt? "expected integer literal"
  base10Parse literal max :=
    if literal.negative = false ∧ literal.digits ≤ max then .ok literal.digits
    else .error ⟨literal.span, "number out of range"⟩
  ident := first ident? "expected identifier"
  ty := (fun name => tyOf name.text none) <$> word
  path := Ident.text <$> word
  str := tyOf "str" none
  tokenTree := first (fun token => some token.span) "expected token tree"
  spanned spans := spans.headD "cryptbox"
  content := do
    let (stream, span) ← first group? "expected parentheses"
    return ⟨stream, span, (← get).unexpected⟩
  dropped inner input := { input with unexpected := inner.leftOver }
  metas := (fun name => [name.text]) <$> word
  storedName _ := none
  metaPath := (fun name => ⟨some name.text, name.text, name.span⟩) <$> word
  size input := input.tokens.length
  peek_iff char input := by
    rw [peeks_iff]
    constructor
    · rintro ⟨⟨⟩, rest, hRun⟩
      exact ⟨rest, hRun⟩
    · rintro ⟨rest, hRun⟩
      exact ⟨(), rest, hRun⟩
  base10Parse_eq_ok literal max value := by
    constructor
    · intro h
      split at h
      · next hValid =>
        cases h
        exact ⟨hValid.1, rfl, hValid.2⟩
      · cases h
    · rintro ⟨hSign, rfl, hMax⟩
      exact if_pos ⟨hSign, hMax⟩
  punct_keeps _ := first_keeps
  litStr_keeps := first_keeps
  litInt_keeps := first_keeps
  ident_keeps := first_keeps
  ty_keeps := word_map_keeps _
  path_keeps := word_map_keeps _
  tokenTree_keeps := first_keeps
  tokenTree_lt h := first_lt h
  content_keeps :=
    first_keeps.bind fun _ => Keeps.bind (fun _ => Std.Refl.refl _) fun _ => Keeps.pure _
  dropped_le _ _ := Nat.le_refl _
  metaPath_keeps := word_map_keeps _
  metaPath_lt h := by
    obtain ⟨name, hWord, -⟩ := run_map_eq_ok.mp h
    exact first_lt hWord

def words : Syntax (Input String) String String String where
  toParsers := wordParsers
  parseNestedMeta logic hLogic attr state :=
    match attr.arguments with
    | .error diagnostic => .error (.error diagnostic) state
    | .ok input =>
      if input.tokens.isEmpty then .ok () state
      else match (wordParsers.nested logic hLogic).loop ⟨input, state⟩ with
        | .error e s => .error e s.state
        | .ok () s =>
          match s.input.unexpected with
          | some span => .error (.error ⟨span, "unexpected token"⟩) s.state
          | none => .ok () s.state
  nestedMeta logic hLogic state := parenthesized wordParsers .error fun input =>
    match (wordParsers.nested logic hLogic).loop ⟨input, state⟩ with
    | .ok () s => .ok s.state s.input
    | .error e s => .error e s.input
  unexpected input := input.unexpected.map fun span => ⟨span, "unexpected token"⟩
  parseNestedMeta_eq logic hLogic attr state := by
    cases attr.arguments with
    | error diagnostic => rfl
    | ok input =>
      refine ite_congr rfl (fun _ => rfl) fun _ => ?_
      cases (wordParsers.nested logic hLogic).loop ⟨input, state⟩ with
      | error e s => rfl
      | ok _ s => cases hUnexpected : s.input.unexpected <;> simp only [hUnexpected] <;> rfl
  nestedMeta_eq logic hLogic state := by
    refine congrArg (parenthesized wordParsers Abort.error) (funext fun input => ?_)
    cases (wordParsers.nested logic hLogic).loop ⟨input, state⟩ <;> rfl

def ident (text : String) : TokenTree String := .ident ⟨text, text⟩

/-- `#[cryptbox(…)]`. -/
def cryptbox (tokens : List (TokenTree String)) : Attribute (Input String) String :=
  ⟨⟨some "cryptbox", "cryptbox", "cryptbox"⟩, .ok ⟨tokens, "cryptbox", none⟩⟩

/-- `key = value`. -/
def entry (key : String) (value : TokenTree String) : List (TokenTree String) :=
  [ident key, .punct '=' "=", value]

/-- `key = "…"`. -/
def strEntry (key value : String) : List (TokenTree String) :=
  entry key (.literal (.str value) value)

/-- Entries with commas between them. -/
def commas (entries : List (List (TokenTree String))) : List (TokenTree String) :=
  List.intercalate [.punct ',' ","] entries

end Vectors

end Cryptbox.Derive

import Cryptbox.Base.Parsing
import Cryptbox.Derive.Record

/-!
# Token streams

What the derive crate calls of `syn`, over streams of tokens that are opaque. `Parsers` are the
parsers that it calls, `Syntax` adds the loops over the entries of a helper attribute; each has
what is documented of it as its fields.

* `parenthesized_keeps`: a group is left behind, whatever its content is read as.
* `Describes.nested_iff`: what the loop over the entries reads when nothing is reported.
* `Describes.parse_iff`: what the attributes of an item read, one after the other.
-/

namespace Cryptbox.Derive

open Base Base.Parsing

variable {I Span Path Meta δ σ τ α E : Type}

/-! ## Parsers -/

/-- `LitInt`: its digits, behind a sign or not, and a suffix. -/
structure LitInt (Span : Type) where
  negative : Bool
  digits : Nat
  suffix : String
  span : Span

/-- The path of an entry: the identifier that it is, if it is one, and its tokens as text. -/
structure MetaPath (Span : Type) where
  ident : Option String
  text : String
  span : Span

/-- `path.is_ident(name)`. -/
def MetaPath.isIdent (path : MetaPath Span) (name : String) : Bool := path.ident == some name

/-- `syn::Result<α>` of a function that takes a `ParseStream`. -/
abbrev Parser (I Span α : Type) := EStateM (Diagnostic Span) I α

/-- No longer than before. -/
def Shorter (size : τ → Nat) (s s' : τ) : Prop := size s' ≤ size s

instance (size : τ → Nat) : Std.Refl (Shorter size) := ⟨fun _ => Nat.le_refl _⟩

instance (size : τ → Nat) : IsTrans τ (Shorter size) := ⟨fun _ _ _ h h' => Nat.le_trans h' h⟩

/-- The parsers of `syn`, over streams `I`. -/
structure Parsers (I Span Path Meta : Type) where
  isEmpty : I → Bool
  /-- `input.peek(Token![char])`. -/
  peek : Char → I → Bool
  /-- `input.peek(LitStr)`. -/
  peekLitStr : I → Bool
  /-- `input.parse::<Token![char]>()`. -/
  punct : Char → Parser I Span Unit
  litStr : Parser I Span (LitStr Span)
  litInt : Parser I Span (LitInt Span)
  /-- `literal.base10_parse()`, for an unsigned type up to a maximum. -/
  base10Parse : LitInt Span → Nat → Except (Diagnostic Span) Nat
  ident : Parser I Span (Ident Span)
  ty : Parser I Span (Ty Span)
  path : Parser I Span Path
  /-- The type `str`. -/
  str : Ty Span
  /-- `input.parse::<TokenTree>()`, of which the span is kept. -/
  tokenTree : Parser I Span Span
  /-- Where `Error::new_spanned` points, on tokens with these spans. -/
  spanned : List Span → Span
  /-- `parenthesized!`: the content of a group. -/
  content : Parser I Span I
  /-- What is left of the content of a group is dropped; its input is the second. -/
  dropped : I → I → I
  /-- `Punctuated::<Meta, Token![,]>::parse_terminated`. -/
  metas : Parser I Span (List Meta)
  /-- For `name = value`, where the value stands and the identifier that it is, if it is one. -/
  storedName : Meta → Option (Span × Option (Ident Span))
  /-- The path that an entry of an attribute starts with. -/
  metaPath : Parser I Span (MetaPath Span)
  /-- A measure of what is left, to which parsers add nothing, whether they fail or not. -/
  size : I → Nat
  peek_iff : ∀ char input, peek char input = true ↔ ∃ rest, (punct char).run input = .ok () rest
  base10Parse_eq_ok : ∀ literal max value, base10Parse literal max = .ok value ↔
    literal.negative = false ∧ literal.digits = value ∧ value ≤ max
  punct_keeps : ∀ char, Keeps (Shorter size) (punct char)
  litStr_keeps : Keeps (Shorter size) litStr
  litInt_keeps : Keeps (Shorter size) litInt
  ident_keeps : Keeps (Shorter size) ident
  ty_keeps : Keeps (Shorter size) ty
  path_keeps : Keeps (Shorter size) path
  tokenTree_keeps : Keeps (Shorter size) tokenTree
  tokenTree_lt : ∀ {input span rest}, tokenTree.run input = .ok span rest → size rest < size input
  content_keeps : Keeps (Shorter size) content
  dropped_le : ∀ inner input, size (dropped inner input) ≤ size input
  metaPath_keeps : Keeps (Shorter size) metaPath
  metaPath_lt : ∀ {input path rest}, metaPath.run input = .ok path rest → size rest < size input

/-- How a function of the derive crate ends when it does not return. -/
inductive Abort (Span : Type) where
  | error (diagnostic : Diagnostic Span)
  /-- `unreachable!`. -/
  | panicked

section

variable (syn : Parsers I Span Path Meta)

/-- `parenthesized!(content in input)`, and what is read from `content`. -/
def parenthesized (wrap : Diagnostic Span → δ) (read : EStateM δ I α) : EStateM δ I α :=
  fun input =>
    match syn.content.run input with
    | .error e rest => .error (wrap e) rest
    | .ok inner rest =>
      match read.run inner with
      | .ok a inner => .ok a (syn.dropped inner rest)
      | .error e inner => .error e (syn.dropped inner rest)

/-- A group is left behind, whatever its content is read as. -/
theorem parenthesized_keeps (wrap : Diagnostic Span → δ) (read : EStateM δ I α) :
    Keeps (Shorter syn.size) (parenthesized syn wrap read) := by
  intro input
  simp only [EStateM.run, parenthesized]
  split
  · next hRun => exact syn.content_keeps.error hRun
  · next inner rest hRun =>
    have hRest : syn.size rest ≤ syn.size input := syn.content_keeps.ok hRun
    split
    · exact (syn.dropped_le _ rest).trans hRest
    · exact (syn.dropped_le _ rest).trans hRest

end

/-! ## The entries of an attribute -/

/-- The input, and what the closure over its entries changes. -/
structure ParseState (I σ : Type) where
  input : I
  state : σ

/-- A closure over the entries, as it is called with the path of one. -/
abbrev Logic (I Span σ : Type) := MetaPath Span → EStateM (Abort Span) (ParseState I σ) Unit

/-- The input is no longer than before. -/
abbrev Parsers.ReadsOn (syn : Parsers I Span Path Meta) : ParseState I σ → ParseState I σ → Prop :=
  Shorter fun s => syn.size s.input

/-- A parser within the closure. -/
def within (wrap : δ → Abort Span) (p : EStateM δ I α) : EStateM (Abort Span) (ParseState I σ) α :=
  zoom wrap ParseState.input (fun input s => { s with input }) p

section

variable {wrap : δ → Abort Span} {p : EStateM δ I α}

theorem within_eq_ok {s s' : ParseState I σ} {a : α} :
    (within wrap p).run s = .ok a s' ↔ p.run s.input = .ok a s'.input ∧ s'.state = s.state := by
  obtain ⟨input', state'⟩ := s'
  rw [within, run_zoom]
  cases p.run s.input with
  | ok b input => simp [eq_comm, and_assoc]
  | error e input => simp

theorem run_within {input rest : I} {a : α} (h : p.run input = .ok a rest) (state : σ) :
    (within wrap p).run ⟨input, state⟩ = .ok a ⟨rest, state⟩ :=
  within_eq_ok.mpr ⟨h, rfl⟩

theorem within_keeps {size : I → Nat} (h : Keeps (Shorter size) p) :
    Keeps (Shorter fun s => size s.input)
      (within wrap p : EStateM (Abort Span) (ParseState I σ) α) := by
  intro s
  rw [within, run_zoom]
  cases hRun : p.run s.input with
  | ok a input => exact h.ok hRun
  | error e input => exact h.error hRun

/-- The state is for the closure alone. -/
theorem within_state (s : ParseState I σ) :
    (left ((within wrap p : EStateM _ (ParseState I σ) α).run s)).state = s.state := by
  rw [within, run_zoom]
  cases p.run s.input <;> rfl

end

/-- Entries with commas between them: a closure reads what stands behind the path of each. -/
def Parsers.nested (syn : Parsers I Span Path Meta) (logic : Logic I Span σ)
    (hLogic : ∀ path, Keeps syn.ReadsOn (logic path)) :
    Separated (Abort Span) (ParseState I σ) (MetaPath Span) where
  size s := syn.size s.input
  done s := syn.isEmpty s.input
  head := within .error syn.metaPath
  body := logic
  separator := within .error (syn.punct ',')
  head_lt h := syn.metaPath_lt (within_eq_ok.mp h).1
  body_le h := (hLogic _).ok h
  separator_le h := (within_keeps (syn.punct_keeps ',')).ok h

/-- `Attribute`: the stream of its arguments, or what is reported when they are not in
parentheses. -/
structure Attribute (I Span : Type) where
  path : MetaPath Span
  arguments : Except (Diagnostic Span) I

/-- `syn`: its parsers, and the loops over the entries of an attribute and of a group, for closures
that only read on. -/
structure Syntax (I Span Path Meta : Type) extends Parsers I Span Path Meta where
  /-- `attr.parse_nested_meta(logic)`, and what the closure left. -/
  parseNestedMeta : {σ : Type} → (logic : Logic I Span σ) →
    (∀ path, Keeps toParsers.ReadsOn (logic path)) → Attribute I Span → σ →
      EStateM.Result (Abort Span) σ Unit
  /-- `meta.parse_nested_meta(logic)`, and what the closure left. -/
  nestedMeta : {σ : Type} → (logic : Logic I Span σ) →
    (∀ path, Keeps toParsers.ReadsOn (logic path)) → σ → EStateM (Abort Span) I σ
  /-- What is reported at the end of an attribute: a token that was left over. -/
  unexpected : I → Option (Diagnostic Span)
  /-- There may be no entries between the parentheses of an attribute. -/
  parseNestedMeta_eq : ∀ {σ : Type} (logic : Logic I Span σ)
    (hLogic : ∀ path, Keeps toParsers.ReadsOn (logic path)) (attr : Attribute I Span) (state : σ),
    parseNestedMeta logic hLogic attr state =
      match attr.arguments with
      | .error diagnostic => .error (.error diagnostic) state
      | .ok input =>
        if isEmpty input then .ok () state
        else match (toParsers.nested logic hLogic).loop ⟨input, state⟩ with
          | .error e s => .error e s.state
          | .ok () s =>
            match unexpected s.input with
            | some diagnostic => .error (.error diagnostic) s.state
            | none => .ok () s.state
  nestedMeta_eq : ∀ {σ : Type} (logic : Logic I Span σ)
    (hLogic : ∀ path, Keeps toParsers.ReadsOn (logic path)) (state : σ),
    nestedMeta logic hLogic state = parenthesized toParsers .error fun input =>
      match (toParsers.nested logic hLogic).loop ⟨input, state⟩ with
      | .ok () s => .ok s.state s.input
      | .error e s => .error e s.input

variable (syn : Syntax I Span Path Meta)

/-- The attributes of an item, one after the other: an error in one is reported, and the next is
parsed all the same. -/
def parseAttributes (logic : Logic I Span σ) (hLogic : ∀ path, Keeps syn.ReadsOn (logic path))
    (report : Diagnostic Span → σ → σ) : List (Attribute I Span) → σ → Result σ
  | [], state => .ok state
  | attr :: rest, state =>
    match syn.parseNestedMeta logic hLogic attr state with
    | .ok () state => parseAttributes logic hLogic report rest state
    | .error (.error diagnostic) state =>
      parseAttributes logic hLogic report rest (report diagnostic state)
    | .error .panicked _ => panics

/-! ## What is written -/

/-- Entries with commas between them, and perhaps after the last; `item` says what an entry with a
path reads, and from where to where. -/
inductive Listed (item : MetaPath Span → I → E → I → Prop) : I → List E → I → Prop
  | last {input afterPath rest : I} {path : MetaPath Span} {entry : E}
      (hPath : syn.metaPath.run input = .ok path afterPath) (hItem : item path afterPath entry rest)
      (hDone : syn.isEmpty rest = true) : Listed item input [entry] rest
  | trailing {input afterPath afterItem rest : I} {path : MetaPath Span} {entry : E}
      (hPath : syn.metaPath.run input = .ok path afterPath)
      (hItem : item path afterPath entry afterItem) (hMore : syn.isEmpty afterItem = false)
      (hComma : (syn.punct ',').run afterItem = .ok () rest) (hDone : syn.isEmpty rest = true) :
      Listed item input [entry] rest
  | cons {input afterPath afterItem next rest : I} {path : MetaPath Span} {entry : E}
      {entries : List E} (hPath : syn.metaPath.run input = .ok path afterPath)
      (hItem : item path afterPath entry afterItem) (hMore : syn.isEmpty afterItem = false)
      (hComma : (syn.punct ',').run afterItem = .ok () next) (hNext : syn.isEmpty next = false)
      (hRest : Listed item next entries rest) : Listed item input (entry :: entries) rest

/-- The entries that an attribute lists: none, or some of which no group has a token left over. -/
inductive Attribute.Lists (item : MetaPath Span → I → E → I → Prop) (attr : Attribute I Span) :
    List E → Prop
  | none {input : I} (hArguments : attr.arguments = .ok input) (hEmpty : syn.isEmpty input = true) :
      attr.Lists item []
  | some {input : I} {entries : List E} {rest : I} (hArguments : attr.arguments = .ok input)
      (hSome : syn.isEmpty input = false) (hListed : Listed syn item input entries rest)
      (hUnexpected : syn.unexpected rest = Option.none) : attr.Lists item entries

section

variable {item : MetaPath Span → I → E → I → Prop} {P : E → Prop}
  (hItem : ∀ path input entry rest, item path input entry rest → P entry)

include hItem

/-- What every entry that is read has, the entries of a list have. -/
theorem Listed.forall {input rest : I} {entries : List E}
    (h : Listed syn item input entries rest) : ∀ entry ∈ entries, P entry := by
  induction h with
  | last _ h _ => exact List.forall_mem_singleton.mpr (hItem _ _ _ _ h)
  | trailing _ h _ _ _ => exact List.forall_mem_singleton.mpr (hItem _ _ _ _ h)
  | cons _ h _ _ _ _ ih => exact List.forall_mem_cons.mpr ⟨hItem _ _ _ _ h, ih⟩

/-- And the entries of some attributes. -/
theorem forall_listed {attrs : List (Attribute I Span)} {lists : List (List E)}
    (h : List.Forall₂ (Attribute.Lists syn item) attrs lists) :
    ∀ entry ∈ lists.flatten, P entry := by
  induction h with
  | nil => exact fun entry hMem => nomatch hMem
  | cons hHead _ ih =>
    rw [List.flatten_cons, List.forall_mem_append]
    refine ⟨?_, ih⟩
    cases hHead with
    | none _ => exact fun entry hMem => nomatch hMem
    | some _ _ h _ => exact Listed.forall syn hItem h

end

/-- Every entry is admitted in the state that those before it lead to. -/
def Admitted (admits : σ → E → Prop) (step : σ → E → σ) : σ → List E → Prop
  | _, [] => True
  | state, entry :: entries => admits state entry ∧ Admitted admits step (step state entry) entries

theorem admitted_append {admits : σ → E → Prop} {step : σ → E → σ} {state : σ} {xs ys : List E} :
    Admitted admits step state (xs ++ ys) ↔
      Admitted admits step state xs ∧ Admitted admits step (xs.foldl step state) ys := by
  induction xs generalizing state with
  | nil => simp [Admitted]
  | cons x xs ih => simp [Admitted, ih, and_assoc]

/-- What was reported stays. -/
def Quieter (quiet : σ → Prop) (s s' : ParseState I σ) : Prop := quiet s'.state → quiet s.state

instance (quiet : σ → Prop) : Std.Refl (Quieter quiet : ParseState I σ → _) := ⟨fun _ => id⟩

instance (quiet : σ → Prop) : IsTrans (ParseState I σ) (Quieter quiet) :=
  ⟨fun _ _ _ h h' hQuiet => h (h' hQuiet)⟩

/-- What the closure does while nothing is reported: it reads an entry that is admitted. -/
structure Describes (quiet : σ → Prop) (logic : Logic I Span σ)
    (item : MetaPath Span → I → E → I → Prop) (admits : σ → E → Prop)
    (step : σ → E → σ) : Prop where
  keeps : ∀ path, Keeps (Quieter quiet) (logic path)
  iff : ∀ {path s s'}, quiet s.state →
    ((logic path).run s = .ok () s' ∧ quiet s'.state ↔
      ∃ entry, item path s.input entry s'.input ∧ admits s.state entry ∧
        s'.state = step s.state entry)

section

variable {quiet : σ → Prop} {logic : Logic I Span σ}
  (hLogic : ∀ path, Keeps syn.ReadsOn (logic path))
  {item : MetaPath Span → I → E → I → Prop} {admits : σ → E → Prop}
  {step : σ → E → σ}

theorem Describes.run_of (h : Describes quiet logic item admits step) {path : MetaPath Span}
    {input rest : I} {state : σ} {entry : E} (hQuiet : quiet state)
    (hItem : item path input entry rest) (hAdmits : admits state entry) :
    (logic path).run ⟨input, state⟩ = .ok () ⟨rest, step state entry⟩ ∧
      quiet (step state entry) := by
  have hStart : quiet (ParseState.mk input state).state := hQuiet
  exact (h.iff hStart).mpr ⟨entry, hItem, hAdmits, rfl⟩

theorem Describes.quiet_of_loop (h : Describes quiet logic item admits step)
    (s : ParseState I σ) (hQuiet : quiet (left ((syn.nested logic hLogic).loop s)).state) :
    quiet s.state := by
  have hParser {δ α : Type} (wrap : δ → Abort Span) (p : EStateM δ (I) α) :
      Keeps (Quieter quiet) (within wrap p : EStateM _ (ParseState I σ) α) := by
    intro s hQuiet
    rwa [within_state] at hQuiet
  have hLoop : Quieter quiet s (left ((syn.nested logic hLogic).loop s)) :=
    Separated.keeps (l := syn.nested logic hLogic) (hParser _ _) h.keeps (hParser _ _) s
  exact hLoop hQuiet

/-- **What the loop reads** when nothing is reported. -/
theorem Describes.nested_iff (h : Describes quiet logic item admits step)
    (s s' : ParseState I σ) (hStart : quiet s.state) :
    (syn.nested logic hLogic).loop s = .ok () s' ∧ quiet s'.state ↔
      ∃ entries, Listed syn item s.input entries s'.input ∧
        Admitted admits step s.state entries ∧ s'.state = entries.foldl step s.state := by
  constructor
  · rintro ⟨hLoop, hQuiet⟩
    obtain ⟨paths, hReads⟩ := Separated.loop_eq_ok.mp hLoop
    clear hLoop
    induction hReads with
    | last hHead hBody hDone =>
      obtain ⟨hPath, hState⟩ := within_eq_ok.mp hHead
      obtain ⟨entry, hItem, hAdmits, hStep⟩ := (h.iff (hState ▸ hStart)).mp ⟨hBody, hQuiet⟩
      rw [hState] at hAdmits hStep
      exact ⟨[entry], .last hPath hItem hDone, ⟨hAdmits, trivial⟩, hStep⟩
    | trailing hHead hBody hMore hSeparator hDone =>
      obtain ⟨hPath, hState⟩ := within_eq_ok.mp hHead
      obtain ⟨hComma, hSame⟩ := within_eq_ok.mp hSeparator
      rw [hSame] at hQuiet ⊢
      obtain ⟨entry, hItem, hAdmits, hStep⟩ := (h.iff (hState ▸ hStart)).mp ⟨hBody, hQuiet⟩
      rw [hState] at hAdmits hStep
      exact ⟨[entry], .trailing hPath hItem hMore hComma hDone, ⟨hAdmits, trivial⟩, hStep⟩
    | cons hHead hBody hMore hSeparator hRest hReads ih =>
      obtain ⟨hPath, hState⟩ := within_eq_ok.mp hHead
      obtain ⟨hComma, hSame⟩ := within_eq_ok.mp hSeparator
      have hLoop := Separated.loop_eq_ok.mpr ⟨_, hReads⟩
      have hNext := h.quiet_of_loop syn hLogic _ (by rwa [hLoop])
      obtain ⟨entries, hListed, hAdmitted, hFinal⟩ := ih hNext hQuiet
      rw [hSame] at hNext hAdmitted hFinal
      obtain ⟨entry, hItem, hAdmits, hStep⟩ := (h.iff (hState ▸ hStart)).mp ⟨hBody, hNext⟩
      rw [hState] at hAdmits hStep
      rw [hStep] at hAdmitted hFinal
      exact ⟨entry :: entries, .cons hPath hItem hMore hComma hRest hListed,
        ⟨hAdmits, hAdmitted⟩, hFinal⟩
  · rintro ⟨entries, hListed, hAdmitted, hFinal⟩
    rw [Separated.loop_eq_ok]
    obtain ⟨input, state⟩ := s
    obtain ⟨input', state'⟩ := s'
    dsimp only at hStart hListed hAdmitted hFinal ⊢
    subst hFinal
    induction hListed generalizing state with
    | last hPath hItem hDone =>
      obtain ⟨hBody, hQuiet⟩ := h.run_of hStart hItem hAdmitted.1
      exact ⟨⟨_, .last (run_within hPath _) hBody hDone⟩, hQuiet⟩
    | trailing hPath hItem hMore hComma hDone =>
      obtain ⟨hBody, hQuiet⟩ := h.run_of hStart hItem hAdmitted.1
      exact ⟨⟨_, .trailing (run_within hPath _) hBody hMore (run_within hComma _) hDone⟩, hQuiet⟩
    | cons hPath hItem hMore hComma hNext hRest ih =>
      obtain ⟨hBody, hQuiet⟩ := h.run_of hStart hItem hAdmitted.1
      obtain ⟨⟨paths, hReads⟩, hFinal⟩ := ih _ hQuiet hAdmitted.2
      exact ⟨⟨_ :: paths, .cons (run_within hPath _) hBody hMore (run_within hComma _) hNext
        hReads⟩, hFinal⟩

/-- What was reported before an attribute is there after it. -/
theorem Describes.quiet_of_attribute (h : Describes quiet logic item admits step)
    (attr : Attribute I Span) (state : σ)
    (hQuiet : quiet (left (syn.parseNestedMeta logic hLogic attr state))) : quiet state := by
  rw [syn.parseNestedMeta_eq] at hQuiet
  split at hQuiet
  · exact hQuiet
  · next input _ =>
    split at hQuiet
    · exact hQuiet
    · split at hQuiet
      · next e s hRun => exact h.quiet_of_loop syn hLogic ⟨input, state⟩ (by rwa [hRun])
      · next s hRun =>
        have hLoop := h.quiet_of_loop syn hLogic ⟨input, state⟩
        rw [hRun] at hLoop
        split at hQuiet
        · exact hLoop hQuiet
        · exact hLoop hQuiet

/-- **What an attribute reads** when nothing is reported. -/
theorem Describes.attribute_iff (h : Describes quiet logic item admits step)
    (attr : Attribute I Span) {state : σ} (state' : σ) (hStart : quiet state) :
    syn.parseNestedMeta logic hLogic attr state = .ok () state' ∧ quiet state' ↔
      ∃ entries, attr.Lists syn item entries ∧ Admitted admits step state entries ∧
        state' = entries.foldl step state := by
  rw [syn.parseNestedMeta_eq]
  cases hArguments : attr.arguments with
  | error diagnostic =>
    refine iff_of_false (fun h => nomatch h.1) ?_
    rintro ⟨entries, hLists, -⟩
    cases hLists with
    | none hSome => cases hArguments.symm.trans hSome
    | some hSome => cases hArguments.symm.trans hSome
  | ok input =>
    dsimp only
    cases hEmpty : syn.isEmpty input with
    | true =>
      rw [if_pos rfl]
      constructor
      · rintro ⟨hOk, -⟩
        cases hOk
        exact ⟨[], .none hArguments hEmpty, trivial, rfl⟩
      · rintro ⟨entries, hLists, -, hFinal⟩
        cases hLists with
        | none => exact ⟨by rw [hFinal]; rfl, hFinal ▸ hStart⟩
        | some hSame hSome =>
          cases hArguments.symm.trans hSame
          cases hEmpty.symm.trans hSome
    | false =>
      have hNested (s : ParseState I σ) := h.nested_iff syn hLogic ⟨input, state⟩ s hStart
      rw [if_neg Bool.false_ne_true]
      constructor
      · rintro ⟨hOk, hQuiet⟩
        split at hOk
        · cases hOk
        · next s hRun =>
          split at hOk
          · cases hOk
          · next hUnexpected =>
            cases hOk
            obtain ⟨entries, hListed, hAdmitted, hFinal⟩ := (hNested s).mp ⟨hRun, hQuiet⟩
            exact ⟨entries, .some hArguments hEmpty hListed hUnexpected, hAdmitted, hFinal⟩
      · rintro ⟨entries, hLists, hAdmitted, hFinal⟩
        cases hLists with
        | none hSame hNone =>
          cases hArguments.symm.trans hSame
          cases hEmpty.symm.trans hNone
        | @some _ _ rest hSame hSome hListed hUnexpected =>
          cases hArguments.symm.trans hSame
          obtain ⟨hRun, hQuiet⟩ :=
            (hNested ⟨rest, state'⟩).mpr ⟨entries, hListed, hAdmitted, hFinal⟩
          rw [hRun]
          simp only [hUnexpected]
          exact ⟨trivial, hQuiet⟩

theorem Describes.quiet_of_parse (h : Describes quiet logic item admits step)
    {report : Diagnostic Span → σ → σ}
    (hReport : ∀ diagnostic state, ¬ quiet (report diagnostic state))
    {attrs : List (Attribute I Span)} {state state' : σ}
    (hParse : parseAttributes syn logic hLogic report attrs state = .ok state')
    (hQuiet : quiet state') : quiet state := by
  induction attrs generalizing state with
  | nil =>
    cases hParse
    exact hQuiet
  | cons attr rest ih =>
    rw [parseAttributes] at hParse
    split at hParse
    · next next hRun =>
      have hNext := ih hParse
      exact h.quiet_of_attribute syn hLogic attr state (by rw [hRun]; exact hNext)
    · next diagnostic next hRun => exact absurd (ih hParse) (hReport diagnostic next)
    · cases hParse

/-- **What the attributes of an item read** when nothing is reported. -/
theorem Describes.parse_iff (h : Describes quiet logic item admits step)
    {report : Diagnostic Span → σ → σ}
    (hReport : ∀ diagnostic state, ¬ quiet (report diagnostic state))
    (attrs : List (Attribute I Span)) {state : σ} (state' : σ) (hStart : quiet state) :
    parseAttributes syn logic hLogic report attrs state = .ok state' ∧ quiet state' ↔
      ∃ lists, List.Forall₂ (Attribute.Lists syn item) attrs lists ∧
        Admitted admits step state lists.flatten ∧ state' = lists.flatten.foldl step state := by
  induction attrs generalizing state with
  | nil =>
    constructor
    · rintro ⟨hOk, -⟩
      cases hOk
      exact ⟨[], .nil, trivial, rfl⟩
    · rintro ⟨lists, hLists, -, hFinal⟩
      cases hLists
      exact ⟨congrArg Except.ok hFinal.symm, hFinal ▸ hStart⟩
  | cons attr rest ih =>
    have hAttr (state' : σ) := h.attribute_iff syn hLogic attr state' hStart
    rw [parseAttributes]
    constructor
    · rintro ⟨hOk, hQuiet⟩
      split at hOk
      · next next hRun =>
        have hNext := h.quiet_of_parse syn hLogic hReport hOk hQuiet
        obtain ⟨entries, hLists, hAdmitted, hState⟩ := (hAttr next).mp ⟨hRun, hNext⟩
        obtain ⟨lists, hRest, hAdmittedRest, hFinal⟩ := (ih hNext).mp ⟨hOk, hQuiet⟩
        rw [hState] at hAdmittedRest hFinal
        refine ⟨entries :: lists, .cons hLists hRest, ?_, ?_⟩
        · exact admitted_append.mpr ⟨hAdmitted, hAdmittedRest⟩
        · rw [List.flatten_cons, List.foldl_append, hFinal]
      · next diagnostic next hRun =>
        exact absurd (h.quiet_of_parse syn hLogic hReport hOk hQuiet) (hReport diagnostic next)
      · cases hOk
    · rintro ⟨lists, hLists, hAdmitted, hFinal⟩
      obtain ⟨entries, lists, hHead, hRest, rfl⟩ := List.forall₂_cons_left_iff.mp hLists
      rw [List.flatten_cons, admitted_append] at hAdmitted
      rw [List.flatten_cons, List.foldl_append] at hFinal
      obtain ⟨hRun, hNext⟩ := (hAttr _).mpr ⟨entries, hHead, hAdmitted.1, rfl⟩
      rw [hRun]
      exact (ih hNext).mpr ⟨lists, hRest, hAdmitted.2, hFinal⟩

end

/-! ## Panics -/

/-- It does not panic. -/
def Calm (x : EStateM (Abort Span) σ α) : Prop := ∀ s s', x.run s ≠ .error .panicked s'

theorem Calm.bind {β : Type} {x : EStateM (Abort Span) σ α} {f : α → EStateM (Abort Span) σ β}
    (hx : Calm x) (hf : ∀ a, Calm (f a)) : Calm (x >>= f) := by
  intro s s' hRun
  rcases run_bind_eq_error.mp hRun with h | ⟨a, next, -, h⟩
  · exact hx s s' h
  · exact hf a next s' h

theorem Calm.pure (a : α) : Calm (Pure.pure a : EStateM (Abort Span) σ α) :=
  fun _ _ hRun => nomatch hRun

theorem Calm.throw (diagnostic : Diagnostic Span) :
    Calm (throw (.error diagnostic) : EStateM (Abort Span) σ α) := fun _ _ hRun => nomatch hRun

theorem Calm.get : Calm (get : EStateM (Abort Span) σ σ) := fun _ _ hRun => nomatch hRun

theorem Calm.within {x : EStateM (Abort Span) (I) α} (h : Calm x) :
    Calm (within (fun abort => abort) x : EStateM (Abort Span) (ParseState I σ) α) := by
  intro s s' hRun
  rw [Derive.within, run_zoom] at hRun
  split at hRun
  · cases hRun
  · next hPanic =>
    cases hRun
    exact h _ _ hPanic

/-- The parsers of `syn` return. -/
theorem calm_within (p : Parser I Span α) :
    Calm (within .error p : EStateM (Abort Span) (ParseState I σ) α) := by
  intro s s' hRun
  rw [within, run_zoom] at hRun
  split at hRun <;> cases hRun

theorem calm_loop {logic : Logic I Span σ} (hLogic : ∀ path, Keeps syn.ReadsOn (logic path))
    (hCalm : ∀ path, Calm (logic path)) (s s' : ParseState I σ) :
    (syn.nested logic hLogic).loop s ≠ .error .panicked s' := by
  intro hRun
  refine Separated.loop_eq_error (P := fun e => e ≠ .panicked) ?_ ?_ ?_ hRun rfl
  · rintro s _ s' hHead rfl
    exact calm_within syn.metaPath s s' hHead
  · rintro path s _ s' hBody rfl
    exact hCalm path s s' hBody
  · rintro s _ s' hSeparator rfl
    exact calm_within (syn.punct ',') s s' hSeparator

/-- **Attributes are parsed** to their end when the closure does not panic. -/
theorem calm_parse {logic : Logic I Span σ} (hLogic : ∀ path, Keeps syn.ReadsOn (logic path))
    (hCalm : ∀ path, Calm (logic path)) (report : Diagnostic Span → σ → σ)
    (attrs : List (Attribute I Span)) (state : σ) :
    ∃ state', parseAttributes syn logic hLogic report attrs state = .ok state' := by
  induction attrs generalizing state with
  | nil => exact ⟨state, rfl⟩
  | cons attr rest ih =>
    rw [parseAttributes]
    split
    · exact ih _
    · exact ih _
    · next hRun =>
      rw [syn.parseNestedMeta_eq] at hRun
      split at hRun
      · cases hRun
      · split at hRun
        · cases hRun
        · split at hRun
          · next s hFailed =>
            cases hRun
            exact absurd hFailed (calm_loop syn hLogic hCalm _ _)
          · split at hRun <;> cases hRun

end Cryptbox.Derive

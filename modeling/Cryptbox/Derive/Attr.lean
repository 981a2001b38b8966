import Cryptbox.Blind.Format
import Cryptbox.Blind.Normalizer
import Cryptbox.Derive.Stream
import Cryptbox.Padding

/-!
# Helper attributes

`attr.rs` of the derive crate: the entries of `#[cryptbox(…)]` on a seal or an index spec. An
error in one entry is collected, and the parser goes on behind the next comma.

* `readEntry_valid`: a value that is read passes the checks of the library.
* `Attrs.describes`: what the closure does while nothing is reported.
* `Attrs.parse_iff`: the attributes without an error list distinct keys, and what is kept of them.
* `Attrs.parse_total`: the parser does not panic.
-/

namespace Cryptbox.Derive

open Base Base.Parsing

variable {I Span Path Meta : Type}

/-! ## Keys -/

/-- Every key of the helper attributes. Each attribute accepts a subset. -/
inductive Key where
  | id
  | value
  | codec
  | padding
  | sealType
  | bits
  | query
  | normalize
  | normalizer
  | transparent
  deriving DecidableEq, Repr

namespace Key

def all : List Key :=
  [.id, .value, .codec, .padding, .sealType, .bits, .query, .normalize, .normalizer, .transparent]

def name : Key → String
  | .id => "id"
  | .value => "value"
  | .codec => "codec"
  | .padding => "padding"
  | .sealType => "seal"
  | .bits => "bits"
  | .query => "query"
  | .normalize => "normalize"
  | .normalizer => "normalizer"
  | .transparent => "transparent"

theorem mem_all (key : Key) : key ∈ all := by cases key <;> decide

theorem name_injective : Function.Injective name := by
  intro a b h
  cases a <;> cases b <;> first | rfl | exact absurd h (by decide)

end Key

/-- `key_list`. -/
def keyList (keys : List Key) : String :=
  ", ".intercalate (keys.map fun key => s!"`{key.name}`")

/-! ## Values -/

/-- A padding policy validated at expansion (`Padding` of the derive crate). -/
inductive PaddingLit (Span : Type) where
  | none (span : Span)
  | block (size : LitInt Span)
  | length (len : LitInt Span)

/-- The constant that is emitted; a suffix of another type than `usize` is left to the compiler. -/
def PaddingLit.padding : PaddingLit Span → Result Padding
  | .none _ => .ok .none
  | .block size => Padding.block (UInt64.ofNat size.digits)
  | .length len => Padding.length (UInt64.ofNat len.digits)

section

variable (syn : Syntax I Span Path Meta)

/-- Token trees up to the next comma, of which the spans are kept. -/
def takeTokens (input : I) : EStateM.Result (Diagnostic Span) I (List Span) :=
  if syn.isEmpty input || syn.peek ',' input then .ok [] input
  else match _hRun : syn.tokenTree.run input with
    | .error e rest => .error e rest
    | .ok span rest =>
      match takeTokens rest with
      | .error e rest => .error e rest
      | .ok spans rest => .ok (span :: spans) rest
termination_by syn.size input
decreasing_by exact syn.tokenTree_lt _hRun

/-- `skip_value`. -/
def skipValue : Parser I Span Unit := do
  let _ ← (takeTokens syn : Parser I Span (List Span))

/-- What `parse_uuid` takes: a string literal, or all tokens up to the comma. -/
def takeValue : Parser I Span (Value Span) := do
  if syn.peekLitStr (← get) then return .str (← syn.litStr)
  let spans ← (takeTokens syn : Parser I Span (List Span))
  return .tokens (syn.spanned spans)

/-- A result that does not read on. -/
def settle {α : Type} (result : Except (Diagnostic Span) α) : Parser I Span α :=
  match result with
  | .ok a => return a
  | .error diagnostic => throw diagnostic

/-- `parse_uuid`. -/
def parseUuidTokens (name : String) : Parser I Span (UuidLiteral Span) := do
  settle (parseUuid name (← takeValue syn))

/-- `parse_normalizer`. -/
def parseNormalizer : Parser I Span (LitStr Span) := do
  let literal ← syn.litStr
  if !validNormalizer literal.value then
    throw ⟨literal.span, "`normalizer` must be a versioned name, such as \"email/1\": a name, `/`, and a "
      ++ "version from 1"⟩
  return literal

/-- The parameter of `block` or of `length`. -/
def paddingParameter (policy : Ident Span) : Parser I Span (PaddingLit Span) := do
  let parameter ← syn.litInt
  let value ← settle (syn.base10Parse parameter usizeMax)
  -- The const assertions of the library.
  if policy.text = "block" then
    if value < 2 then throw ⟨parameter.span, "padding block size must be at least 2"⟩
    return .block parameter
  else
    if value < 1 then throw ⟨parameter.span, "fixed padding length must be at least 1"⟩
    return .length parameter

/-- `parse_padding`. -/
def parsePadding : Parser I Span (PaddingLit Span) := do
  let policy ← syn.ident
  if policy.text = "none" then return .none policy.span
  if policy.text ≠ "block" ∧ policy.text ≠ "length" then
    throw ⟨policy.span, "expected `none`, `block(size)`, or `length(len)`"⟩
  parenthesized syn.toParsers id (paddingParameter syn policy)

/-- `parse_bits`. -/
def parseBits : Parser I Span (LitInt Span) := do
  let bits ← syn.litInt
  let value ← settle (syn.base10Parse bits (2 ^ 16 - 1))
  -- The const assertion of the library.
  if ¬ (1 ≤ value ∧ value ≤ 256) then
    throw ⟨bits.span, "blind-index bits must be between 1 and 256"⟩
  return bits

end

/-! ## Entries -/

/-- What an entry sets. -/
inductive Entry (Span Path : Type) where
  | id (literal : UuidLiteral Span)
  | value (ty : Ty Span)
  | codec (ty : Ty Span)
  | padding (padding : PaddingLit Span)
  | sealType (ty : Ty Span)
  | bits (bits : LitInt Span)
  | query (ty : Ty Span)
  | normalize (path : Path)
  | normalizer (literal : LitStr Span)
  | transparent (span : Span)

def Entry.key : Entry Span Path → Key
  | .id _ => .id
  | .value _ => .value
  | .codec _ => .codec
  | .padding _ => .padding
  | .sealType _ => .sealType
  | .bits _ => .bits
  | .query _ => .query
  | .normalize _ => .normalize
  | .normalizer _ => .normalizer
  | .transparent _ => .transparent

/-- A parser of `syn` in one of the derive crate. -/
def lift {α : Type} (p : Parser I Span α) : EStateM (Abort Span) I α :=
  zoom .error (fun input => input) (fun input _ => input) p

/-- `parse_value`: the value of a key. -/
def readEntry (syn : Syntax I Span Path Meta) (key : Key) :
    EStateM (Abort Span) I (Entry Span Path) :=
  match key with
  | .id => Entry.id <$> lift (parseUuidTokens syn key.name)
  | .value => Entry.value <$> lift syn.ty
  | .codec => Entry.codec <$> lift syn.ty
  | .padding => Entry.padding <$> lift (parsePadding syn)
  | .sealType => Entry.sealType <$> lift syn.ty
  | .bits => Entry.bits <$> lift (parseBits syn)
  | .query => Entry.query <$> lift syn.ty
  | .normalize => Entry.normalize <$> lift syn.path
  | .normalizer => Entry.normalizer <$> lift (parseNormalizer syn)
  | .transparent => throw .panicked

/-! ## Attributes -/

/-- The parsed contents of every helper attribute of one name on one item. -/
structure Attrs (Span Path : Type) where
  /-- The attribute's name. -/
  name : String
  id : Option (UuidLiteral Span)
  value : Option (Ty Span)
  codec : Option (Ty Span)
  padding : Option (PaddingLit Span)
  sealType : Option (Ty Span)
  bits : Option (LitInt Span)
  query : Option (Ty Span)
  normalize : Option Path
  normalizer : Option (LitStr Span)
  transparent : Option Span
  /-- The keys that appeared, also with an invalid value. -/
  seen : List Key

/-- The attributes so far, and the errors of the expansion so far. -/
structure Collected (Span Path : Type) where
  attrs : Attrs Span Path
  errors : List (Diagnostic Span)

namespace Attrs

def empty (name : String) : Attrs Span Path :=
  ⟨name, none, none, none, none, none, none, none, none, none, none, []⟩

def set (attrs : Attrs Span Path) : Entry Span Path → Attrs Span Path
  | .id literal => { attrs with id := some literal }
  | .value ty => { attrs with value := some ty }
  | .codec ty => { attrs with codec := some ty }
  | .padding padding => { attrs with padding := some padding }
  | .sealType ty => { attrs with sealType := some ty }
  | .bits bits => { attrs with bits := some bits }
  | .query ty => { attrs with query := some ty }
  | .normalize path => { attrs with normalize := some path }
  | .normalizer literal => { attrs with normalizer := some literal }
  | .transparent span => { attrs with transparent := some span }

def see (attrs : Attrs Span Path) (key : Key) : Attrs Span Path :=
  { attrs with seen := attrs.seen ++ [key] }

end Attrs

namespace Collected

/-- `errors.push(error)`. -/
def push (diagnostic : Diagnostic Span) (collected : Collected Span Path) : Collected Span Path :=
  { collected with errors := collected.errors ++ [diagnostic] }

end Collected

/-- A change of what the closure collects. -/
def modifyState {σ : Type} (f : σ → σ) : EStateM (Abort Span) (ParseState I σ) Unit :=
  fun s => .ok () { s with state := f s.state }

/-- The result of `x`, which is an error or not. -/
def attempt {σ α : Type} (x : EStateM (Abort Span) σ α) :
    EStateM (Abort Span) σ (Except (Diagnostic Span) α) := fun s =>
  match x.run s with
  | .ok a s' => .ok (.ok a) s'
  | .error (.error diagnostic) s' => .ok (.error diagnostic) s'
  | .error .panicked s' => .error .panicked s'

namespace Attrs

variable (syn : Syntax I Span Path Meta)

/-- The value of an entry whose key is accepted. -/
def parseEntry (path : MetaPath Span) (key : Key) :
    EStateM (Abort Span) (ParseState I (Collected Span Path)) Unit := do
  let s ← get
  if key = .transparent then
    if syn.isEmpty s.input || syn.peek ',' s.input then
      modifyState fun collected =>
        { collected with attrs := collected.attrs.set (.transparent path.span) }
    else throw (.error ⟨path.span, "`transparent` takes no value"⟩)
  else if !syn.peek '=' s.input then
    throw (.error ⟨path.span, s!"`{key.name}` needs a value: `{key.name} = …`"⟩)
  else
    within .error (syn.punct '=')
    let entry ← within (fun abort => abort) (readEntry syn key)
    modifyState fun collected => { collected with attrs := collected.attrs.set entry }

/-- The closure of `Attrs::parse`. -/
def logic (name : String) (keys : List Key) : Logic I Span (Collected Span Path) := fun path => do
  match (Key.all.filter fun key => keys.contains key).find? fun key => path.isIdent key.name with
  | none =>
    modifyState (Collected.push ⟨path.span,
      s!"unknown `{name}` key `{path.text}`; expected one of {keyList keys}"⟩)
    within .error (skipValue syn)
  | some key =>
    if (← get).state.attrs.seen.contains key then
      modifyState (Collected.push ⟨path.span, s!"duplicate `{name}` key `{key.name}`"⟩)
      within .error (skipValue syn)
    else
      modifyState fun collected => { collected with attrs := collected.attrs.see key }
      match ← attempt (parseEntry syn path key) with
      | .ok () => return ()
      | .error diagnostic =>
        modifyState (Collected.push diagnostic)
        within .error (skipValue syn)

end Attrs

/-! ## What is consumed -/

section

variable {σ α β : Type} {R : σ → σ → Prop}

theorem run_attempt (x : EStateM (Abort Span) σ α) (s : σ) :
    (attempt x).run s = match x.run s with
      | .ok a s' => EStateM.Result.ok (Except.ok a) s'
      | .error (Abort.error diagnostic) s' => EStateM.Result.ok (Except.error diagnostic) s'
      | .error Abort.panicked s' => EStateM.Result.error Abort.panicked s' := rfl

theorem Keeps.attempt {x : EStateM (Abort Span) σ α} (h : Keeps R x) : Keeps R (attempt x) := by
  intro s
  rw [run_attempt]
  split
  · next hRun => exact h.ok hRun
  · next hRun => exact h.error hRun
  · next hRun => exact h.error hRun

end

theorem run_lift {α : Type} (p : Parser I Span α) (input : I) :
    (lift p).run input = match p.run input with
      | .ok a rest => EStateM.Result.ok a rest
      | .error diagnostic rest => EStateM.Result.error (Abort.error diagnostic) rest := by
  rw [lift, run_zoom]
  cases p.run input <;> rfl

section

variable {R : I → I → Prop} {α : Type}

theorem lift_keeps {p : Parser I Span α} (h : Keeps R p) : Keeps R (lift p) := by
  intro input
  rw [run_lift]
  split
  · next hRun => exact h.ok hRun
  · next hRun => exact h.error hRun

theorem get_keeps [Std.Refl R] : Keeps R (get : Parser I Span I) := fun input => Std.Refl.refl input

theorem settle_keeps [Std.Refl R] (result : Except (Diagnostic Span) α) :
    Keeps R (settle result : Parser I Span α) := by
  cases result with
  | ok a => exact Keeps.pure a
  | error diagnostic => exact Keeps.throw diagnostic

end

section

variable (syn : Syntax I Span Path Meta)

/-- Token trees are left behind, also those before one that fails. -/
theorem takeTokens_keeps :
    Keeps (Shorter syn.size) (takeTokens syn : Parser I Span (List Span)) := by
  intro input
  show syn.size (left (takeTokens syn input)) ≤ syn.size input
  fun_induction takeTokens syn input with
  | case1 input hEnd => exact Nat.le_refl _
  | case2 input hMore e rest hRun => exact syn.tokenTree_keeps.error hRun
  | case3 input hMore span rest hRun e last hRest ih =>
    rw [hRest] at ih
    exact ih.trans (syn.tokenTree_keeps.ok hRun)
  | case4 input hMore span rest hRun spans last hRest ih =>
    rw [hRest] at ih
    exact ih.trans (syn.tokenTree_keeps.ok hRun)

theorem skipValue_keeps : Keeps (Shorter syn.size) (skipValue syn) :=
  (takeTokens_keeps syn).bind fun _ => Keeps.pure ()

theorem takeValue_keeps : Keeps (Shorter syn.size) (takeValue syn) := by
  refine get_keeps.bind fun input => ?_
  split
  · exact syn.litStr_keeps.bind fun literal => Keeps.pure _
  · exact (takeTokens_keeps syn).bind fun spans => Keeps.pure _

theorem parseUuidTokens_keeps (name : String) :
    Keeps (Shorter syn.size) (parseUuidTokens syn name) :=
  (takeValue_keeps syn).bind fun _ => settle_keeps _

theorem parseNormalizer_keeps : Keeps (Shorter syn.size) (parseNormalizer syn) := by
  refine syn.litStr_keeps.bind fun literal => ?_
  split
  · exact Keeps.throw _
  · exact Keeps.pure _

theorem parsePadding_keeps : Keeps (Shorter syn.size) (parsePadding syn) := by
  refine syn.ident_keeps.bind fun policy => ?_
  split
  · exact Keeps.pure _
  · split
    · exact Keeps.throw _
    · exact parenthesized_keeps syn.toParsers id _

theorem parseBits_keeps : Keeps (Shorter syn.size) (parseBits syn) := by
  refine syn.litInt_keeps.bind fun bits => (settle_keeps _).bind fun _ => ?_
  split
  · exact Keeps.throw _
  · exact Keeps.pure _

theorem readEntry_keeps (key : Key) : Keeps (Shorter syn.size) (readEntry syn key) := by
  have hTy := lift_keeps syn.ty_keeps
  cases key with
  | id => exact Keeps.map (lift_keeps (parseUuidTokens_keeps syn _)) _
  | value => exact Keeps.map hTy _
  | codec => exact Keeps.map hTy _
  | padding => exact Keeps.map (lift_keeps (parsePadding_keeps syn)) _
  | sealType => exact Keeps.map hTy _
  | bits => exact Keeps.map (lift_keeps (parseBits_keeps syn)) _
  | query => exact Keeps.map hTy _
  | normalize => exact Keeps.map (lift_keeps syn.path_keeps) _
  | normalizer => exact Keeps.map (lift_keeps (parseNormalizer_keeps syn)) _
  | transparent => exact Keeps.throw _

end

theorem modifyState_keeps {σ : Type} (size : I → Nat) (f : σ → σ) :
    Keeps (Shorter fun s => size s.input)
      (modifyState f : EStateM (Abort Span) (ParseState I σ) Unit) :=
  fun s => Nat.le_refl (size s.input)

namespace Attrs

variable (syn : Syntax I Span Path Meta)

theorem parseEntry_keeps (path : MetaPath Span) (key : Key) :
    Keeps syn.ReadsOn (parseEntry syn path key) := by
  have hGet : Keeps syn.ReadsOn
      (get : EStateM (Abort Span) (ParseState I (Collected Span Path)) _) :=
    fun s => Nat.le_refl (syn.size s.input)
  refine hGet.bind fun s => ?_
  split
  · split
    · exact modifyState_keeps _ _
    · exact Keeps.throw _
  · split
    · exact Keeps.throw _
    · refine (within_keeps (syn.punct_keeps '=')).bind fun _ => ?_
      exact (within_keeps (readEntry_keeps syn key)).bind fun entry => modifyState_keeps _ _

theorem logic_keeps (name : String) (keys : List Key) (path : MetaPath Span) :
    Keeps syn.ReadsOn (logic syn name keys path) := by
  have hReport (diagnostic : Diagnostic Span) : Keeps syn.ReadsOn
      (do modifyState (Collected.push diagnostic); within .error (skipValue syn) :
        EStateM (Abort Span) (ParseState I (Collected Span Path)) Unit) :=
    (modifyState_keeps _ _).bind fun _ => within_keeps (skipValue_keeps syn)
  unfold logic
  split
  · exact hReport _
  · next key _ =>
    have hGet : Keeps syn.ReadsOn
        (get : EStateM (Abort Span) (ParseState I (Collected Span Path)) _) :=
      fun s => Nat.le_refl (syn.size s.input)
    refine hGet.bind fun s => ?_
    split
    · exact hReport _
    · refine (modifyState_keeps _ _).bind fun _ => ?_
      refine (Keeps.attempt (parseEntry_keeps syn path key)).bind fun result => ?_
      cases result with
      | ok _ => exact Keeps.pure ()
      | error diagnostic => exact hReport _

/-- `Attrs::parse`: the attributes of this name, for these keys. -/
def parse (attrs : List (Attribute I Span)) (name : String) (keys : List Key)
    (errors : List (Diagnostic Span)) : Result (Collected Span Path) :=
  parseAttributes syn (logic syn name keys) (logic_keeps syn name keys) Collected.push
    (attrs.filter fun attr => attr.path.isIdent name) ⟨empty name, errors⟩

end Attrs

/-! ## What is read -/

/-- What an entry reads behind the path that names its key. -/
inductive ReadsValue (syn : Syntax I Span Path Meta) (path : MetaPath Span) :
    Key → I → Entry Span Path → I → Prop
  | flag {input : I} (hEnd : (syn.isEmpty input || syn.peek ',' input) = true) :
      ReadsValue syn path .transparent input (.transparent path.span) input
  | value {key : Key} {input afterEquals rest : I} {entry : Entry Span Path}
      (hKey : key ≠ .transparent) (hEquals : (syn.punct '=').run input = .ok () afterEquals)
      (hRead : (readEntry syn key).run afterEquals = .ok entry rest) :
      ReadsValue syn path key input entry rest

/-- An entry for one of these keys. -/
def ReadsEntry (syn : Syntax I Span Path Meta) (keys : List Key) (path : MetaPath Span)
    (input : I) (entry : Entry Span Path) (rest : I) : Prop :=
  ∃ key ∈ keys, path.ident = some key.name ∧ ReadsValue syn path key input entry rest

theorem run_lift_eq_ok {α : Type} {p : Parser I Span α} {input rest : I} {a : α} :
    (lift p).run input = .ok a rest ↔ p.run input = .ok a rest := by
  rw [run_lift]
  cases p.run input <;> simp

theorem readEntry_key {syn : Syntax I Span Path Meta} {key : Key} {input rest : I}
    {entry : Entry Span Path} (h : (readEntry syn key).run input = .ok entry rest) :
    entry.key = key := by
  cases key with
  | transparent => cases h
  | _ =>
    obtain ⟨value, -, rfl⟩ := run_map_eq_ok.mp h
    rfl

/-- The library takes the value: its checks are evaluated where the constant is used. -/
def Entry.Valid : Entry Span Path → Prop
  | .padding literal => ∃ padding, literal.padding = .ok padding
  | .bits literal => validBits literal.digits = true
  | .normalizer literal => Cryptbox.validNormalizer literal.value = .ok true
  | _ => True

theorem run_settle {α : Type} {result : Except (Diagnostic Span) α} {input rest : I} {a : α}
    (h : (settle result).run input = .ok a rest) : result = .ok a := by
  cases result with
  | ok b =>
    cases h
    rfl
  | error diagnostic => cases h

section

variable {syn : Syntax I Span Path Meta} {input rest : I}

theorem parseNormalizer_valid {literal : LitStr Span}
    (h : (parseNormalizer syn).run input = .ok literal rest) :
    Cryptbox.validNormalizer literal.value = .ok true := by
  obtain ⟨read, afterRead, -, h⟩ := run_bind_eq_ok.mp h
  split at h
  · cases h
  · next hValid =>
    cases h
    rw [validNormalizer_eq]
    exact congrArg Except.ok (by simpa using hValid)

theorem parseBits_valid {bits : LitInt Span} (h : (parseBits syn).run input = .ok bits rest) :
    validBits bits.digits = true := by
  obtain ⟨read, afterRead, -, h⟩ := run_bind_eq_ok.mp h
  obtain ⟨value, afterValue, hValue, h⟩ := run_bind_eq_ok.mp h
  obtain ⟨-, rfl, -⟩ := (syn.base10Parse_eq_ok _ _ _).mp (run_settle hValue)
  split at h
  · cases h
  · next hRange =>
    cases h
    exact decide_eq_true (not_not.mp hRange)

theorem paddingParameter_valid {policy : Ident Span} {literal : PaddingLit Span}
    (h : (paddingParameter syn policy).run input = .ok literal rest) :
    ∃ padding, literal.padding = .ok padding := by
  obtain ⟨parameter, afterParameter, -, h⟩ := run_bind_eq_ok.mp h
  obtain ⟨value, afterValue, hValue, h⟩ := run_bind_eq_ok.mp h
  obtain ⟨-, rfl, hMax⟩ := (syn.base10Parse_eq_ok _ _ _).mp (run_settle hValue)
  -- The literal is the number that the constant is given.
  have hDigits : (UInt64.ofNat parameter.digits).toNat = parameter.digits := by
    have hSize : usizeMax < UInt64.size := by decide
    exact UInt64.toNat_ofNat_of_lt' (by omega)
  split at h
  · split at h
    · cases h
    · next hSize =>
      cases h
      have hAtLeast : 2 ≤ (UInt64.ofNat parameter.digits).toNat := by omega
      exact ⟨⟨.block _, hAtLeast⟩, dif_pos hAtLeast⟩
  · split at h
    · cases h
    · next hLength =>
      cases h
      have hAtLeast : 1 ≤ (UInt64.ofNat parameter.digits).toNat := by omega
      exact ⟨⟨.length _, hAtLeast⟩, dif_pos hAtLeast⟩

theorem parenthesized_eq_ok {δ α : Type} {wrap : Diagnostic Span → δ} {read : EStateM δ I α} {a : α}
    (h : (parenthesized syn.toParsers wrap read).run input = .ok a rest) :
    ∃ inner afterInner, read.run inner = .ok a afterInner := by
  simp only [EStateM.run, parenthesized] at h
  split at h
  · cases h
  · split at h
    · next hRead =>
      cases h
      exact ⟨_, _, hRead⟩
    · cases h

theorem parsePadding_valid {literal : PaddingLit Span}
    (h : (parsePadding syn).run input = .ok literal rest) :
    ∃ padding, literal.padding = .ok padding := by
  obtain ⟨policy, afterPolicy, -, h⟩ := run_bind_eq_ok.mp h
  split at h
  · cases h
    exact ⟨.none, rfl⟩
  · split at h
    · cases h
    · obtain ⟨inner, afterInner, hInner⟩ := parenthesized_eq_ok h
      exact paddingParameter_valid hInner

end

/-- **A value that is read** passes the checks of the library. -/
theorem readEntry_valid {syn : Syntax I Span Path Meta} {key : Key} {input rest : I}
    {entry : Entry Span Path} (h : (readEntry syn key).run input = .ok entry rest) :
    entry.Valid := by
  cases key with
  | transparent => cases h
  | padding =>
    obtain ⟨literal, hRun, rfl⟩ := run_map_eq_ok.mp h
    exact parsePadding_valid (run_lift_eq_ok.mp hRun)
  | bits =>
    obtain ⟨bits, hRun, rfl⟩ := run_map_eq_ok.mp h
    exact parseBits_valid (run_lift_eq_ok.mp hRun)
  | normalizer =>
    obtain ⟨literal, hRun, rfl⟩ := run_map_eq_ok.mp h
    exact parseNormalizer_valid (run_lift_eq_ok.mp hRun)
  | _ =>
    obtain ⟨value, -, rfl⟩ := run_map_eq_ok.mp h
    trivial

theorem ReadsEntry.valid {syn : Syntax I Span Path Meta} {keys : List Key} {path : MetaPath Span}
    {input rest : I} {entry : Entry Span Path}
    (h : ReadsEntry syn keys path input entry rest) : entry.Valid := by
  obtain ⟨key, -, -, hValue⟩ := h
  cases hValue with
  | flag => trivial
  | value _ _ hRead => exact readEntry_valid hRead

theorem ReadsValue.key_eq {syn : Syntax I Span Path Meta} {path : MetaPath Span} {key : Key}
    {input rest : I} {entry : Entry Span Path}
    (h : ReadsValue syn path key input entry rest) : entry.key = key := by
  cases h with
  | flag => rfl
  | value _ _ hRead => exact readEntry_key hRead

theorem ReadsEntry.key_mem {syn : Syntax I Span Path Meta} {keys : List Key} {path : MetaPath Span}
    {input rest : I} {entry : Entry Span Path}
    (h : ReadsEntry syn keys path input entry rest) : entry.key ∈ keys := by
  obtain ⟨key, hKey, -, hValue⟩ := h
  rwa [hValue.key_eq]

theorem run_modifyState {σ : Type} (f : σ → σ) (s : ParseState I σ) :
    (modifyState f : EStateM (Abort Span) (ParseState I σ) Unit).run s =
      .ok () { s with state := f s.state } := rfl

/-- The value of an entry is set when it is read. -/
theorem Attrs.parseEntry_eq_ok (syn : Syntax I Span Path Meta) (path : MetaPath Span) (key : Key)
    {s s' : ParseState I (Collected Span Path)} :
    (Attrs.parseEntry syn path key).run s = .ok () s' ↔
      ∃ entry, ReadsValue syn path key s.input entry s'.input ∧
        s'.state = { s.state with attrs := s.state.attrs.set entry } := by
  obtain ⟨input, state⟩ := s
  obtain ⟨input', state'⟩ := s'
  have hGet : (get : EStateM (Abort Span) (ParseState I (Collected Span Path)) _).run
      ⟨input, state⟩ = .ok ⟨input, state⟩ ⟨input, state⟩ := rfl
  unfold Attrs.parseEntry
  rw [run_bind, hGet]
  dsimp only
  split_ifs with hKey hEnd hEquals
  · subst hKey
    rw [run_modifyState]
    constructor
    · intro h
      cases h
      exact ⟨_, .flag hEnd, rfl⟩
    · rintro ⟨entry, hReads, rfl⟩
      cases hReads with
      | flag => rfl
      | value hNot => exact absurd rfl hNot
  · refine iff_of_false (fun h => nomatch h) ?_
    rintro ⟨entry, hReads, -⟩
    subst hKey
    cases hReads with
    | flag hEnd' => exact hEnd hEnd'
    | value hNot => exact hNot rfl
  · refine iff_of_false (fun h => nomatch h) ?_
    rintro ⟨entry, hReads, -⟩
    cases hReads with
    | flag => exact hKey rfl
    | value _ hRun =>
      rw [(syn.peek_iff _ _).mpr ⟨_, hRun⟩] at hEquals
      cases hEquals
  · rw [run_bind_eq_ok]
    constructor
    · rintro ⟨_, afterEquals, hRun, h⟩
      obtain ⟨entry, afterValue, hRead, h⟩ := run_bind_eq_ok.mp h
      obtain ⟨hEquals, hState⟩ := within_eq_ok.mp hRun
      obtain ⟨hRead, hState'⟩ := within_eq_ok.mp hRead
      rw [run_modifyState] at h
      cases h
      exact ⟨entry, .value hKey hEquals hRead, by rw [hState', hState]⟩
    · rintro ⟨entry, hReads, rfl⟩
      cases hReads with
      | flag => exact absurd rfl hKey
      | value _ hEquals hRead =>
        exact ⟨(), _, run_within hEquals state, run_bind_eq_ok.mpr
          ⟨entry, _, run_within hRead state, rfl⟩⟩

/-! ## What the closure does -/

/-- Nothing is reported. -/
def Collected.Quiet (collected : Collected Span Path) : Prop := collected.errors = []

/-- A key that has not appeared. -/
def Collected.Admits (collected : Collected Span Path) (entry : Entry Span Path) : Prop :=
  entry.key ∉ collected.attrs.seen

/-- The entry is kept. -/
def Collected.step (collected : Collected Span Path) (entry : Entry Span Path) :
    Collected Span Path :=
  { collected with attrs := (collected.attrs.see entry.key).set entry }

theorem MetaPath.isIdent_iff {path : MetaPath Span} {name : String} :
    path.isIdent name = true ↔ path.ident = some name := beq_iff_eq

theorem find_key {keys : List Key} {path : MetaPath Span} {key : Key} :
    ((Key.all.filter fun key => keys.contains key).find? fun key => path.isIdent key.name)
        = some key ↔ key ∈ keys ∧ path.ident = some key.name := by
  have hMem (key : Key) : key ∈ Key.all.filter (fun key => keys.contains key) ↔ key ∈ keys := by
    rw [List.mem_filter, List.contains_iff_mem]
    exact and_iff_right key.mem_all
  constructor
  · intro h
    have hIdent := List.find?_some h
    exact ⟨(hMem key).mp (List.mem_of_find?_eq_some h), MetaPath.isIdent_iff.mp hIdent⟩
  · rintro ⟨hKey, hPath⟩
    cases hFind : (Key.all.filter fun key => keys.contains key).find? fun key =>
        path.isIdent key.name with
    | none =>
      exact absurd (MetaPath.isIdent_iff.mpr hPath)
        (List.find?_eq_none.mp hFind key ((hMem key).mpr hKey))
    | some found =>
      have hFound := List.find?_some hFind
      rw [MetaPath.isIdent_iff, hPath] at hFound
      rw [Key.name_injective (Option.some.inj hFound)]

theorem not_quiet_push (diagnostic : Diagnostic Span) (collected : Collected Span Path) :
    ¬ (collected.push diagnostic).Quiet := by
  intro h
  cases List.append_eq_nil_iff.mp h |>.2

/-- An entry whose error is reported is not quiet, also when the rest of it does not parse. -/
theorem left_report (syn : Syntax I Span Path Meta) (diagnostic : Diagnostic Span)
    (s : ParseState I (Collected Span Path)) :
    ¬ (left ((do modifyState (Collected.push diagnostic); within .error (skipValue syn) :
      EStateM (Abort Span) (ParseState I (Collected Span Path)) Unit).run s)).state.Quiet := by
  rw [run_bind, run_modifyState]
  dsimp only
  rw [within_state]
  exact not_quiet_push diagnostic s.state

theorem run_report {syn : Syntax I Span Path Meta} {diagnostic : Diagnostic Span}
    {s s' : ParseState I (Collected Span Path)}
    (h : (do modifyState (Collected.push diagnostic); within .error (skipValue syn) :
      EStateM (Abort Span) (ParseState I (Collected Span Path)) Unit).run s = .ok () s') :
    ¬ s'.state.Quiet := by
  have hLeft := left_report syn diagnostic s
  rwa [h] at hLeft

section

variable (syn : Syntax I Span Path Meta)

theorem quieter_of_errors {α : Type}
    {x : EStateM (Abort Span) (ParseState I (Collected Span Path)) α}
    (h : ∀ s, (left (x.run s)).state.errors = s.state.errors) :
    Keeps (Quieter Collected.Quiet) x := fun s hQuiet => (h s).symm.trans hQuiet

theorem quieter_report (diagnostic : Diagnostic Span) :
    Keeps (Quieter Collected.Quiet)
      (do modifyState (Collected.push diagnostic); within .error (skipValue syn) :
        EStateM (Abort Span) (ParseState I (Collected Span Path)) Unit) :=
  fun s hQuiet => absurd hQuiet (left_report syn diagnostic s)

theorem Attrs.parseEntry_quieter (path : MetaPath Span) (key : Key) :
    Keeps (Quieter Collected.Quiet) (Attrs.parseEntry syn path key) := by
  have hWithin {δ α : Type} (wrap : δ → Abort Span) (p : EStateM δ (I) α) :
      Keeps (Quieter Collected.Quiet)
        (within wrap p : EStateM _ (ParseState I (Collected Span Path)) α) :=
    quieter_of_errors fun s => congrArg Collected.errors (within_state s)
  have hSet (f : Collected Span Path → Entry Span Path) : Keeps (Quieter Collected.Quiet)
      (modifyState fun collected : Collected Span Path =>
        { collected with attrs := collected.attrs.set (f collected) } :
        EStateM (Abort Span) (ParseState I (Collected Span Path)) Unit) :=
    quieter_of_errors fun s => rfl
  refine (quieter_of_errors fun s => rfl : Keeps (Quieter Collected.Quiet) get).bind fun s => ?_
  split
  · split
    · exact hSet _
    · exact Keeps.throw _
  · split
    · exact Keeps.throw _
    · exact (hWithin _ _).bind fun _ => (hWithin _ _).bind fun entry => hSet _

theorem Attrs.logic_quieter (name : String) (keys : List Key) (path : MetaPath Span) :
    Keeps (Quieter Collected.Quiet) (Attrs.logic syn name keys path) := by
  unfold Attrs.logic
  split
  · exact quieter_report syn _
  · next key _ =>
    refine (quieter_of_errors fun s => rfl : Keeps (Quieter Collected.Quiet) get).bind fun s => ?_
    split
    · exact quieter_report syn _
    · refine (quieter_of_errors fun s => rfl : Keeps (Quieter Collected.Quiet)
        (modifyState fun collected : Collected Span Path =>
          { collected with attrs := collected.attrs.see key } :
          EStateM (Abort Span) (ParseState I (Collected Span Path)) Unit)).bind fun _ => ?_
      refine (Keeps.attempt (Attrs.parseEntry_quieter syn path key)).bind fun result => ?_
      cases result with
      | ok _ => exact Keeps.pure ()
      | error diagnostic => exact quieter_report syn _

/-- **What the closure does** while nothing is reported: it keeps an entry for a new key. -/
theorem Attrs.describes (name : String) (keys : List Key) :
    Describes Collected.Quiet (Attrs.logic syn name keys) (ReadsEntry syn keys)
      (Collected.Admits : Collected Span Path → _) Collected.step where
  keeps := Attrs.logic_quieter syn name keys
  iff {path s s'} hStart := by
    unfold Attrs.logic
    split
    · next hNone =>
      refine iff_of_false (fun ⟨hRun, hQuiet⟩ => run_report hRun hQuiet) ?_
      rintro ⟨entry, ⟨key, hKey, hPath, -⟩, -⟩
      cases hNone.symm.trans (find_key.mpr ⟨hKey, hPath⟩)
    · next key hSome =>
      obtain ⟨hKey, hPath⟩ := find_key.mp hSome
      have hSame {key' : Key} (h : path.ident = some key'.name) : key' = key :=
        Key.name_injective (Option.some.inj (h.symm.trans hPath))
      have hGet : (get : EStateM (Abort Span) (ParseState I (Collected Span Path)) _).run s
          = .ok s s := rfl
      rw [run_bind, hGet]
      dsimp only
      split
      · next hSeen =>
        refine iff_of_false (fun ⟨hRun, hQuiet⟩ => run_report hRun hQuiet) ?_
        rintro ⟨entry, ⟨key', -, hPath', hReads⟩, hAdmits, -⟩
        rw [List.contains_iff_mem, ← hSame hPath', ← hReads.key_eq] at hSeen
        exact hAdmits hSeen
      · next hSeen =>
        let seen : ParseState I (Collected Span Path) :=
          ⟨s.input, { s.state with attrs := s.state.attrs.see key }⟩
        -- The entry is read in the state that has seen its key.
        have hEntry : (∃ entry, ReadsEntry syn keys path s.input entry s'.input ∧
            s.state.Admits entry ∧ s'.state = s.state.step entry) ↔
              (Attrs.parseEntry syn path key).run seen = .ok () s' := by
          rw [Attrs.parseEntry_eq_ok]
          refine exists_congr fun entry => ?_
          constructor
          · rintro ⟨⟨key', -, hPath', hReads⟩, -, hState⟩
            obtain rfl := hSame hPath'
            exact ⟨hReads, by rw [hState, Collected.step, hReads.key_eq]⟩
          · rintro ⟨hReads, hState⟩
            refine ⟨⟨key, hKey, hPath, hReads⟩, fun hMem => hSeen ?_, ?_⟩
            · rw [List.contains_iff_mem, ← hReads.key_eq]
              exact hMem
            · rw [hState, Collected.step, hReads.key_eq]
        rw [hEntry, run_bind, run_modifyState]
        dsimp only
        rw [run_bind, run_attempt]
        cases hRun : (Attrs.parseEntry syn path key).run seen with
        | ok _ next =>
          refine ⟨fun h => h.1, fun h => ⟨h, ?_⟩⟩
          have hQuiet := ((Attrs.parseEntry_eq_ok syn path key).mp (hRun.trans h))
          obtain ⟨entry, -, hState⟩ := hQuiet
          rw [hState]
          exact hStart
        | error abort next =>
          refine iff_of_false (fun ⟨hFailed, hQuiet⟩ => ?_) (fun h => nomatch h)
          cases abort with
          | error diagnostic => exact run_report hFailed hQuiet
          | panicked => cases hFailed

end

/-! ## What is kept -/

namespace Attrs

/-- The attributes that keep these entries. -/
def of (name : String) (entries : List (Entry Span Path)) : Attrs Span Path :=
  entries.foldl (fun attrs entry => (attrs.see entry.key).set entry) (empty name)

/-- The entry of a key. -/
def get (attrs : Attrs Span Path) : Key → Option (Entry Span Path)
  | .id => attrs.id.map .id
  | .value => attrs.value.map .value
  | .codec => attrs.codec.map .codec
  | .padding => attrs.padding.map .padding
  | .sealType => attrs.sealType.map .sealType
  | .bits => attrs.bits.map .bits
  | .query => attrs.query.map .query
  | .normalize => attrs.normalize.map .normalize
  | .normalizer => attrs.normalizer.map .normalizer
  | .transparent => attrs.transparent.map .transparent

variable {attrs : Attrs Span Path} {entry : Entry Span Path} {key : Key}
  {entries : List (Entry Span Path)} {name : String}

theorem set_seen : (attrs.set entry).seen = attrs.seen := by cases entry <;> rfl

theorem get_set : ((attrs.see entry.key).set entry).get key =
    if entry.key = key then some entry else attrs.get key := by
  cases entry <;> cases key <;> rfl

theorem get_foldl (hKeys : (entries.map Entry.key).Nodup) :
    (entries.foldl (fun attrs entry => (attrs.see entry.key).set entry) attrs).get key =
      (entries.find? fun entry => entry.key = key).or (attrs.get key) := by
  induction entries generalizing attrs with
  | nil => rfl
  | cons first rest ih =>
    obtain ⟨hFirst, hRest⟩ := List.nodup_cons.mp hKeys
    rw [List.foldl_cons, ih hRest, get_set, List.find?_cons]
    by_cases hKey : first.key = key
    · have hNone : rest.find? (fun entry => entry.key = key) = none := by
        rw [List.find?_eq_none]
        intro entry hMem hEntry
        exact hFirst (List.mem_map.mpr ⟨entry, hMem, (of_decide_eq_true hEntry).trans hKey.symm⟩)
      simp [hKey, hNone]
    · simp [hKey]

/-- An entry is kept when it is listed. -/
theorem get_of (hKeys : (entries.map Entry.key).Nodup) :
    (of name entries).get key = some entry ↔ entry ∈ entries ∧ entry.key = key := by
  have hEmpty : (empty name : Attrs Span Path).get key = none := by cases key <;> rfl
  rw [of, get_foldl hKeys, hEmpty, Option.or_none]
  constructor
  · intro h
    have hKey := List.find?_some h
    exact ⟨List.mem_of_find?_eq_some h, of_decide_eq_true hKey⟩
  · rintro ⟨hMem, rfl⟩
    cases hFind : entries.find? fun other => other.key = entry.key with
    | none => exact absurd (decide_eq_true rfl) (List.find?_eq_none.mp hFind entry hMem)
    | some found =>
      have hKey := List.find?_some hFind
      have hFound : found.key = entry.key := of_decide_eq_true hKey
      rw [List.inj_on_of_nodup_map hKeys (List.mem_of_find?_eq_some hFind) hMem hFound]

theorem seen_of : (of name entries).seen = entries.map Entry.key := by
  have hFold (attrs : Attrs Span Path) :
      (entries.foldl (fun attrs entry => (attrs.see entry.key).set entry) attrs).seen =
        attrs.seen ++ entries.map Entry.key := by
    induction entries generalizing attrs with
    | nil => exact (List.append_nil _).symm
    | cons first rest ih =>
      rw [List.foldl_cons, ih, set_seen, List.map_cons, see, List.append_assoc]
      rfl
  exact hFold (empty name)

theorem mem_seen_of (hKeys : (entries.map Entry.key).Nodup) :
    key ∈ (of name entries).seen ↔ (of name entries).get key ≠ none := by
  rw [seen_of, List.mem_map, Option.ne_none_iff_exists']
  exact exists_congr fun entry => (get_of hKeys).symm

/-- A key that appeared has its value. -/
def Whole (attrs : Attrs Span Path) : Prop := ∀ key ∈ attrs.seen, attrs.get key ≠ none

/-- What is kept, in the order of the keys. -/
def kept (attrs : Attrs Span Path) : List (Entry Span Path) := Key.all.filterMap attrs.get

theorem get_key (h : attrs.get key = some entry) : entry.key = key := by
  cases key <;> obtain ⟨value, -, rfl⟩ := Option.map_eq_some_iff.mp h <;> rfl

theorem mem_kept : entry ∈ attrs.kept ↔ attrs.get entry.key = some entry := by
  rw [kept, List.mem_filterMap]
  constructor
  · rintro ⟨key, -, h⟩
    rwa [get_key h]
  · exact fun h => ⟨entry.key, Key.mem_all _, h⟩

theorem kept_nodup (attrs : Attrs Span Path) : attrs.kept.Nodup := by
  have hAll : Key.all.Nodup := by decide
  refine hAll.filterMap ?_
  intro a b entry hA hB
  rw [← get_key hA, ← get_key hB]

theorem kept_keys_nodup (attrs : Attrs Span Path) : (attrs.kept.map Entry.key).Nodup := by
  refine attrs.kept_nodup.map_on ?_
  intro a hA b hB hKey
  rw [mem_kept] at hA hB
  exact Option.some.inj (hA.symm.trans (hKey ▸ hB))

/-- Entries that are written in any order. -/
theorem perm_kept_iff (hKeys : (entries.map Entry.key).Nodup) :
    entries.Perm attrs.kept ↔ ∀ key, (of name entries).get key = attrs.get key := by
  rw [List.perm_ext_iff_of_nodup hKeys.of_map attrs.kept_nodup]
  have hMem (entry : Entry Span Path) :
      entry ∈ entries ↔ (of name entries).get entry.key = some entry := by
    rw [get_of hKeys]
    exact (and_iff_left rfl).symm
  constructor
  · intro h key
    refine Option.ext fun entry => ?_
    constructor
    · intro hGet
      obtain rfl := get_key hGet
      exact mem_kept.mp ((h entry).mp ((hMem entry).mpr hGet))
    · intro hGet
      obtain rfl := get_key hGet
      exact (hMem entry).mp ((h entry).mpr (mem_kept.mpr hGet))
  · intro h entry
    rw [hMem, h, mem_kept]

/-- Attributes that keep the same. -/
theorem get_eq_iff {a b : Attrs Span Path} : (∀ key, a.get key = b.get key) ↔
    (a.id = b.id ∧ a.value = b.value ∧ a.codec = b.codec ∧ a.padding = b.padding ∧
      a.sealType = b.sealType ∧ a.bits = b.bits ∧ a.query = b.query ∧
      a.normalize = b.normalize ∧ a.normalizer = b.normalizer ∧ a.transparent = b.transparent) := by
  have hMap {α : Type} {f : α → Entry Span Path} (hf : Function.Injective f) {x y : Option α}
      (h : x.map f = y.map f) : x = y := Option.map_injective hf h
  constructor
  · intro h
    exact ⟨hMap (fun _ _ => Entry.id.inj) (h .id), hMap (fun _ _ => Entry.value.inj) (h .value),
      hMap (fun _ _ => Entry.codec.inj) (h .codec), hMap (fun _ _ => Entry.padding.inj) (h .padding),
      hMap (fun _ _ => Entry.sealType.inj) (h .sealType), hMap (fun _ _ => Entry.bits.inj) (h .bits),
      hMap (fun _ _ => Entry.query.inj) (h .query),
      hMap (fun _ _ => Entry.normalize.inj) (h .normalize),
      hMap (fun _ _ => Entry.normalizer.inj) (h .normalizer),
      hMap (fun _ _ => Entry.transparent.inj) (h .transparent)⟩
  · rintro ⟨hId, hValue, hCodec, hPadding, hSeal, hBits, hQuery, hNormalize, hNormalizer,
      hTransparent⟩ key
    cases key <;> simp only [get, hId, hValue, hCodec, hPadding, hSeal, hBits, hQuery, hNormalize,
      hNormalizer, hTransparent]

end Attrs

theorem admitted_iff {entries : List (Entry Span Path)} {collected : Collected Span Path} :
    Admitted Collected.Admits Collected.step collected entries ↔
      (entries.map Entry.key).Nodup ∧ ∀ entry ∈ entries, entry.key ∉ collected.attrs.seen := by
  induction entries generalizing collected with
  | nil => simp [Admitted]
  | cons first rest ih =>
    have hSeen : (collected.step first).attrs.seen = collected.attrs.seen ++ [first.key] :=
      Attrs.set_seen
    simp only [Admitted, ih, hSeen, Collected.Admits, List.map_cons, List.nodup_cons,
      List.forall_mem_cons, List.mem_append, List.mem_singleton, not_or, List.mem_map, not_exists,
      not_and]
    constructor
    · rintro ⟨hFirst, hNodup, hRest⟩
      exact ⟨⟨fun entry hMem hKey => (hRest entry hMem).2 hKey, hNodup⟩, hFirst,
        fun entry hMem => (hRest entry hMem).1⟩
    · rintro ⟨⟨hNew, hNodup⟩, hFirst, hRest⟩
      exact ⟨hFirst, hNodup, fun entry hMem => ⟨hRest entry hMem, hNew entry hMem⟩⟩

theorem foldl_step (entries : List (Entry Span Path)) (collected : Collected Span Path) :
    entries.foldl Collected.step collected =
      { collected with
        attrs := entries.foldl (fun attrs entry => (attrs.see entry.key).set entry)
          collected.attrs } := by
  induction entries generalizing collected with
  | nil => rfl
  | cons first rest ih => rw [List.foldl_cons, ih, List.foldl_cons, Collected.step]

variable {syn : Syntax I Span Path Meta} {attrs : List (Attribute I Span)} {name : String}
  {keys : List Key}

/-- **The attributes without an error** list distinct keys, and each entry is kept. -/
theorem Attrs.parse_iff {parsed : Attrs Span Path} :
    Attrs.parse syn attrs name keys [] = .ok ⟨parsed, []⟩ ↔
      ∃ lists, List.Forall₂ (Attribute.Lists syn (ReadsEntry syn keys))
          (attrs.filter fun attr => attr.path.isIdent name) lists ∧
        (lists.flatten.map Entry.key).Nodup ∧ parsed = .of name lists.flatten := by
  have hParse := (Attrs.describes syn name keys).parse_iff syn (Attrs.logic_keeps syn name keys)
    not_quiet_push (attrs.filter fun attr => attr.path.isIdent name) ⟨parsed, []⟩
    (rfl : Collected.Quiet ⟨.empty name, []⟩)
  have hQuiet : Collected.Quiet ⟨parsed, []⟩ := rfl
  refine (and_iff_left hQuiet).symm.trans (hParse.trans ?_)
  refine exists_congr fun lists => and_congr_right fun _ => and_congr ?_ ?_
  · rw [admitted_iff]
    exact and_iff_left fun entry _ hMem => nomatch hMem
  · rw [foldl_step]
    exact Collected.mk.injEq .. ▸ and_iff_left rfl

/-- The attributes of this name list these entries, in any order. -/
def Spelled (syn : Syntax I Span Path Meta) (attrs : List (Attribute I Span)) (name : String)
    (keys : List Key) (entries : List (Entry Span Path)) : Prop :=
  ∃ lists, List.Forall₂ (Attribute.Lists syn (ReadsEntry syn keys))
    (attrs.filter fun attr => attr.path.isIdent name) lists ∧ lists.flatten.Perm entries

/-- **The attributes without an error** keep what is spelled, whatever its order and however it is
split over them. -/
theorem Attrs.spelled_iff {kept : Attrs Span Path} :
    (∃ parsed, Attrs.parse syn attrs name keys [] = .ok ⟨parsed, []⟩ ∧
      ∀ key, parsed.get key = kept.get key) ↔ Spelled syn attrs name keys kept.kept := by
  constructor
  · rintro ⟨_, hParse, hKept⟩
    obtain ⟨lists, hLists, hKeys, rfl⟩ := Attrs.parse_iff.mp hParse
    exact ⟨lists, hLists, (perm_kept_iff hKeys).mpr hKept⟩
  · rintro ⟨lists, hLists, hPerm⟩
    have hKeys := (hPerm.map Entry.key).nodup_iff.mpr kept.kept_keys_nodup
    exact ⟨_, Attrs.parse_iff.mpr ⟨lists, hLists, hKeys, rfl⟩, (perm_kept_iff hKeys).mp hPerm⟩

/-- What is spelled passes the checks of the library. -/
theorem Spelled.valid {entries : List (Entry Span Path)} (h : Spelled syn attrs name keys entries) :
    ∀ entry ∈ entries, entry.Valid := by
  obtain ⟨lists, hLists, hPerm⟩ := h
  intro entry hMem
  exact forall_listed syn (fun _ _ _ _ h => h.valid) hLists entry (hPerm.mem_iff.mpr hMem)

/-- Without an error, a key that appeared has its value. -/
theorem Attrs.whole_of_parse {parsed : Attrs Span Path}
    (h : Attrs.parse syn attrs name keys [] = .ok ⟨parsed, []⟩) : parsed.Whole := by
  obtain ⟨lists, -, hKeys, rfl⟩ := Attrs.parse_iff.mp h
  exact fun key => (mem_seen_of hKeys).mp

/-- A key that is not accepted has no value. -/
theorem Attrs.get_of_parse {parsed : Attrs Span Path} {key : Key}
    (h : Attrs.parse syn attrs name keys [] = .ok ⟨parsed, []⟩) (hKey : key ∉ keys) :
    parsed.get key = none := by
  obtain ⟨lists, hLists, hKeys, rfl⟩ := Attrs.parse_iff.mp h
  rw [Option.eq_none_iff_forall_ne_some]
  intro entry hGet
  obtain ⟨hMem, rfl⟩ := (get_of hKeys).mp hGet
  exact hKey (forall_listed syn (fun _ _ _ _ h => h.key_mem) hLists entry hMem)

/-- Errors from before stay. -/
theorem Attrs.parse_errors {errors : List (Diagnostic Span)} {collected : Collected Span Path}
    (h : Attrs.parse syn attrs name keys errors = .ok collected) (hQuiet : collected.Quiet) :
    errors = [] :=
  (Attrs.describes syn name keys).quiet_of_parse syn (Attrs.logic_keeps syn name keys)
    not_quiet_push h hQuiet

/-! ## Panics -/

theorem calm_lift {α : Type} (p : Parser I Span α) : Calm (lift p) := by
  intro input rest hRun
  rw [run_lift] at hRun
  split at hRun <;> cases hRun

theorem calm_map {σ α β : Type} {x : EStateM (Abort Span) σ α} (h : Calm x) (f : α → β) :
    Calm (f <$> x) := h.bind fun a => Calm.pure (f a)

theorem calm_modifyState {σ : Type} (f : σ → σ) :
    Calm (modifyState f : EStateM (Abort Span) (ParseState I σ) Unit) :=
  fun _ _ hRun => nomatch hRun

theorem calm_readEntry {key : Key} (hKey : key ≠ .transparent) : Calm (readEntry syn key) := by
  cases key with
  | transparent => exact absurd rfl hKey
  | _ => exact calm_map (calm_lift _) _

theorem calm_attempt {σ α : Type} {x : EStateM (Abort Span) σ α} (h : Calm x) :
    Calm (attempt x) := by
  intro s s' hRun
  rw [run_attempt] at hRun
  split at hRun
  · cases hRun
  · cases hRun
  · next hPanic => exact h _ _ hPanic

theorem Attrs.calm_parseEntry (path : MetaPath Span) (key : Key) :
    Calm (Attrs.parseEntry syn path key) := by
  refine Calm.get.bind fun s => ?_
  split
  · split
    · exact calm_modifyState _
    · exact Calm.throw _
  · next hKey =>
    split
    · exact Calm.throw _
    · refine (calm_within _).bind fun _ => ?_
      exact (calm_readEntry hKey).within.bind fun entry => calm_modifyState _

/-- **The parser does not panic**: a flag has no value to parse. -/
theorem Attrs.parse_total (syn : Syntax I Span Path Meta) (attrs : List (Attribute I Span))
    (name : String) (keys : List Key) (errors : List (Diagnostic Span)) :
    ∃ collected, Attrs.parse syn attrs name keys errors = .ok collected := by
  refine calm_parse syn (Attrs.logic_keeps syn name keys) (fun path => ?_) _ _ _
  have hReport (diagnostic : Diagnostic Span) :
      Calm (do modifyState (Collected.push diagnostic); within .error (skipValue syn) :
        EStateM (Abort Span) (ParseState I (Collected Span Path)) Unit) :=
    (calm_modifyState _).bind fun _ => calm_within _
  unfold Attrs.logic
  split
  · exact hReport _
  · next key _ =>
    refine Calm.get.bind fun s => ?_
    split
    · exact hReport _
    · refine (calm_modifyState _).bind fun _ => ?_
      refine (calm_attempt (Attrs.calm_parseEntry path key)).bind fun result => ?_
      cases result with
      | ok _ => exact Calm.pure ()
      | error diagnostic => exact hReport _

/-- What the parser leaves: without an error there was none before, and what is kept is whole. -/
theorem Attrs.parse_cases (syn : Syntax I Span Path Meta) (attrs : List (Attribute I Span))
    (name : String) (keys : List Key) (errors : List (Diagnostic Span)) :
    ∃ parsed reports, Attrs.parse syn attrs name keys errors = .ok ⟨parsed, reports⟩ ∧
      (reports = [] → errors = [] ∧ Attrs.parse syn attrs name keys [] = .ok ⟨parsed, []⟩ ∧
        parsed.Whole) := by
  obtain ⟨⟨parsed, reports⟩, hParse⟩ := Attrs.parse_total syn attrs name keys errors
  refine ⟨parsed, reports, hParse, ?_⟩
  rintro rfl
  have hErrors := Attrs.parse_errors hParse rfl
  subst hErrors
  exact ⟨rfl, hParse, Attrs.whole_of_parse hParse⟩

end Cryptbox.Derive

import Cryptbox.Derive.Specs

/-!
# The fields of a record

`record.rs` of the derive crate: the entries of `#[cryptbox(…)]` on a field, and what is kept of them.
An error ends its attribute; a key that is repeated keeps its last value.

* `nestedMeta_eq_ok`: what the entries in the parentheses of a key read.
* `parseIndex_eq_ok`, `parseFieldAttrs_iff`: what is kept of the entries of a blind index, and of
  the attributes of a field.
* `Gives.valid`: the constants among the entries are checked.
-/

namespace Cryptbox.Derive

open Base Base.Parsing

variable {I Span Path Meta σ K E : Type}

/-! ## Closures over keys -/

/-- A closure that looks up the key of an entry, reads what stands behind it and keeps it. -/
def keyed (find : MetaPath Span → Option K) (unknown : MetaPath Span → Diagnostic Span)
    (see : MetaPath Span → K → σ → σ)
    (read : MetaPath Span → K → EStateM (Abort Span) I E) (keep : σ → E → σ) :
    Logic I Span σ := fun path =>
  match find path with
  | none => throw (.error (unknown path))
  | some key => do
    modifyState (see path key)
    let entry ← within (fun abort => abort) (read path key)
    modifyState fun state => keep state entry

/-- An entry of such a closure. -/
def ReadsKeyed (find : MetaPath Span → Option K)
    (read : MetaPath Span → K → EStateM (Abort Span) I E) (path : MetaPath Span)
    (input : I) (entry : E) (rest : I) : Prop :=
  ∃ key, find path = some key ∧ (read path key).run input = .ok entry rest

section

variable {find : MetaPath Span → Option K} {unknown : MetaPath Span → Diagnostic Span}
  {see : MetaPath Span → K → σ → σ} {read : MetaPath Span → K → EStateM (Abort Span) I E}
  {keep : σ → E → σ}

theorem keyed_keeps {size : I → Nat} (hRead : ∀ path key, Keeps (Shorter size) (read path key))
    (path : MetaPath Span) :
    Keeps (Shorter fun s => size s.input) (keyed find unknown see read keep path) := by
  unfold keyed
  split
  · exact Keeps.throw _
  · refine (modifyState_keeps _ _).bind fun _ => ?_
    exact (within_keeps (hRead _ _)).bind fun entry => modifyState_keeps _ _

theorem calm_keyed (hRead : ∀ path key, Calm (read path key)) (path : MetaPath Span) :
    Calm (keyed find unknown see read keep path) := by
  unfold keyed
  split
  · exact Calm.throw _
  · next key _ =>
    refine (calm_modifyState _).bind fun _ => ?_
    exact (hRead path key).within.bind fun entry => calm_modifyState _

/-- **What the closure does**: it keeps an entry for its key. -/
theorem keyed_describes {quiet : σ → Prop}
    (hSee : ∀ path key state, quiet (see path key state) ↔ quiet state)
    (hKeep : ∀ state entry, quiet (keep state entry) ↔ quiet state) {step : σ → E → σ}
    (hStep : ∀ {path key input entry rest}, find path = some key →
      (read path key).run input = .ok entry rest →
        ∀ state, keep (see path key state) entry = step state entry) :
    Describes quiet (keyed find unknown see read keep) (ReadsKeyed find read) (fun _ _ => True)
      step where
  keeps path := by
    have hModify (f : σ → σ) (hf : ∀ state, quiet (f state) ↔ quiet state) :
        Keeps (Quieter quiet) (modifyState f : EStateM (Abort Span) (ParseState I σ) Unit) :=
      fun s => (hf s.state).mp
    unfold keyed
    split
    · exact Keeps.throw _
    · next key _ =>
      refine (hModify _ (hSee path key)).bind fun _ => Keeps.bind ?_ fun entry => hModify _ fun state =>
        hKeep state entry
      intro s hQuiet
      rwa [within_state] at hQuiet
  iff {path s s'} hStart := by
    unfold keyed
    split
    · next hNone =>
      refine iff_of_false (fun h => nomatch h.1) ?_
      rintro ⟨entry, ⟨key, hKey, -⟩, -⟩
      cases hNone.symm.trans hKey
    · next key hKey =>
      rw [run_bind, run_modifyState]
      dsimp only
      rw [run_bind_eq_ok]
      constructor
      · rintro ⟨⟨entry, next, hRun, hModify⟩, -⟩
        obtain ⟨hRead, hState⟩ := within_eq_ok.mp hRun
        rw [run_modifyState] at hModify
        cases hModify
        refine ⟨entry, ⟨key, hKey, hRead⟩, trivial, ?_⟩
        dsimp only at hState ⊢
        rw [hState, hStep hKey hRead]
      · rintro ⟨entry, ⟨key', hKey', hRead⟩, -, hState⟩
        cases hKey.symm.trans hKey'
        obtain ⟨input', state'⟩ := s'
        dsimp only at hState hRead ⊢
        subst hState
        rw [← hStep hKey hRead]
        exact ⟨⟨entry, _, run_within hRead _, rfl⟩, (hKeep _ _).mpr ((hSee _ _ _).mpr hStart)⟩

end

/-! ## Entries in parentheses -/

section

variable (syn : Syntax I Span Path Meta)

/-- Entries in parentheses. -/
def Grouped (item : MetaPath Span → I → E → I → Prop) (input : I) (entries : List E) (rest : I) :
    Prop :=
  ∃ content behind inner, syn.content.run input = .ok content behind ∧
    Listed syn item content entries inner ∧ rest = syn.dropped inner behind

theorem admitted_true {step : σ → E → σ} {state : σ} {entries : List E} :
    Admitted (fun _ _ => True) step state entries := by
  induction entries generalizing state with
  | nil => trivial
  | cons entry rest ih => exact ⟨trivial, ih⟩

/-- **What the entries in the parentheses of a key read.** -/
theorem nestedMeta_eq_ok {logic : Logic I Span σ} (hLogic : ∀ path, Keeps syn.ReadsOn (logic path))
    {item : MetaPath Span → I → E → I → Prop} {step : σ → E → σ}
    (h : Describes (fun _ => True) logic item (fun _ _ => True) step) {init state : σ}
    {input rest : I} :
    (syn.nestedMeta logic hLogic init).run input = .ok state rest ↔
      ∃ entries, Grouped syn item input entries rest ∧ state = entries.foldl step init := by
  have hNested (s s' : ParseState I σ) := h.nested_iff syn hLogic s s' trivial
  simp only [and_true, admitted_true, true_and] at hNested
  rw [syn.nestedMeta_eq]
  simp only [parenthesized, EStateM.run]
  split
  · next hFailed =>
    constructor
    · intro hRun
      cases hRun
    · rintro ⟨entries, ⟨content, behind, inner, hGroup, -⟩, -⟩
      cases hFailed.symm.trans hGroup
  · next content behind hGroup =>
    constructor
    · intro hRun
      split at hRun
      · next state' inner hContent =>
        cases hRun
        split at hContent
        · next s hLoop =>
          cases hContent
          obtain ⟨entries, hListed, hState⟩ := (hNested _ _).mp hLoop
          exact ⟨entries, ⟨content, behind, _, hGroup, hListed, rfl⟩, hState⟩
        · cases hContent
      · cases hRun
    · rintro ⟨entries, ⟨content', behind', inner, hGroup', hListed, rfl⟩, rfl⟩
      cases hGroup.symm.trans hGroup'
      have hLoop := (hNested ⟨content, init⟩ ⟨inner, _⟩).mpr ⟨entries, hListed, rfl⟩
      rw [hLoop]

theorem nestedMeta_keeps {logic : Logic I Span σ} (hLogic : ∀ path, Keeps syn.ReadsOn (logic path))
    (init : σ) : Keeps (Shorter syn.size) (syn.nestedMeta logic hLogic init) := by
  rw [syn.nestedMeta_eq]
  exact parenthesized_keeps syn.toParsers _ _

theorem calm_nestedMeta {logic : Logic I Span σ} (hLogic : ∀ path, Keeps syn.ReadsOn (logic path))
    (hCalm : ∀ path, Calm (logic path)) (init : σ) : Calm (syn.nestedMeta logic hLogic init) := by
  intro input rest hRun
  rw [syn.nestedMeta_eq] at hRun
  simp only [parenthesized, EStateM.run] at hRun
  split at hRun
  · cases hRun
  · split at hRun
    · cases hRun
    · next hContent =>
      cases hRun
      split at hContent
      · cases hContent
      · next hLoop =>
        cases hContent
        exact calm_loop syn hLogic hCalm _ _ hLoop

end

/-! ## Repeated keys -/

/-- The last value that the entries give. -/
def lastOf {α : Type} (value : E → Option α) (entries : List E) : Option α :=
  (entries.filterMap value).getLast?

theorem lastOf_concat {α : Type} (value : E → Option α) (entries : List E) (entry : E) :
    lastOf value (entries ++ [entry]) = (value entry).or (lastOf value entries) := by
  rw [lastOf, List.filterMap_append, List.getLast?_append, lastOf]
  cases h : value entry <;> simp [h]

/-- The last value is one that was given. -/
theorem exists_of_lastOf {α : Type} {value : E → Option α} {entries : List E} {a : α}
    (h : lastOf value entries = some a) : ∃ entry ∈ entries, value entry = some a :=
  List.mem_filterMap.mp (List.mem_of_getLast? h)

/-! ## Blind indexes -/

/-- The keys of `blind_index(…)`. -/
inductive IndexKey where
  | id
  | bits
  | normalize
  | normalizer
  | query
  deriving DecidableEq, Repr

namespace IndexKey

def all : List IndexKey := [.id, .bits, .normalize, .normalizer, .query]

def name : IndexKey → String
  | .id => "id"
  | .bits => "bits"
  | .normalize => "normalize"
  | .normalizer => "normalizer"
  | .query => "query"

end IndexKey

/-- `path_string`. -/
def pathString (path : MetaPath Span) : String := String.ofList (path.text.toList.filter (· ≠ ' '))

/-- What an entry of `blind_index(…)` sets. -/
inductive IndexSetting (Span Path : Type) where
  | id (literal : UuidLiteral Span)
  | bits (literal : LitInt Span)
  | normalize (path : Path)
  | normalizer (literal : LitStr Span)
  | query (ty : Ty Span)

namespace IndexSetting

def asId : IndexSetting Span Path → Option (UuidLiteral Span)
  | .id literal => some literal
  | _ => none

def asBits : IndexSetting Span Path → Option (LitInt Span)
  | .bits literal => some literal
  | _ => none

def asNormalize : IndexSetting Span Path → Option Path
  | .normalize path => some path
  | _ => none

def asNormalizer : IndexSetting Span Path → Option (LitStr Span)
  | .normalizer literal => some literal
  | _ => none

def asQuery : IndexSetting Span Path → Option (Ty Span)
  | .query ty => some ty
  | _ => none

end IndexSetting

/-- What is kept of the entries so far. -/
structure IndexSettings (Span Path : Type) where
  id : Option (UuidLiteral Span)
  bits : Option (LitInt Span)
  normalize : Option Path
  normalizer : Option (LitStr Span)
  query : Option (Ty Span)

namespace IndexSettings

def empty : IndexSettings Span Path := ⟨none, none, none, none, none⟩

def set (settings : IndexSettings Span Path) : IndexSetting Span Path → IndexSettings Span Path
  | .id literal => { settings with id := some literal }
  | .bits literal => { settings with bits := some literal }
  | .normalize path => { settings with normalize := some path }
  | .normalizer literal => { settings with normalizer := some literal }
  | .query ty => { settings with query := some ty }

/-- The last value of each key. -/
def of (entries : List (IndexSetting Span Path)) : IndexSettings Span Path where
  id := lastOf IndexSetting.asId entries
  bits := lastOf IndexSetting.asBits entries
  normalize := lastOf IndexSetting.asNormalize entries
  normalizer := lastOf IndexSetting.asNormalizer entries
  query := lastOf IndexSetting.asQuery entries

theorem foldl_set (entries : List (IndexSetting Span Path)) : entries.foldl set empty = of entries := by
  induction entries using List.reverseRecOn with
  | nil => rfl
  | append_singleton entries entry ih =>
    rw [List.foldl_append, ih, List.foldl_cons, List.foldl_nil]
    simp only [of, lastOf_concat]
    cases entry <;> rfl

end IndexSettings

/-- What stands behind a key of `blind_index(…)`. -/
def readIndexSetting (syn : Syntax I Span Path Meta) (key : IndexKey) :
    EStateM (Abort Span) I (IndexSetting Span Path) := do
  lift (syn.punct '=')
  match key with
  | .id => IndexSetting.id <$> lift (parseUuidTokens syn "id")
  | .bits => IndexSetting.bits <$> lift (parseBits syn)
  | .normalize => IndexSetting.normalize <$> lift syn.path
  | .normalizer => IndexSetting.normalizer <$> lift (parseNormalizer syn)
  | .query => IndexSetting.query <$> lift syn.ty

/-- The key of an entry of `blind_index(…)`. -/
def indexKey (path : MetaPath Span) : Option IndexKey :=
  IndexKey.all.find? fun key => path.isIdent key.name

/-- The closure of `parse_index`. -/
def indexLogic (syn : Syntax I Span Path Meta) : Logic I Span (IndexSettings Span Path) :=
  keyed indexKey
    (fun path => ⟨path.span, s!"unknown `blind_index` key `{pathString path}`; expected one of `id`, "
      ++ "`bits`, `normalize`, `normalizer`, or `query`"⟩)
    (fun _ _ settings => settings) (fun _ key => readIndexSetting syn key) IndexSettings.set

/-- A blind index a sealed field writes, with its settings. -/
structure IndexSpec (Span Path : Type) extends IndexDecl Span where
  bits : LitInt Span
  normalize : Path
  normalizer : LitStr Span
  query : Ty Span

section

variable {syn : Syntax I Span Path Meta}

theorem lift_equals_keeps : Keeps (Shorter syn.size) (lift (syn.punct '=')) :=
  lift_keeps (syn.punct_keeps '=')

theorem readIndexSetting_keeps (key : IndexKey) :
    Keeps (Shorter syn.size) (readIndexSetting syn key) := by
  refine lift_equals_keeps.bind fun _ => ?_
  cases key with
  | id => exact Keeps.map (lift_keeps (parseUuidTokens_keeps syn _)) _
  | bits => exact Keeps.map (lift_keeps (parseBits_keeps syn)) _
  | normalize => exact Keeps.map (lift_keeps syn.path_keeps) _
  | normalizer => exact Keeps.map (lift_keeps (parseNormalizer_keeps syn)) _
  | query => exact Keeps.map (lift_keeps syn.ty_keeps) _

theorem calm_readIndexSetting (key : IndexKey) : Calm (readIndexSetting syn key) := by
  refine (calm_lift _).bind fun _ => ?_
  cases key <;> exact calm_map (calm_lift _) _

theorem indexLogic_keeps (path : MetaPath Span) :
    Keeps syn.ReadsOn (indexLogic syn path) :=
  keyed_keeps (fun _ key => readIndexSetting_keeps key) path

end

/-- A value that must be there. -/
def orMissing {α : Type} (value : Option α) (diagnostic : Diagnostic Span) :
    EStateM (Abort Span) I α :=
  match value with
  | some a => pure a
  | none => throw (.error diagnostic)

/-- `parse_index`, on what stands behind the path. -/
def parseIndex (syn : Syntax I Span Path Meta) (field : Ident Span) (path : MetaPath Span) :
    EStateM (Abort Span) I (IndexSpec Span Path) := do
  let settings ← syn.nestedMeta (indexLogic syn) indexLogic_keeps .empty
  let missing (key sample : String) : Diagnostic Span :=
    ⟨path.span, s!"`blind_index` needs `{key}`: add `{key} = {sample}`"⟩
  let id ← orMissing settings.id (missing "id" "\"<uuid>\"")
  let bits ← orMissing settings.bits (missing "bits" "32")
  let normalize ← orMissing settings.normalize (missing "normalize" "normalize_fn")
  let normalizer ← orMissing settings.normalizer (missing "normalizer" "\"email/1\"")
  return {
    span := path.span
    id
    column := ⟨field.unraw ++ "_index", field.span⟩
    bits
    normalize
    normalizer
    query := settings.query.getD syn.str }

section

variable {syn : Syntax I Span Path Meta} {field : Ident Span} {path : MetaPath Span}
  {input rest : I} {index : IndexSpec Span Path}

theorem run_orMissing_eq_ok {α : Type} {value : Option α} {diagnostic : Diagnostic Span} {a : α} :
    (orMissing value diagnostic).run input = .ok a rest ↔ value = some a ∧ rest = input := by
  cases value with
  | some b =>
    constructor
    · intro h
      cases h
      exact ⟨rfl, rfl⟩
    · rintro ⟨h, rfl⟩
      cases h
      rfl
  | none => exact iff_of_false (fun h => nomatch h) (fun h => nomatch h.1)

theorem indexLogic_describes : Describes (fun _ => True) (indexLogic syn)
    (ReadsKeyed indexKey fun _ key => readIndexSetting syn key) (fun _ _ => True)
    IndexSettings.set := by
  refine keyed_describes ?_ ?_ ?_
  · exact fun _ _ _ => Iff.rfl
  · exact fun _ _ => Iff.rfl
  · exact fun _ _ _ => rfl

/-- The entries of `blind_index(…)` declare an index: the last value of each key counts, and all but
the query are required. -/
structure Declares (syn : Syntax I Span Path Meta) (field : Ident Span) (path : MetaPath Span)
    (entries : List (IndexSetting Span Path)) (index : IndexSpec Span Path) : Prop where
  span : index.span = path.span
  id : lastOf IndexSetting.asId entries = some index.id
  bits : lastOf IndexSetting.asBits entries = some index.bits
  normalize : lastOf IndexSetting.asNormalize entries = some index.normalize
  normalizer : lastOf IndexSetting.asNormalizer entries = some index.normalizer
  query : index.query = (lastOf IndexSetting.asQuery entries).getD syn.str
  column : index.column = ⟨field.unraw ++ "_index", field.span⟩

/-- **What a blind index reads**: entries in parentheses that declare it. -/
theorem parseIndex_eq_ok : (parseIndex syn field path).run input = .ok index rest ↔
    ∃ entries, Grouped syn (ReadsKeyed indexKey fun _ key => readIndexSetting syn key) input entries
      rest ∧ Declares syn field path entries index := by
  have hNested (settings : IndexSettings Span Path) (rest : I) :
      (syn.nestedMeta (indexLogic syn) indexLogic_keeps .empty).run input = .ok settings rest ↔
        _ := nestedMeta_eq_ok syn indexLogic_keeps indexLogic_describes
  simp only [IndexSettings.foldl_set] at hNested
  simp only [parseIndex, run_bind_eq_ok, run_orMissing_eq_ok]
  constructor
  · rintro ⟨settings, _, hRun, id, _, ⟨hId, rfl⟩, bits, _, ⟨hBits, rfl⟩, normalize, _, ⟨hNormalize, rfl⟩,
      normalizer, _, ⟨hNormalizer, rfl⟩, hPure⟩
    obtain ⟨entries, hGrouped, rfl⟩ := (hNested _ _).mp hRun
    cases hPure
    exact ⟨entries, hGrouped, rfl, hId, hBits, hNormalize, hNormalizer, rfl, rfl⟩
  · rintro ⟨entries, hGrouped, hSpan, hId, hBits, hNormalize, hNormalizer, hQuery, hColumn⟩
    refine ⟨_, _, (hNested _ _).mpr ⟨entries, hGrouped, rfl⟩, _, _, ⟨hId, rfl⟩, _, _, ⟨hBits, rfl⟩, _, _,
      ⟨hNormalize, rfl⟩, _, _, ⟨hNormalizer, rfl⟩, ?_⟩
    obtain ⟨⟨span, id, column⟩, bits, normalize, normalizer, query⟩ := index
    dsimp only at hSpan hQuery hColumn
    rw [hSpan, hQuery, hColumn]
    rfl

/-- The library takes the value. -/
def IndexSetting.Valid : IndexSetting Span Path → Prop
  | .bits literal => validBits literal.digits = true
  | .normalizer literal => Cryptbox.validNormalizer literal.value = .ok true
  | _ => True

theorem readIndexSetting_valid {key : IndexKey} {setting : IndexSetting Span Path}
    (h : (readIndexSetting syn key).run input = .ok setting rest) : setting.Valid := by
  obtain ⟨_, afterEquals, -, h⟩ := run_bind_eq_ok.mp h
  cases key with
  | bits =>
    obtain ⟨literal, hRun, rfl⟩ := run_map_eq_ok.mp h
    exact parseBits_valid (run_lift_eq_ok.mp hRun)
  | normalizer =>
    obtain ⟨literal, hRun, rfl⟩ := run_map_eq_ok.mp h
    exact parseNormalizer_valid (run_lift_eq_ok.mp hRun)
  | _ =>
    obtain ⟨value, -, rfl⟩ := run_map_eq_ok.mp h
    trivial

/-- The library takes the constants of an index. -/
theorem parseIndex_valid (h : (parseIndex syn field path).run input = .ok index rest) :
    validBits index.bits.digits = true ∧
      Cryptbox.validNormalizer index.normalizer.value = .ok true := by
  obtain ⟨entries, ⟨content, behind, inner, -, hListed, -⟩, hDeclares⟩ := parseIndex_eq_ok.mp h
  have hValid := Listed.forall syn (P := IndexSetting.Valid)
    (fun _ _ _ _ ⟨_, _, hRead⟩ => readIndexSetting_valid hRead) hListed
  obtain ⟨bits, hBits, hAsBits⟩ := exists_of_lastOf hDeclares.bits
  obtain ⟨normalizer, hNormalizer, hAsNormalizer⟩ := exists_of_lastOf hDeclares.normalizer
  constructor
  · cases bits with
    | bits literal =>
      cases hAsBits
      exact hValid _ hBits
    | _ => cases hAsBits
  · cases normalizer with
    | normalizer literal =>
      cases hAsNormalizer
      exact hValid _ hNormalizer
    | _ => cases hAsNormalizer

theorem calm_parseIndex : Calm (parseIndex syn field path) := by
  have hMissing {α : Type} (value : Option α) (diagnostic : Diagnostic Span) :
      Calm (orMissing value diagnostic : EStateM (Abort Span) I α) := by
    cases value with
    | some a => exact Calm.pure a
    | none => exact Calm.throw _
  refine (calm_nestedMeta syn _ (calm_keyed fun _ key => calm_readIndexSetting key) _).bind
    fun settings => ?_
  refine (hMissing _ _).bind fun id => (hMissing _ _).bind fun bits => ?_
  refine (hMissing _ _).bind fun normalize => (hMissing _ _).bind fun normalizer => ?_
  exact Calm.pure _

end

/-! ## The attributes of a field -/

/-- The keys of a record field's `#[cryptbox(…)]`. -/
inductive FieldKey where
  | recordId
  | plaintext
  | sealed
  | codec
  | padding
  | named
  | blindIndex
  | stored
  deriving DecidableEq, Repr

namespace FieldKey

def all : List FieldKey :=
  [.recordId, .plaintext, .sealed, .codec, .padding, .named, .blindIndex, .stored]

def name : FieldKey → String
  | .recordId => "record_id"
  | .plaintext => "plaintext"
  | .sealed => "seal"
  | .codec => "codec"
  | .padding => "padding"
  | .named => "name"
  | .blindIndex => "blind_index"
  | .stored => "stored"

end FieldKey

/-- What an entry of a field sets, and where its key stands. -/
inductive Setting (Span Path Meta : Type) where
  | recordId (span : Span)
  | plaintext (span : Span)
  | sealed (span : Span) (literal : UuidLiteral Span)
  | codec (span : Span) (ty : Ty Span)
  | padding (span : Span) (literal : PaddingLit Span)
  | name (span : Span) (ident : Ident Span)
  | blindIndex (index : IndexSpec Span Path)
  | stored (metas : List Meta)

namespace Setting

def asRole : Setting Span Path Meta → Option (Span × RoleKey)
  | .recordId span => some (span, .recordId)
  | .plaintext span => some (span, .plaintext)
  | .sealed span _ => some (span, .sealed)
  | _ => none

def asSealId : Setting Span Path Meta → Option (UuidLiteral Span)
  | .sealed _ literal => some literal
  | _ => none

def asCodec : Setting Span Path Meta → Option (Span × Ty Span)
  | .codec span ty => some (span, ty)
  | _ => none

def asPadding : Setting Span Path Meta → Option (Span × PaddingLit Span)
  | .padding span literal => some (span, literal)
  | _ => none

def asName : Setting Span Path Meta → Option (Span × Ident Span)
  | .name span ident => some (span, ident)
  | _ => none

def asIndex : Setting Span Path Meta → Option (IndexSpec Span Path)
  | .blindIndex index => some index
  | _ => none

def asStored : Setting Span Path Meta → List Meta
  | .stored metas => metas
  | _ => []

end Setting

/-- The roles and settings one field's attributes give it, and their errors: the attributes are
malformed when there are any. -/
structure FieldSettings (Span Path Meta : Type) where
  roles : List (Span × RoleKey)
  sealId : Option (UuidLiteral Span)
  codec : Option (Span × Ty Span)
  padding : Option (Span × PaddingLit Span)
  name : Option (Span × Ident Span)
  indexes : List (IndexSpec Span Path)
  stored : List Meta
  errors : List (Diagnostic Span)

namespace FieldSettings

def empty : FieldSettings Span Path Meta := ⟨[], none, none, none, none, [], [], []⟩

def pushRole (settings : FieldSettings Span Path Meta) (role : Span × RoleKey) :
    FieldSettings Span Path Meta :=
  { settings with roles := settings.roles ++ [role] }

/-- The error that ends an attribute. -/
def report (diagnostic : Diagnostic Span) (settings : FieldSettings Span Path Meta) :
    FieldSettings Span Path Meta :=
  { settings with errors := settings.errors ++ [diagnostic] }

/-- The role of a seal is there before its ID is parsed. -/
def see (path : MetaPath Span) (key : FieldKey) (settings : FieldSettings Span Path Meta) :
    FieldSettings Span Path Meta :=
  if key = .sealed then settings.pushRole (path.span, .sealed) else settings

def keep (settings : FieldSettings Span Path Meta) :
    Setting Span Path Meta → FieldSettings Span Path Meta
  | .recordId span => settings.pushRole (span, .recordId)
  | .plaintext span => settings.pushRole (span, .plaintext)
  | .sealed _ literal => { settings with sealId := some literal }
  | .codec span ty => { settings with codec := some (span, ty) }
  | .padding span literal => { settings with padding := some (span, literal) }
  | .name span ident => { settings with name := some (span, ident) }
  | .blindIndex index => { settings with indexes := settings.indexes ++ [index] }
  | .stored metas => { settings with stored := settings.stored ++ metas }

/-- A whole entry: what is there before its value, and its value. -/
def step (settings : FieldSettings Span Path Meta) (setting : Setting Span Path Meta) :
    FieldSettings Span Path Meta :=
  match setting with
  | .sealed span _ => (settings.pushRole (span, .sealed)).keep setting
  | _ => settings.keep setting

/-- What the entries give: their roles, indexes and forwarded attributes in order, and the last
value of each other key. -/
def of (entries : List (Setting Span Path Meta)) : FieldSettings Span Path Meta where
  roles := entries.filterMap Setting.asRole
  sealId := lastOf Setting.asSealId entries
  codec := lastOf Setting.asCodec entries
  padding := lastOf Setting.asPadding entries
  name := lastOf Setting.asName entries
  indexes := entries.filterMap Setting.asIndex
  stored := entries.flatMap Setting.asStored
  errors := []

theorem foldl_step (entries : List (Setting Span Path Meta)) :
    entries.foldl step empty = of entries := by
  induction entries using List.reverseRecOn with
  | nil => rfl
  | append_singleton entries entry ih =>
    rw [List.foldl_append, ih, List.foldl_cons, List.foldl_nil]
    simp only [of, lastOf_concat, List.filterMap_append, List.flatMap_append]
    cases entry <;> simp [step, keep, pushRole, Setting.asRole, Setting.asSealId, Setting.asCodec,
      Setting.asPadding, Setting.asName, Setting.asIndex, Setting.asStored]

end FieldSettings

/-- `parse_stored`. -/
def parseStored (syn : Syntax I Span Path Meta) : Parser I Span (List Meta) :=
  parenthesized syn.toParsers id syn.metas

/-- What stands behind a key of a field. -/
def readSetting (syn : Syntax I Span Path Meta) (field : Ident Span) (path : MetaPath Span)
    (key : FieldKey) : EStateM (Abort Span) I (Setting Span Path Meta) :=
  match key with
  | .recordId => return .recordId path.span
  | .plaintext => return .plaintext path.span
  | .sealed => do
    lift (syn.punct '=')
    Setting.sealed path.span <$> lift (parseUuidTokens syn "seal")
  | .codec => do
    lift (syn.punct '=')
    Setting.codec path.span <$> lift syn.ty
  | .padding => do
    lift (syn.punct '=')
    Setting.padding path.span <$> lift (parsePadding syn)
  | .named => do
    lift (syn.punct '=')
    Setting.name path.span <$> lift syn.ident
  | .blindIndex => Setting.blindIndex <$> parseIndex syn field path
  | .stored => Setting.stored <$> lift (parseStored syn)

/-- The key of an entry of a field. -/
def fieldKey (path : MetaPath Span) : Option FieldKey :=
  FieldKey.all.find? fun key => path.isIdent key.name

/-- The closure of `parse_field_attrs`. -/
def fieldLogic (syn : Syntax I Span Path Meta) (field : Ident Span) :
    Logic I Span (FieldSettings Span Path Meta) :=
  keyed fieldKey
    (fun path => ⟨path.span, s!"unknown `cryptbox` key `{pathString path}` on a record field; expected "
      ++ "`record_id`, `seal`, `plaintext`, `codec`, `padding`, `name`, `blind_index`, or `stored`"⟩)
    FieldSettings.see (readSetting syn field) FieldSettings.keep

section

variable {syn : Syntax I Span Path Meta} {field : Ident Span}

theorem readSetting_keeps (path : MetaPath Span) (key : FieldKey) :
    Keeps (Shorter syn.size) (readSetting syn field path key) := by
  cases key with
  | recordId => exact Keeps.pure _
  | plaintext => exact Keeps.pure _
  | sealed =>
    exact lift_equals_keeps.bind fun _ => Keeps.map (lift_keeps (parseUuidTokens_keeps syn _)) _
  | codec => exact lift_equals_keeps.bind fun _ => Keeps.map (lift_keeps syn.ty_keeps) _
  | padding =>
    exact lift_equals_keeps.bind fun _ => Keeps.map (lift_keeps (parsePadding_keeps syn)) _
  | named => exact lift_equals_keeps.bind fun _ => Keeps.map (lift_keeps syn.ident_keeps) _
  | blindIndex =>
    refine Keeps.map (Keeps.bind (nestedMeta_keeps syn _ _) fun settings => ?_) _
    have hMissing {α : Type} (value : Option α) (diagnostic : Diagnostic Span) :
        Keeps (Shorter syn.size) (orMissing value diagnostic) := by
      cases value with
      | some a => exact Keeps.pure a
      | none => exact Keeps.throw _
    refine (hMissing _ _).bind fun id => (hMissing _ _).bind fun bits => ?_
    refine (hMissing _ _).bind fun normalize => (hMissing _ _).bind fun normalizer => ?_
    exact Keeps.pure _
  | stored => exact Keeps.map (lift_keeps (parenthesized_keeps syn.toParsers _ _)) _

theorem calm_readSetting (path : MetaPath Span) (key : FieldKey) :
    Calm (readSetting syn field path key) := by
  have hValue {α : Type} (p : Parser I Span α) (f : α → Setting Span Path Meta) :
      Calm (do lift (syn.punct '='); f <$> lift p) :=
    (calm_lift _).bind fun _ => calm_map (calm_lift p) f
  cases key with
  | recordId => exact Calm.pure _
  | plaintext => exact Calm.pure _
  | sealed => exact hValue _ _
  | codec => exact hValue _ _
  | padding => exact hValue _ _
  | named => exact hValue _ _
  | blindIndex => exact calm_map calm_parseIndex _
  | stored => exact calm_map (calm_lift _) _

theorem fieldLogic_keeps (path : MetaPath Span) :
    Keeps syn.ReadsOn (fieldLogic syn field path) :=
  keyed_keeps readSetting_keeps path

end

/-- `parse_field_attrs`. -/
def parseFieldAttrs (syn : Syntax I Span Path Meta) (field : NamedField I Span) :
    Result (FieldSettings Span Path Meta) :=
  parseAttributes syn (fieldLogic syn field.ident) fieldLogic_keeps FieldSettings.report
    (field.attrs.filter fun attr => attr.path.isIdent "cryptbox") .empty

/-- The attributes of a field list these entries. -/
def Gives (syn : Syntax I Span Path Meta) (field : NamedField I Span)
    (entries : List (Setting Span Path Meta)) : Prop :=
  ∃ lists, List.Forall₂ (Attribute.Lists syn (ReadsKeyed fieldKey (readSetting syn field.ident)))
    (field.attrs.filter fun attr => attr.path.isIdent "cryptbox") lists ∧ lists.flatten = entries

section

variable {syn : Syntax I Span Path Meta}

/-- What is read behind `=`. -/
theorem exists_value {α β : Type} {p : Parser I Span α} {f : α → β} {input rest : I} {b : β}
    (h : (do lift (syn.punct '='); f <$> lift p : EStateM (Abort Span) I β).run input
      = .ok b rest) : ∃ a afterEquals, p.run afterEquals = .ok a rest ∧ f a = b := by
  obtain ⟨_, afterEquals, -, h⟩ := run_bind_eq_ok.mp h
  obtain ⟨a, hRun, h⟩ := run_map_eq_ok.mp h
  exact ⟨a, afterEquals, run_lift_eq_ok.mp hRun, h⟩

theorem readSetting_sealed {field : Ident Span} {path : MetaPath Span} {key : FieldKey}
    {input rest : I} {setting : Setting Span Path Meta}
    (h : (readSetting syn field path key).run input = .ok setting rest)
    (settings : FieldSettings Span Path Meta) :
    (settings.see path key).keep setting = settings.step setting := by
  cases key with
  | recordId => cases h; rfl
  | plaintext => cases h; rfl
  | sealed => obtain ⟨literal, afterEquals, -, rfl⟩ := exists_value h; rfl
  | codec => obtain ⟨ty, afterEquals, -, rfl⟩ := exists_value h; rfl
  | padding => obtain ⟨literal, afterEquals, -, rfl⟩ := exists_value h; rfl
  | named => obtain ⟨ident, afterEquals, -, rfl⟩ := exists_value h; rfl
  | blindIndex => obtain ⟨index, -, rfl⟩ := run_map_eq_ok.mp h; rfl
  | stored => obtain ⟨metas, -, rfl⟩ := run_map_eq_ok.mp h; rfl

/-- The library takes the constants of a setting. -/
def Setting.Valid : Setting Span Path Meta → Prop
  | .padding _ literal => ∃ padding, literal.padding = .ok padding
  | .blindIndex index => validBits index.bits.digits = true ∧
      Cryptbox.validNormalizer index.normalizer.value = .ok true
  | _ => True

theorem readSetting_valid {field : Ident Span} {path : MetaPath Span} {key : FieldKey}
    {input rest : I} {setting : Setting Span Path Meta}
    (h : (readSetting syn field path key).run input = .ok setting rest) : setting.Valid := by
  cases key with
  | recordId =>
    cases h
    trivial
  | plaintext =>
    cases h
    trivial
  | padding =>
    obtain ⟨literal, afterEquals, hRun, rfl⟩ := exists_value h
    exact parsePadding_valid hRun
  | blindIndex =>
    obtain ⟨index, hRun, rfl⟩ := run_map_eq_ok.mp h
    exact parseIndex_valid hRun
  | stored =>
    obtain ⟨metas, -, rfl⟩ := run_map_eq_ok.mp h
    trivial
  | _ =>
    obtain ⟨value, afterEquals, -, rfl⟩ := exists_value h
    trivial

theorem Gives.valid {field : NamedField I Span} {entries : List (Setting Span Path Meta)}
    (h : Gives syn field entries) : ∀ entry ∈ entries, entry.Valid := by
  obtain ⟨lists, hLists, rfl⟩ := h
  exact forall_listed syn (fun _ _ _ _ ⟨_, _, hRead⟩ => readSetting_valid hRead) hLists

/-- Nothing is reported. -/
def FieldSettings.Quiet (settings : FieldSettings Span Path Meta) : Prop := settings.errors = []

theorem FieldSettings.not_quiet_report (diagnostic : Diagnostic Span)
    (settings : FieldSettings Span Path Meta) : ¬ (settings.report diagnostic).Quiet := by
  intro h
  cases List.append_eq_nil_iff.mp h |>.2

theorem fieldLogic_describes (syn : Syntax I Span Path Meta) (field : Ident Span) :
    Describes FieldSettings.Quiet (fieldLogic syn field)
      (ReadsKeyed fieldKey (readSetting syn field)) (fun _ _ => True) FieldSettings.step := by
  refine keyed_describes ?_ ?_ ?_
  · intro path key settings
    unfold FieldSettings.see
    split <;> exact Iff.rfl
  · intro settings setting
    cases setting <;> exact Iff.rfl
  · intro path key input setting rest _ hRead settings
    exact readSetting_sealed hRead settings

variable {field : NamedField I Span} {settings : FieldSettings Span Path Meta}

/-- **What is kept of the attributes of a field** when nothing is reported. -/
theorem parseFieldAttrs_iff : parseFieldAttrs syn field = .ok settings ∧ settings.errors = [] ↔
    ∃ entries, Gives syn field entries ∧ settings = .of entries := by
  have hParse := (fieldLogic_describes syn field.ident).parse_iff syn fieldLogic_keeps
    FieldSettings.not_quiet_report (field.attrs.filter fun attr => attr.path.isIdent "cryptbox")
    settings (rfl : FieldSettings.Quiet .empty)
  refine hParse.trans ?_
  constructor
  · rintro ⟨lists, hLists, -, rfl⟩
    exact ⟨_, ⟨lists, hLists, rfl⟩, FieldSettings.foldl_step _⟩
  · rintro ⟨_, ⟨lists, hLists, rfl⟩, rfl⟩
    exact ⟨lists, hLists, admitted_true, (FieldSettings.foldl_step _).symm⟩

theorem parseFieldAttrs_total (syn : Syntax I Span Path Meta) (field : NamedField I Span) :
    ∃ settings, parseFieldAttrs syn field = .ok settings :=
  calm_parse syn fieldLogic_keeps (calm_keyed calm_readSetting) _ _ _

/-- A seal without an ID was reported. -/
theorem reported_of_parse (h : parseFieldAttrs syn field = .ok settings) (span : Span)
    (hRole : (span, RoleKey.sealed) ∈ settings.roles) (hSeal : settings.sealId = none) :
    settings.errors ≠ [] := by
  intro hErrors
  obtain ⟨entries, -, rfl⟩ := parseFieldAttrs_iff.mp ⟨h, hErrors⟩
  obtain ⟨entry, hMem, hEntry⟩ := List.mem_filterMap.mp hRole
  have hId : ∃ literal, entry.asSealId = some literal := by
    cases entry with
    | sealed _ literal => exact ⟨literal, rfl⟩
    | _ => cases hEntry
  obtain ⟨literal, hId⟩ := hId
  have hIds : literal ∈ entries.filterMap Setting.asSealId := List.mem_filterMap.mpr ⟨entry, hMem, hId⟩
  rw [List.getLast?_eq_none_iff.mp hSeal] at hIds
  cases hIds

end

/-- The attributes as the check of the field takes them. -/
def FieldSettings.attrs (settings : FieldSettings Span Path Meta)
    (h : ∀ span, (span, RoleKey.sealed) ∈ settings.roles → settings.sealId = none →
      settings.errors ≠ []) : FieldAttrs Span where
  roles := settings.roles
  sealId := settings.sealId
  codec := settings.codec.map Prod.fst
  padding := settings.padding.map Prod.fst
  name := settings.name.map Prod.fst
  indexes := settings.indexes.map IndexSpec.toIndexDecl
  errors := settings.errors
  reported := h

end Cryptbox.Derive

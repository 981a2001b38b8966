import Cryptbox.Derive.Attr
import Cryptbox.Derive.Tokens
import Cryptbox.Value

/-!
# The seal and index derives

`seal.rs` and `blind_index.rs` of the derive crate: what `#[derive(Seal)]` and
`#[derive(BlindIndexSpec)]` make of an item and its helper attributes. An expansion is what the
implementation declares; types, codecs and functions are named, and the compiler resolves them.

* `BlindIndex.expand_iff`, `Seal.expand_iff`: the items that are expanded, and to what.
* `transparent_seals`: a transparent seal stores the bytes of a marker over its field.
* `specs_exact`: both derives are exact, and their constants pass the checks of the library.
-/

namespace Cryptbox.Derive

open Base Base.Parsing

variable {I Span Path Meta : Type}

/-! ## Items -/

/-- A named field of a struct. -/
structure NamedField (I Span : Type) where
  attrs : List (Attribute I Span)
  ident : Ident Span
  ty : Ty Span

inductive Fields (I Span : Type) where
  | named (fields : List (NamedField I Span))
  | unnamed (types : List (Ty Span))
  | unit

inductive Data (I Span : Type) where
  | struct (fields : Fields I Span)
  | enum
  | union (token : Span)

structure DeriveInput (I Span : Type) where
  attrs : List (Attribute I Span)
  ident : Ident Span
  /-- Where the generic parameters stand, if there are any. -/
  generics : Option Span
  data : Data I Span

/-- A value that is not there is reported as missing, unless its key was already reported. -/
def missing {α : Type} (value : Option α) (attrs : Attrs Span Path) (key : Key) (item : Ident Span)
    (sample : String) : List (Diagnostic Span) :=
  if value.isNone && !attrs.seen.contains key then
    [⟨item.span, s!"missing `{key.name}`: add `#[{attrs.name}({key.name} = {sample})]`"⟩]
  else []

/-- `required`. -/
def required {α : Type} (value : Option α) (attrs : Attrs Span Path) (key : Key) (item : Ident Span)
    (sample : String) (errors : List (Diagnostic Span)) : Option α × List (Diagnostic Span) :=
  (value, errors ++ missing value attrs key item sample)

/-! ## Blind indexes -/

namespace BlindIndex

def keys : List Key := [.id, .sealType, .bits, .query, .normalize, .normalizer]

/-- The shapes a spec can't have. -/
def rejectShapes (input : DeriveInput I Span) : List (Diagnostic Span) :=
  (match input.generics with
    | some span => [⟨span, "`BlindIndexSpec` can't be derived for a generic type: every instance would "
        ++ "share its index ID"⟩]
    | none => []) ++
  match input.data with
  | .struct _ => []
  | _ => [⟨input.ident.span, "`BlindIndexSpec` is derived for a struct, such as a unit struct marker"⟩]

/-- What the implementation declares. -/
structure Declared (Span Path : Type) where
  id : UuidLiteral Span
  sealType : Ty Span
  bits : LitInt Span
  query : Ty Span
  normalize : Path
  normalizer : LitStr Span

/-- What is expanded from the attributes. -/
def finish (input : DeriveInput I Span) (attrs : Attrs Span Path)
    (errors : List (Diagnostic Span)) :
    Result (Except (List (Diagnostic Span)) (Declared Span Path)) := do
  let name := input.ident
  let (id, errors) := required attrs.id attrs .id name "\"<uuid>\"" errors
  let (sealType, errors) := required attrs.sealType attrs .sealType name "Seal" errors
  let (bits, errors) := required attrs.bits attrs .bits name "32" errors
  let (query, errors) := required attrs.query attrs .query name "str" errors
  let (normalize, errors) := required attrs.normalize attrs .normalize name "normalize_fn" errors
  let (normalizer, errors) := required attrs.normalizer attrs .normalizer name "\"email/1\"" errors
  if !errors.isEmpty then return .error errors
  match id, sealType, bits, query, normalize, normalizer with
  | some id, some sealType, some bits, some query, some normalize, some normalizer =>
    return .ok { id, sealType, bits, query, normalize, normalizer }
  | _, _, _, _, _, _ => panics

/-- `expand`. -/
def expand (syn : Syntax I Span Path Meta) (input : DeriveInput I Span) :
    Result (Except (List (Diagnostic Span)) (Declared Span Path)) := do
  let ⟨attrs, errors⟩ ← Attrs.parse syn input.attrs "cryptbox" keys (rejectShapes input)
  finish input attrs errors

end BlindIndex

/-! ## Seals -/

/-- How values are encoded: a codec that is named, or the built-in default of a type. -/
inductive CodecName (Span : Type) where
  | named (codec : Ty Span)
  | default (value : Ty Span)

inductive Member (Span : Type) where
  | named (ident : Ident Span)
  | unnamed

/-- What the seal's values are, and how they are encoded. -/
inductive Form (Span : Type) where
  /-- A unit struct over a separate value type. -/
  | marker (value : Ty Span) (codec : CodecName Span)
  /-- The type is its own value, encoded whole by `codec`. -/
  | selfValued (codec : Ty Span)
  /-- The type is its own value, stored as its single field. -/
  | transparent (member : Member Span) (inner : Ty Span) (codec : CodecName Span)

namespace Seal

def keys : List Key := [.id, .value, .codec, .transparent, .padding]

/-- The shapes a seal can't have. -/
def rejectShapes (input : DeriveInput I Span) : List (Diagnostic Span) :=
  (match input.generics with
    | some span => [⟨span, "`Seal` can't be derived for a generic type: every instance would share its "
        ++ "seal ID"⟩]
    | none => []) ++
  match input.data with
  | .union token => [⟨token, "`Seal` can't be derived for a union"⟩]
  | _ => []

/-- The member and type of a struct's only field. -/
def singleField : Data I Span → Option (Member Span × Ty Span)
  | .struct (.named [field]) => some (.named field.ident, field.ty)
  | .struct (.unnamed [ty]) => some (.unnamed, ty)
  | _ => none

/-- The codec that is named, or the default of `value`. -/
def codecOr (codec : Option (Ty Span)) (value : Ty Span) : CodecName Span :=
  match codec with
  | some codec => .named codec
  | none => .default value

/-- Reads the seal's form from the type's shape and its keys. -/
def form (input : DeriveInput I Span) (attrs : Attrs Span Path) (errors : List (Diagnostic Span)) :
    Option (Form Span) × List (Diagnostic Span) :=
  match input.data with
  | .struct .unit =>
    let errors := match attrs.transparent with
      | some span => errors ++ [⟨span, "`transparent` needs a struct with exactly one field; a unit "
          ++ "struct is a marker over its `value` type"⟩]
      | none => errors
    let (value, errors) := required attrs.value attrs .value input.ident "Type" errors
    (value.map fun value => .marker value (codecOr attrs.codec value), errors)
  | data =>
    match attrs.value, attrs.transparent, attrs.codec with
    | some value, _, _ =>
      (none, errors ++ [⟨value.span, "a type with fields is its own value: remove `value`, or declare "
        ++ "the seal as a unit struct to seal a separate value type"⟩])
    | none, some span, codec =>
      match singleField data with
      | none => (none, errors ++ [⟨span, "`transparent` needs a struct with exactly one field"⟩])
      | some (member, inner) => (some (.transparent member inner (codecOr codec inner)), errors)
    | none, none, some codec => (some (.selfValued codec), errors)
    | none, none, none =>
      -- An invalid `codec` or `transparent` is already reported.
      if !attrs.seen.contains .codec && !attrs.seen.contains .transparent then
        (none, errors ++ [⟨input.ident.span, "missing `codec`: a type with fields is its own value, so "
          ++ "name how it is encoded with `#[cryptbox(codec = Codec)]`, or store its single field with "
          ++ "`#[cryptbox(transparent)]`"⟩])
      else (none, errors)

/-- What the implementation declares. -/
structure Declared (Span : Type) where
  id : UuidLiteral Span
  padding : Option (PaddingLit Span)
  form : Form Span

/-- The constant that is emitted, `Padding::NONE` without a `padding`. -/
def Declared.paddingConst (declared : Declared Span) : Result Padding :=
  match declared.padding with
  | some literal => literal.padding
  | none => .ok .none

/-- What is expanded from the attributes. -/
def finish (input : DeriveInput I Span) (attrs : Attrs Span Path)
    (errors : List (Diagnostic Span)) :
    Result (Except (List (Diagnostic Span)) (Declared Span)) := do
  let (id, errors) := required attrs.id attrs .id input.ident "\"<uuid>\"" errors
  let (form, errors) := form input attrs errors
  if !errors.isEmpty then return .error errors
  match id, form with
  | some id, some form => return .ok { id, padding := attrs.padding, form }
  | _, _ => panics

/-- `expand`. -/
def expand (syn : Syntax I Span Path Meta) (input : DeriveInput I Span) :
    Result (Except (List (Diagnostic Span)) (Declared Span)) := do
  let ⟨attrs, errors⟩ ← Attrs.parse syn input.attrs "cryptbox" keys (rejectShapes input)
  finish input attrs errors

end Seal

/-! ## What is kept -/

section

variable {α : Type} {value : Option α} {attrs : Attrs Span Path} {key : Key} {item : Ident Span}
  {sample : String}

theorem missing_some (a : α) : missing (some a) attrs key item sample = [] := rfl

/-- A value that is not there is reported, when its key did not appear. -/
theorem exists_of_missing (hSeen : key ∈ attrs.seen → value ≠ none)
    (h : missing value attrs key item sample = []) : ∃ a, value = some a := by
  cases value with
  | some a => exact ⟨a, rfl⟩
  | none =>
    have hNotSeen : key ∉ attrs.seen := fun hMem => hSeen hMem rfl
    simp [missing, hNotSeen] at h

end

namespace BlindIndex

variable {input : DeriveInput I Span} {attrs : Attrs Span Path} {errors : List (Diagnostic Span)}
  {declared : Declared Span Path}

/-- What declares it. -/
def Declared.entries (declared : Declared Span Path) : List (Entry Span Path) :=
  [.id declared.id, .sealType declared.sealType, .bits declared.bits, .query declared.query,
    .normalize declared.normalize, .normalizer declared.normalizer]

/-- The attributes that keep it. -/
def Declared.toAttrs (declared : Declared Span Path) : Attrs Span Path :=
  { (Attrs.empty "cryptbox" : Attrs Span Path) with
    id := some declared.id
    sealType := some declared.sealType
    bits := some declared.bits
    query := some declared.query
    normalize := some declared.normalize
    normalizer := some declared.normalizer }

theorem Declared.kept_toAttrs (declared : Declared Span Path) :
    declared.toAttrs.kept = declared.entries := rfl

/-- Every required key is there. -/
def Complete (attrs : Attrs Span Path) (declared : Declared Span Path) : Prop :=
  attrs.id = some declared.id ∧ attrs.sealType = some declared.sealType ∧
    attrs.bits = some declared.bits ∧ attrs.query = some declared.query ∧
    attrs.normalize = some declared.normalize ∧ attrs.normalizer = some declared.normalizer

theorem finish_of_complete (h : Complete attrs declared) :
    finish input attrs [] = .ok (.ok declared) := by
  obtain ⟨hId, hSeal, hBits, hQuery, hNormalize, hNormalizer⟩ := h
  simp only [finish, required, hId, hSeal, hBits, hQuery, hNormalize, hNormalizer, missing_some]
  rfl

/-- What is expanded is complete, and what is not is reported. -/
theorem finish_cases (hWhole : errors = [] → attrs.Whole) :
    (∃ declared, errors = [] ∧ Complete attrs declared ∧
      finish input attrs errors = .ok (.ok declared)) ∨
        ∃ reports, reports ≠ [] ∧ finish input attrs errors = .ok (.error reports) := by
  by_cases hReports : errors ++ missing attrs.id attrs .id input.ident "\"<uuid>\""
      ++ missing attrs.sealType attrs .sealType input.ident "Seal"
      ++ missing attrs.bits attrs .bits input.ident "32"
      ++ missing attrs.query attrs .query input.ident "str"
      ++ missing attrs.normalize attrs .normalize input.ident "normalize_fn"
      ++ missing attrs.normalizer attrs .normalizer input.ident "\"email/1\"" = []
  · left
    simp only [List.append_eq_nil_iff] at hReports
    obtain ⟨⟨⟨⟨⟨⟨hErrors, hId⟩, hSeal⟩, hBits⟩, hQuery⟩, hNormalize⟩, hNormalizer⟩ := hReports
    have hSeen {α : Type} {value : Option α} {f : α → Entry Span Path} {key : Key}
        (hGet : attrs.get key = value.map f) (hMem : key ∈ attrs.seen) : value ≠ none := by
      rintro rfl
      exact hWhole hErrors key hMem hGet
    obtain ⟨id, hId⟩ := exists_of_missing (hSeen rfl) hId
    obtain ⟨sealType, hSeal⟩ := exists_of_missing (hSeen rfl) hSeal
    obtain ⟨bits, hBits⟩ := exists_of_missing (hSeen rfl) hBits
    obtain ⟨query, hQuery⟩ := exists_of_missing (hSeen rfl) hQuery
    obtain ⟨normalize, hNormalize⟩ := exists_of_missing (hSeen rfl) hNormalize
    obtain ⟨normalizer, hNormalizer⟩ := exists_of_missing (hSeen rfl) hNormalizer
    have hComplete : Complete attrs ⟨id, sealType, bits, query, normalize, normalizer⟩ :=
      ⟨hId, hSeal, hBits, hQuery, hNormalize, hNormalizer⟩
    subst hErrors
    exact ⟨_, rfl, hComplete, finish_of_complete hComplete⟩
  · right
    refine ⟨_, hReports, if_pos ?_⟩
    rw [Bool.not_eq_true', List.isEmpty_eq_false_iff]
    exact hReports

theorem rejectShapes_eq_nil : rejectShapes input = [] ↔
    input.generics = none ∧ ∃ fields, input.data = .struct fields := by
  unfold rejectShapes
  rw [List.append_eq_nil_iff]
  refine and_congr ?_ ?_
  · cases input.generics <;> simp
  · cases input.data <;> simp

/-- The attributes keep a declaration when every required key is there, as no other is accepted. -/
theorem get_eq_iff_complete {syn : Syntax I Span Path Meta}
    (hParse : Attrs.parse syn input.attrs "cryptbox" keys [] = .ok ⟨attrs, []⟩) :
    (∀ key, attrs.get key = declared.toAttrs.get key) ↔ Complete attrs declared := by
  have hNone (key : Key) (hKey : key ∉ keys) := Attrs.get_of_parse hParse hKey
  have hValue := Option.map_eq_none_iff.mp (hNone .value (by decide))
  have hCodec := Option.map_eq_none_iff.mp (hNone .codec (by decide))
  have hPadding := Option.map_eq_none_iff.mp (hNone .padding (by decide))
  have hTransparent := Option.map_eq_none_iff.mp (hNone .transparent (by decide))
  rw [Attrs.get_eq_iff, hValue, hCodec, hPadding, hTransparent]
  constructor
  · rintro ⟨hId, -, -, -, hSeal, hBits, hQuery, hNormalize, hNormalizer, -⟩
    exact ⟨hId, hSeal, hBits, hQuery, hNormalize, hNormalizer⟩
  · rintro ⟨hId, hSeal, hBits, hQuery, hNormalize, hNormalizer⟩
    exact ⟨hId, rfl, rfl, rfl, hSeal, hBits, hQuery, hNormalize, hNormalizer, rfl⟩

variable (syn : Syntax I Span Path Meta)

/-- What is expanded is complete, and what is not is reported. -/
theorem expand_cases (input : DeriveInput I Span) :
    (∃ attrs declared, rejectShapes input = [] ∧
        Attrs.parse syn input.attrs "cryptbox" keys [] = .ok ⟨attrs, []⟩ ∧ Complete attrs declared ∧
        expand syn input = .ok (.ok declared)) ∨
      ∃ reports, reports ≠ [] ∧ expand syn input = .ok (.error reports) := by
  obtain ⟨attrs, errors, hParse, hQuiet⟩ := Attrs.parse_cases syn input.attrs "cryptbox" keys
    (rejectShapes input)
  have hExpand : expand syn input = finish input attrs errors := by
    rw [expand, hParse]
    rfl
  rw [hExpand]
  refine (finish_cases fun hErrors => (hQuiet hErrors).2.2).imp_left ?_
  rintro ⟨declared, hErrors, hComplete, hFinish⟩
  obtain ⟨hShapes, hParse, -⟩ := hQuiet hErrors
  exact ⟨attrs, declared, hShapes, hParse, hComplete, hFinish⟩

/-- **The specs that are expanded**: of a struct that is not generic, with each required key once,
in any order. -/
theorem expand_iff : expand syn input = .ok (.ok declared) ↔
    input.generics = none ∧ (∃ fields, input.data = .struct fields) ∧
      Spelled syn input.attrs "cryptbox" keys declared.entries := by
  rw [← and_assoc, ← rejectShapes_eq_nil, ← declared.kept_toAttrs, ← Attrs.spelled_iff]
  constructor
  · intro h
    rcases expand_cases syn input with ⟨attrs, declared', hShapes, hParse, hComplete, hExpand⟩ |
      ⟨reports, -, hExpand⟩
    · cases hExpand.symm.trans h
      exact ⟨hShapes, attrs, hParse, (get_eq_iff_complete hParse).mpr hComplete⟩
    · cases hExpand.symm.trans h
  · rintro ⟨hShapes, attrs, hParse, hKept⟩
    rw [expand, hShapes, hParse]
    exact finish_of_complete ((get_eq_iff_complete hParse).mp hKept)

end BlindIndex

namespace Seal

variable {input : DeriveInput I Span} {attrs : Attrs Span Path} {errors : List (Diagnostic Span)}
  {declared : Declared Span}

/-- What is written for a form: its `value`, its `codec`, and where `transparent` stands. -/
inductive Written (data : Data I Span) :
    Form Span → Option (Ty Span) → Option (Ty Span) → Option Span → Prop
  | marker (hUnit : data = .struct .unit) (value : Ty Span) (codec : Option (Ty Span)) :
      Written data (.marker value (codecOr codec value)) (some value) codec none
  | selfValued (hFields : data ≠ .struct .unit) (codec : Ty Span) :
      Written data (.selfValued codec) none (some codec) none
  | transparent {member : Member Span} {inner : Ty Span}
      (hField : singleField data = some (member, inner)) (codec : Option (Ty Span)) (span : Span) :
      Written data (.transparent member inner (codecOr codec inner)) none codec (some span)

theorem form_of_written {form' : Form Span}
    (h : Written input.data form' attrs.value attrs.codec attrs.transparent) :
    form input attrs errors = (some form', errors) := by
  generalize hValue : attrs.value = value at h
  generalize hCodec : attrs.codec = codec at h
  generalize hTransparent : attrs.transparent = transparent at h
  cases h with
  | marker hUnit value =>
    simp [form, hUnit, required, missing_some, hValue, hCodec, hTransparent]
  | selfValued hFields codec =>
    simp [form, hValue, hCodec, hTransparent]
  | transparent hField codec span =>
    unfold form
    split
    · next hUnit =>
      rw [hUnit] at hField
      cases hField
    · simp only [hValue, hCodec, hTransparent, hField]

/-- A form that is not written is reported. -/
theorem exists_written (hWhole : errors = [] → attrs.Whole)
    (h : (form input attrs errors).2 = []) :
    errors = [] ∧ ∃ form, Written input.data form attrs.value attrs.codec attrs.transparent := by
  unfold form at h
  split at h
  · next hData =>
    cases hTransparent : attrs.transparent with
    | some span => simp [hTransparent, required] at h
    | none =>
      simp only [hTransparent, required, List.append_eq_nil_iff] at h
      obtain ⟨hErrors, hMissing⟩ := h
      have hSeen : Key.value ∈ attrs.seen → attrs.value ≠ none := by
        intro hMem hNone
        exact hWhole hErrors .value hMem (by rw [Attrs.get, hNone]; rfl)
      obtain ⟨value, hValue⟩ := exists_of_missing hSeen hMissing
      rw [hValue]
      exact ⟨hErrors, _, .marker hData value attrs.codec⟩
  · next data hFields =>
    cases hValue : attrs.value with
    | some value => simp [hValue] at h
    | none =>
      cases hTransparent : attrs.transparent with
      | some span =>
        simp only [hValue, hTransparent] at h
        split at h
        · simp at h
        · next member inner hField => exact ⟨h, _, .transparent hField attrs.codec span⟩
      | none =>
        cases hCodec : attrs.codec with
        | some codec =>
          simp only [hValue, hTransparent, hCodec] at h
          exact ⟨h, _, .selfValued hFields codec⟩
        | none =>
          simp only [hValue, hTransparent, hCodec] at h
          split at h
          · simp at h
          · next hReported =>
            -- A key that appeared was kept.
            have hUnseen (key : Key) (hNone : attrs.get key = none) : key ∉ attrs.seen :=
              fun hMem => hWhole h key hMem hNone
            have hNoCodec := hUnseen .codec (by rw [Attrs.get, hCodec]; rfl)
            have hNoFlag := hUnseen .transparent (by rw [Attrs.get, hTransparent]; rfl)
            simp [hNoCodec, hNoFlag] at hReported

/-- The entries of a seal. -/
def entries (id : UuidLiteral Span) (value codec : Option (Ty Span))
    (padding : Option (PaddingLit Span)) (transparent : Option Span) : List (Entry Span Path) :=
  .id id :: (value.toList.map .value ++ codec.toList.map .codec ++ padding.toList.map .padding
    ++ transparent.toList.map .transparent)

/-- The attributes that keep them. -/
def attrsOf (id : UuidLiteral Span) (value codec : Option (Ty Span))
    (padding : Option (PaddingLit Span)) (transparent : Option Span) : Attrs Span Path :=
  { (Attrs.empty "cryptbox" : Attrs Span Path) with id := some id, value, codec, padding, transparent }

theorem kept_attrsOf (id : UuidLiteral Span) (value codec : Option (Ty Span))
    (padding : Option (PaddingLit Span)) (transparent : Option Span) :
    (attrsOf id value codec padding transparent : Attrs Span Path).kept =
      entries id value codec padding transparent := by
  cases value <;> cases codec <;> cases padding <;> cases transparent <;> rfl

/-- The attributes keep the entries of a seal, as no other key is accepted. -/
theorem get_eq_iff_attrsOf {syn : Syntax I Span Path Meta}
    (hParse : Attrs.parse syn input.attrs "cryptbox" keys [] = .ok ⟨attrs, []⟩)
    {id : UuidLiteral Span} {value codec : Option (Ty Span)} {padding : Option (PaddingLit Span)}
    {transparent : Option Span} :
    (∀ key, attrs.get key = (attrsOf id value codec padding transparent).get key) ↔
      attrs.id = some id ∧ attrs.value = value ∧ attrs.codec = codec ∧ attrs.padding = padding ∧
        attrs.transparent = transparent := by
  have hNone (key : Key) (hKey : key ∉ keys) := Attrs.get_of_parse hParse hKey
  have hSeal := Option.map_eq_none_iff.mp (hNone .sealType (by decide))
  have hBits := Option.map_eq_none_iff.mp (hNone .bits (by decide))
  have hQuery := Option.map_eq_none_iff.mp (hNone .query (by decide))
  have hNormalize := Option.map_eq_none_iff.mp (hNone .normalize (by decide))
  have hNormalizer := Option.map_eq_none_iff.mp (hNone .normalizer (by decide))
  rw [Attrs.get_eq_iff, hSeal, hBits, hQuery, hNormalize, hNormalizer]
  constructor
  · rintro ⟨hId, hValue, hCodec, hPadding, -, -, -, -, -, hTransparent⟩
    exact ⟨hId, hValue, hCodec, hPadding, hTransparent⟩
  · rintro ⟨hId, hValue, hCodec, hPadding, hTransparent⟩
    exact ⟨hId, hValue, hCodec, hPadding, rfl, rfl, rfl, rfl, rfl, hTransparent⟩

/-- The attributes keep an ID, and a form is written. -/
def Complete (data : Data I Span) (attrs : Attrs Span Path) (declared : Declared Span) : Prop :=
  attrs.id = some declared.id ∧ attrs.padding = declared.padding ∧
    Written data declared.form attrs.value attrs.codec attrs.transparent

theorem finish_of_complete (h : Complete input.data attrs declared) :
    finish input attrs [] = .ok (.ok declared) := by
  obtain ⟨hId, hPadding, hWritten⟩ := h
  simp only [finish, required, hId, missing_some, List.append_nil, form_of_written hWritten, hPadding]
  rfl

/-- What is expanded is complete, and what is not is reported. -/
theorem finish_cases (hWhole : errors = [] → attrs.Whole) :
    (∃ declared, errors = [] ∧ Complete input.data attrs declared ∧
      finish input attrs errors = .ok (.ok declared)) ∨
        ∃ reports, reports ≠ [] ∧ finish input attrs errors = .ok (.error reports) := by
  by_cases hReports : (form input attrs
      (errors ++ missing attrs.id attrs .id input.ident "\"<uuid>\"")).2 = []
  · left
    have hNil (h : errors ++ missing attrs.id attrs .id input.ident "\"<uuid>\"" = []) :=
      List.append_eq_nil_iff.mp h
    obtain ⟨hErrors, form, hWritten⟩ := exists_written (fun h => hWhole (hNil h).1) hReports
    obtain ⟨hErrors, hMissing⟩ := hNil hErrors
    have hSeen : Key.id ∈ attrs.seen → attrs.id ≠ none := by
      intro hMem hNone
      exact hWhole hErrors .id hMem (by rw [Attrs.get, hNone]; rfl)
    obtain ⟨id, hId⟩ := exists_of_missing hSeen hMissing
    have hComplete : Complete input.data attrs ⟨id, attrs.padding, form⟩ := ⟨hId, rfl, hWritten⟩
    subst hErrors
    exact ⟨_, rfl, hComplete, finish_of_complete hComplete⟩
  · right
    refine ⟨_, hReports, if_pos ?_⟩
    rw [Bool.not_eq_true', List.isEmpty_eq_false_iff]
    exact hReports

theorem rejectShapes_eq_nil : rejectShapes input = [] ↔
    input.generics = none ∧ ∀ token, input.data ≠ .union token := by
  unfold rejectShapes
  rw [List.append_eq_nil_iff]
  refine and_congr ?_ ?_
  · cases input.generics <;> simp
  · cases input.data <;> simp

variable (syn : Syntax I Span Path Meta)

/-- What is expanded is complete, and what is not is reported. -/
theorem expand_cases (input : DeriveInput I Span) :
    (∃ attrs declared, rejectShapes input = [] ∧
        Attrs.parse syn input.attrs "cryptbox" keys [] = .ok ⟨attrs, []⟩ ∧
        Complete input.data attrs declared ∧ expand syn input = .ok (.ok declared)) ∨
      ∃ reports, reports ≠ [] ∧ expand syn input = .ok (.error reports) := by
  obtain ⟨attrs, errors, hParse, hQuiet⟩ := Attrs.parse_cases syn input.attrs "cryptbox" keys
    (rejectShapes input)
  have hExpand : expand syn input = finish input attrs errors := by
    rw [expand, hParse]
    rfl
  rw [hExpand]
  refine (finish_cases fun hErrors => (hQuiet hErrors).2.2).imp_left ?_
  rintro ⟨declared, hErrors, hComplete, hFinish⟩
  obtain ⟨hShapes, hParse, -⟩ := hQuiet hErrors
  exact ⟨attrs, declared, hShapes, hParse, hComplete, hFinish⟩

/-- **The seals that are expanded**: of a type that is neither generic nor a union, with an ID and
the keys of a form, in any order. -/
theorem expand_iff : expand syn input = .ok (.ok declared) ↔
    input.generics = none ∧ (∀ token, input.data ≠ .union token) ∧
      ∃ value codec transparent, Written input.data declared.form value codec transparent ∧
        Spelled syn input.attrs "cryptbox" keys
          (entries declared.id value codec declared.padding transparent) := by
  rw [← and_assoc, ← rejectShapes_eq_nil]
  constructor
  · intro h
    rcases expand_cases syn input with ⟨attrs, declared', hShapes, hParse, ⟨hId, hPadding, hWritten⟩,
      hExpand⟩ | ⟨reports, -, hExpand⟩
    · cases hExpand.symm.trans h
      refine ⟨hShapes, attrs.value, attrs.codec, attrs.transparent, hWritten, ?_⟩
      rw [← kept_attrsOf, ← Attrs.spelled_iff]
      exact ⟨attrs, hParse, (get_eq_iff_attrsOf hParse).mpr ⟨hId, rfl, rfl, hPadding, rfl⟩⟩
    · cases hExpand.symm.trans h
  · rintro ⟨hShapes, value, codec, transparent, hWritten, hSpelled⟩
    rw [← kept_attrsOf, ← Attrs.spelled_iff] at hSpelled
    obtain ⟨attrs, hParse, hKept⟩ := hSpelled
    obtain ⟨hId, rfl, rfl, hPadding, rfl⟩ := (get_eq_iff_attrsOf hParse).mp hKept
    rw [expand, hShapes, hParse]
    exact finish_of_complete ⟨hId, hPadding, hWritten⟩

end Seal

/-! ## Transparent seals -/

section

variable {prim : Primitives} {F : Cryptbox.Seal} {Self : Type} (member : Self → F.Value)
  (wrap : F.Value → Self)

/-- The codec that a transparent seal is: the codec of its field, behind the constructor. -/
def transparentCodec {Inner : Type} (codec : Codec Inner) (member : Self → Inner)
    (wrap : Inner → Self) : Codec Self where
  encode value := codec.encode (member value)
  decode bytes := wrap <$> codec.decode bytes

/-- The transparent seal with the ID, the padding and the codec of the marker `F` over its field. -/
def transparentSeal (F : Cryptbox.Seal) (member : Self → F.Value) (wrap : F.Value → Self) :
    Cryptbox.Seal :=
  { F with Value := Self, codec := transparentCodec F.codec member wrap }

variable {C : Option RecordKind} (context : SealContext) (keys : EncryptionKeys)

/-- **A transparent seal** stores the bytes of the marker over its field. -/
theorem transparent_seals (value : Self) (draw : Option Nonce) :
    Sealed.asBytes <$> (Sealed.sealUnder prim value context keys draw :
        Result (Sealed (transparentSeal F member wrap) C)) =
      Sealed.asBytes <$> (Sealed.sealUnder prim (member value) context keys draw :
        Result (Sealed F C)) := by
  have hEncode : (transparentSeal F member wrap).codec.encode value = F.codec.encode (member value) :=
    rfl
  unfold Sealed.sealUnder
  rw [hEncode]
  cases F.codec.encode (member value) with
  | error e => rfl
  | ok plaintext =>
    show Sealed.asBytes <$> (attach (Bound.seal prim context F.padding _ _ draw) >>= _) =
      Sealed.asBytes <$> (attach (Bound.seal prim context F.padding _ _ draw) >>= _)
    cases attach (Bound.seal prim context F.padding plaintext.val keys.encryptionKeyring draw) <;> rfl

/-- The two read each other's values. -/
theorem transparent_opens {s : Sealed (transparentSeal F member wrap) C} {s' : Sealed F C}
    (h : s.asBytes = s'.asBytes) :
    s.openUnder prim context keys = wrap <$> s'.openUnder prim context keys := by
  unfold Sealed.openUnder
  rw [h]
  cases Bound.open prim context s'.asBytes keys.encryptionKeyring with
  | error e => rfl
  | ok plaintext =>
    show mapErr (wrap <$> F.codec.decode plaintext) .codecFailed =
      wrap <$> mapErr (F.codec.decode plaintext) .codecFailed
    cases F.codec.decode plaintext <;> rfl

end

/-! ## Both derives -/

/-- The derives are exact. -/
structure SpecsExact (syn : Syntax I Span Path Meta) : Prop where
  seals : ∀ (input : DeriveInput I Span) (declared : Seal.Declared Span),
    Seal.expand syn input = .ok (.ok declared) ↔
      input.generics = none ∧ (∀ token, input.data ≠ .union token) ∧
        ∃ value codec transparent, Seal.Written input.data declared.form value codec transparent ∧
          Spelled syn input.attrs "cryptbox" Seal.keys
            (Seal.entries declared.id value codec declared.padding transparent)
  specs : ∀ (input : DeriveInput I Span) (declared : BlindIndex.Declared Span Path),
    BlindIndex.expand syn input = .ok (.ok declared) ↔
      input.generics = none ∧ (∃ fields, input.data = .struct fields) ∧
        Spelled syn input.attrs "cryptbox" BlindIndex.keys declared.entries
  /-- What is not expanded is reported, without a panic. -/
  sealReports : ∀ input : DeriveInput I Span,
    (∃ declared, Seal.expand syn input = .ok (.ok declared)) ∨
      ∃ reports, reports ≠ [] ∧ Seal.expand syn input = .ok (.error reports)
  specReports : ∀ input : DeriveInput I Span,
    (∃ declared, BlindIndex.expand syn input = .ok (.ok declared)) ∨
      ∃ reports, reports ≠ [] ∧ BlindIndex.expand syn input = .ok (.error reports)
  /-- The constants of an expansion are evaluated: no assertion of the library fails. -/
  sealConsts : ∀ (input : DeriveInput I Span) (declared : Seal.Declared Span),
    Seal.expand syn input = .ok (.ok declared) →
      (∃ id : SealId, declared.id.id = .ok id) ∧ ∃ padding, declared.paddingConst = .ok padding
  specConsts : ∀ (input : DeriveInput I Span) (declared : BlindIndex.Declared Span Path),
    BlindIndex.expand syn input = .ok (.ok declared) →
      (∃ id : IndexId, declared.id.id = .ok id) ∧ validBits declared.bits.digits = true ∧
        Cryptbox.validNormalizer declared.normalizer.value = .ok true
  /-- A transparent seal stores the bytes of the marker over its field. -/
  transparentSeals : ∀ (prim : Primitives) (F : Cryptbox.Seal) (Self : Type) (member : Self → F.Value)
    (wrap : F.Value → Self) (C : Option RecordKind) (context : SealContext) (keys : EncryptionKeys)
    (value : Self) (draw : Option Nonce),
    Sealed.asBytes <$> (Sealed.sealUnder prim value context keys draw :
        Result (Sealed (transparentSeal F member wrap) C)) =
      Sealed.asBytes <$> (Sealed.sealUnder prim (member value) context keys draw :
        Result (Sealed F C))
  /-- And each reads what the other stored. -/
  transparentOpens : ∀ (prim : Primitives) (F : Cryptbox.Seal) (Self : Type) (member : Self → F.Value)
    (wrap : F.Value → Self) (C : Option RecordKind) (context : SealContext) (keys : EncryptionKeys)
    (s : Sealed (transparentSeal F member wrap) C) (s' : Sealed F C), s.asBytes = s'.asBytes →
      s.openUnder prim context keys = wrap <$> s'.openUnder prim context keys

theorem Seal.padding_valid {syn : Syntax I Span Path Meta} {input : DeriveInput I Span}
    {declared : Declared Span} (h : expand syn input = .ok (.ok declared)) :
    ∃ padding, declared.paddingConst = .ok padding := by
  obtain ⟨-, -, value, codec, transparent, -, hSpelled⟩ := (expand_iff syn).mp h
  unfold Declared.paddingConst
  split
  · next literal hPadding =>
    exact hSpelled.valid (.padding literal) (by simp [entries, hPadding])
  · exact ⟨.none, rfl⟩

theorem BlindIndex.consts_valid {syn : Syntax I Span Path Meta} {input : DeriveInput I Span}
    {declared : Declared Span Path} (h : expand syn input = .ok (.ok declared)) :
    validBits declared.bits.digits = true ∧
      Cryptbox.validNormalizer declared.normalizer.value = .ok true := by
  obtain ⟨-, -, hSpelled⟩ := (expand_iff syn).mp h
  exact ⟨hSpelled.valid (.bits declared.bits) (by simp [Declared.entries]),
    hSpelled.valid (.normalizer declared.normalizer) (by simp [Declared.entries])⟩

/-- **The seal and the index derive** expand exactly the items whose attributes spell a declaration,
to constants that the library takes. -/
theorem specs_exact (syn : Syntax I Span Path Meta) : SpecsExact syn where
  seals _ _ := Seal.expand_iff syn
  specs _ _ := BlindIndex.expand_iff syn
  sealReports input := by
    rcases Seal.expand_cases syn input with ⟨_, declared, -, -, -, hExpand⟩ | hReports
    · exact .inl ⟨declared, hExpand⟩
    · exact .inr hReports
  specReports input := by
    rcases BlindIndex.expand_cases syn input with ⟨_, declared, -, -, -, hExpand⟩ | hReports
    · exact .inl ⟨declared, hExpand⟩
    · exact .inr hReports
  sealConsts _ declared h := ⟨⟨_, declared.id.id_eq⟩, Seal.padding_valid h⟩
  specConsts _ declared h := ⟨⟨_, declared.id.id_eq⟩, BlindIndex.consts_valid h⟩
  transparentSeals _ _ _ member wrap _ context keys value draw :=
    transparent_seals member wrap context keys value draw
  transparentOpens _ _ _ member wrap _ context keys _ _ h :=
    transparent_opens member wrap context keys h

/-! ### A spec -/

namespace Vectors

/-- A marker with these attributes. -/
def marker (name : String) (attrs : List (List (TokenTree String))) :
    DeriveInput (Input String) String :=
  ⟨attrs.map cryptbox, ⟨name, name⟩, none, .struct .unit⟩

/-- The spec of `examples/legacy_migration.rs`, in two attributes and in another order. -/
def emailIndex : DeriveInput (Input String) String := marker "UserEmailIndex" [
  commas [entry "seal" (ident "UserEmail"), strEntry "id" "5524ca6c-ec5d-4027-8e8f-b9c73911b304",
    entry "query" (ident "str")],
  commas [entry "bits" (.literal (.int 128 "") "128"), strEntry "normalizer" "email/1",
    entry "normalize" (ident "normalize_email")]]

/-- What the derive reports of a spec. -/
def specReports (input : DeriveInput (Input String) String) : List String :=
  match BlindIndex.expand words input with
  | .ok (.error diagnostics) => diagnostics.map Diagnostic.message
  | _ => []

end Vectors

open Vectors in
/-- The spec of the example is expanded, to what its attributes spell. -/
theorem specs_exact_emailIndex : ∃ declared : BlindIndex.Declared String String,
    BlindIndex.expand words emailIndex = .ok (.ok declared) ∧
      Spelled words emailIndex.attrs "cryptbox" BlindIndex.keys declared.entries ∧
        validBits declared.bits.digits = true := by
  have hExact := specs_exact words
  have hReports : specReports emailIndex = [] := by decide +kernel
  rcases hExact.specReports emailIndex with ⟨declared, hExpand⟩ | ⟨diagnostics, hSome, hExpand⟩
  · obtain ⟨-, -, hSpelled⟩ := (hExact.specs _ _).mp hExpand
    exact ⟨declared, hExpand, hSpelled, (hExact.specConsts _ _ hExpand).2.1⟩
  · rw [specReports, hExpand] at hReports
    exact absurd (List.map_eq_nil_iff.mp hReports) hSome

end Cryptbox.Derive

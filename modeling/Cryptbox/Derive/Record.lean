import Cryptbox.Base.Repeats
import Cryptbox.Derive.Uuid

/-!
# The record derive

`record.rs` of the derive crate: what `#[derive(Record)]` makes of the attributes of each field,
and what it checks of the record as a whole. Identifiers are compared by their text, with the
`r#` of a raw identifier, and an option is told by its name.

* `checkDistinct_eq`: each ID that repeats an earlier one is reported once.
* `parseField_of_noReports`: a field without a report is there.
* `checkRecord_eq_nil`: the records without a report.
-/

namespace Cryptbox.Derive

open Base

variable {Span : Type}

/-! ## Syntax -/

/-- `Ident`: `text` is what it displays. -/
structure Ident (Span : Type) where
  text : String
  span : Span

/-- `ident.unraw()`. -/
def Ident.unraw (ident : Ident Span) : String :=
  match ident.text.toList with
  | 'r' :: '#' :: rest => String.ofList rest
  | _ => ident.text

mutual

/-- `Type`: a path, with an explicit self type or not, or anything else. -/
inductive Ty (Span : Type) where
  | path (qself : Bool) (segments : List (PathSegment Span)) (span : Span)
  | other (span : Span)

/-- `PathSegment`, with its arguments if they stand in angle brackets. -/
inductive PathSegment (Span : Type) where
  | mk (ident : String) (arguments : Option (List (GenericArgument Span)))

inductive GenericArgument (Span : Type) where
  | type (ty : Ty Span)
  | other

end

def Ty.span : Ty Span → Span
  | .path _ _ span => span
  | .other span => span

/-- For an `Option<T>`, `T`. -/
def Ty.optionalInner : Ty Span → Option (Ty Span)
  | .other _ => none
  | .path qself segments _ =>
    match segments.getLast? with
    | none => none
    | some (.mk ident arguments) =>
      if ident ≠ "Option" || qself then none
      else match arguments with
        | some [.type inner] => some inner
        | _ => none

/-! ## Fields -/

/-- A blind index a sealed field writes. -/
structure IndexDecl (Span : Type) where
  span : Span
  id : UuidLiteral Span
  column : Ident Span

/-- A sealed field's own seal and the blind indexes it writes. -/
structure Sealing (Span : Type) where
  id : UuidLiteral Span
  indexes : List (IndexDecl Span)

/-- What a field is to the record. -/
inductive Role (Span : Type) where
  | recordId
  | sealed (sealing : Sealing Span)
  | plaintext

structure Field (Span : Type) where
  ident : Ident Span
  ty : Ty Span
  role : Role Span

namespace Field

def isRecordId (field : Field Span) : Bool :=
  match field.role with
  | .recordId => true
  | _ => false

def sealing (field : Field Span) : Option (Sealing Span) :=
  match field.role with
  | .sealed sealing => some sealing
  | _ => none

/-- The blind indexes of the field. -/
def indexes (field : Field Span) : List (IndexDecl Span) :=
  match field.sealing with
  | some sealing => sealing.indexes
  | none => []

end Field

/-! ## The attributes of a field -/

/-- The key that gives a field its role. -/
inductive RoleKey where
  | recordId
  | sealed
  | plaintext
  deriving DecidableEq, Repr

/-- The roles and settings one field's attributes give it, and their errors: the attributes are
malformed when there are any. -/
structure FieldAttrs (Span : Type) where
  roles : List (Span × RoleKey)
  sealId : Option (UuidLiteral Span)
  codec : Option Span
  padding : Option Span
  name : Option Span
  indexes : List (IndexDecl Span)
  errors : List (Diagnostic Span)
  /-- A seal without an ID was reported when the ID was parsed. -/
  reported : ∀ span, (span, RoleKey.sealed) ∈ roles → sealId = none → errors ≠ []

/-- `parse_field`: the field, if it has a role, and what is reported. -/
def parseField (ident : Ident Span) (ty : Ty Span) (attrs : FieldAttrs Span) :
    Option (Field Span) × List (Diagnostic Span) :=
  match attrs.roles with
  | [] =>
    -- The attribute's own error already says what is wrong.
    if attrs.errors.isEmpty then
      (none, [⟨ident.span, s!"`{ident.text}` has no role: mark it `#[cryptbox(seal = \"<uuid>\")]` "
        ++ "to encrypt it, `#[cryptbox(plaintext)]` to store it as it is, or "
        ++ "`#[cryptbox(record_id)]`"⟩])
    else (none, attrs.errors)
  | [(_, .sealed)] =>
    match attrs.sealId, attrs.indexes with
    | none, _ => (none, attrs.errors)
    | some id, first :: second :: _ =>
      (some ⟨ident, ty, .sealed ⟨id, [first]⟩⟩, attrs.errors ++
        [⟨second.span, s!"`{ident.text}` has more than one `blind_index`: a field takes one, "
          ++ s!"stored in `{second.column.text}`; derive any other outside the record, with its own "
          ++ "`BlindIndexSpec` over the field's seal"⟩])
    | some id, indexes => (some ⟨ident, ty, .sealed ⟨id, indexes⟩⟩, attrs.errors)
  | [(_, role)] =>
    let configured := [attrs.codec.map (·, "codec"), attrs.padding.map (·, "padding"),
      attrs.name.map (·, "name")]
    (some ⟨ident, ty, if role = .recordId then .recordId else .plaintext⟩, attrs.errors
      ++ configured.reduceOption.map (fun (span, key) =>
        ⟨span, s!"`{key}` configures a field's seal; `{ident.text}` is not sealed"⟩)
      ++ attrs.indexes.map fun index =>
        ⟨index.span, s!"`{ident.text}` is not sealed, so it has no blind index: seal it to index it"⟩)
  | _ :: (span, _) :: _ =>
    (none, attrs.errors ++ [⟨span, s!"`{ident.text}` has more than one role: a field is exactly one "
      ++ "of `record_id`, `seal`, or `plaintext`"⟩])

/-! ## The record as a whole -/

/-- Reports each ID after the first that repeats an earlier one, naming the field that declared
it first. -/
def checkDistinct (ids : List (UuidLiteral Span × Ident Span)) (message : Ident Span → String) :
    List (Diagnostic Span) :=
  reportRepeats (fun entry => entry.1.value) (fun first entry => ⟨entry.1.span, message first.2⟩)
    [] ids

/-- The seal IDs, each with the name of its field. -/
def sealIds (fields : List (Field Span)) : List (UuidLiteral Span × Ident Span) :=
  fields.filterMap fun field => field.sealing.map fun sealing => (sealing.id, field.ident)

/-- The index IDs, each with the name of its field. -/
def indexIds (fields : List (Field Span)) : List (UuidLiteral Span × Ident Span) :=
  fields.flatMap fun field => field.indexes.map fun index => (index.id, field.ident)

/-- The columns of the blind indexes, each with its field. -/
def indexColumns (fields : List (Field Span)) : List (Field Span × Ident Span) :=
  fields.flatMap fun field => field.indexes.map fun index => (field, index.column)

def sealIdMessage (first : Ident Span) : String :=
  s!"`{first.text}` already declares this seal ID: give each sealed field its own, or "
    ++ "their values can be swapped undetected"

def indexIdMessage (first : Ident Span) : String :=
  s!"`{first.text}` already declares this index ID: give each blind index its own"

def checkRecordIds (name : Ident Span) (fields : List (Field Span)) : List (Diagnostic Span) :=
  match fields.filter Field.isRecordId with
  | [] => [⟨name.span,
      s!"`{name.text}` needs a record ID: mark the field that holds it `#[cryptbox(record_id)]`"⟩]
  | [_] => []
  | _ :: extra :: _ => [⟨extra.ident.span,
      "a record has one record ID: mark only one field `#[cryptbox(record_id)]`"⟩]

def checkSealed (name : Ident Span) (fields : List (Field Span)) : List (Diagnostic Span) :=
  if fields.any fun field => field.sealing.isSome then []
  else [⟨name.span,
    s!"`{name.text}` has no sealed field: mark one `#[cryptbox(seal = \"<uuid>\")]`, or "
      ++ "store it without `#[derive(Record)]`"⟩]

def checkOptional (fields : List (Field Span)) : List (Diagnostic Span) :=
  (fields.filter fun field => field.isRecordId && field.ty.optionalInner.isSome).map fun field =>
    ⟨field.ty.span,
      s!"`{field.ident.text}` is bound into every sealed field, so it can't be optional"⟩

def columnReport (entry : Field Span × Ident Span) : Diagnostic Span :=
  let field := entry.1.ident.text
  let column := entry.2.text
  ⟨entry.2.span, s!"the blind index of `{field}` is stored in the `{column}` column, which is already a "
    ++ "field: rename that field"⟩

def checkColumns (fields : List (Field Span)) : List (Diagnostic Span) :=
  reportTaken (fun entry => entry.2.text) columnReport (fields.map fun field => field.ident.text)
    (indexColumns fields)

/-- Checks the record as a whole: one record ID, at least one sealed field, distinct seal and
index IDs, and distinct columns. -/
def checkRecord (name : Ident Span) (fields : List (Field Span)) : List (Diagnostic Span) :=
  checkRecordIds name fields ++ checkSealed name fields ++ checkOptional fields
    ++ checkDistinct (sealIds fields) sealIdMessage
    ++ checkDistinct (indexIds fields) indexIdMessage
    ++ checkColumns fields

/-! ## Parsing -/

/-- A field without a report is there, and writes at most one blind index. -/
theorem parseField_of_noReports {ident : Ident Span} {ty : Ty Span} {attrs : FieldAttrs Span}
    (h : (parseField ident ty attrs).2 = []) :
    ∃ field, (parseField ident ty attrs).1 = some field ∧ field.ident = ident ∧ field.ty = ty ∧
      field.indexes.length ≤ 1 := by
  unfold parseField at h ⊢
  split at h
  · next hRoles =>
    split_ifs at h with hErrors
    rw [List.isEmpty_iff] at hErrors
    exact absurd h hErrors
  · next span hRoles =>
    split at h
    · next hSeal =>
      exact absurd h (attrs.reported span (by rw [hRoles]; exact List.mem_singleton_self _) hSeal)
    · next id first second rest hSeal hIndexes => simp at h
    · next id hSeal hSecond =>
      refine ⟨_, rfl, rfl, rfl, ?_⟩
      show attrs.indexes.length ≤ 1
      match hIndexes : attrs.indexes with
      | [] => exact Nat.zero_le 1
      | [_] => exact Nat.le_refl 1
      | first :: second :: rest => exact absurd hIndexes (hSecond first second rest)
  · next span role hNotSealed hRoles =>
    refine ⟨_, rfl, rfl, rfl, ?_⟩
    split <;> exact Nat.zero_le 1
  · next first span role rest hRoles => simp at h

/-! ## What is reported -/

/-- The IDs that repeat an earlier one, in order, each with the name of the field that declared
it first. -/
def repeats (ids : List (UuidLiteral Span × Ident Span)) : List (UuidLiteral Span × Ident Span) :=
  ids.zipIdx.filterMap fun entry =>
    ((ids.take entry.2).find? fun earlier => earlier.1.value = entry.1.1.value).map
      fun first => (entry.1.1, first.2)

/-- **Each ID** that repeats an earlier one is reported once, with the field that declared it
first. -/
theorem checkDistinct_eq (ids : List (UuidLiteral Span × Ident Span))
    (message : Ident Span → String) : checkDistinct ids message =
      (repeats ids).map fun entry => ⟨entry.1.span, message entry.2⟩ := by
  rw [checkDistinct, reportRepeats_eq, repeats, List.map_filterMap]
  refine List.filterMap_congr fun entry _ => ?_
  rw [Option.map_map]
  rfl

theorem checkDistinct_eq_nil {ids : List (UuidLiteral Span × Ident Span)}
    {message : Ident Span → String} :
    checkDistinct ids message = [] ↔ (ids.map fun entry => entry.1.value).Nodup :=
  reportRepeats_eq_nil

/-- What the check of a record asks for. -/
structure Accepts (fields : List (Field Span)) : Prop where
  /-- One field is the record ID, and its type is no option. -/
  recordId : ∃ field, fields.filter Field.isRecordId = [field] ∧ field.ty.optionalInner = none
  sealed : ∃ field ∈ fields, ∃ sealing, field.sealing = some sealing
  distinctSeals : ((sealIds fields).map fun entry => entry.1.value).Nodup
  distinctIndexes : ((indexIds fields).map fun entry => entry.1.value).Nodup
  distinctColumns : ((indexColumns fields).map fun entry => entry.2.text).Nodup
  freeColumns : ∀ entry ∈ indexColumns fields, ∀ field ∈ fields, entry.2.text ≠ field.ident.text

theorem checkRecordIds_eq_nil {name : Ident Span} {fields : List (Field Span)} :
    checkRecordIds name fields = [] ↔ ∃ field, fields.filter Field.isRecordId = [field] := by
  unfold checkRecordIds
  split
  · next h => simp [h]
  · next field h => simp [h]
  · next first extra rest h => simp [h]

theorem checkSealed_eq_nil {name : Ident Span} {fields : List (Field Span)} :
    checkSealed name fields = [] ↔ ∃ field ∈ fields, ∃ sealing, field.sealing = some sealing := by
  unfold checkSealed
  split
  · next h =>
    refine iff_of_true rfl ?_
    obtain ⟨field, hMem, hSealing⟩ := List.any_eq_true.mp h
    exact ⟨field, hMem, Option.isSome_iff_exists.mp hSealing⟩
  · next h =>
    refine iff_of_false (List.cons_ne_nil _ _) fun hSealed => h ?_
    obtain ⟨field, hMem, hSealing⟩ := hSealed
    exact List.any_eq_true.mpr ⟨field, hMem, Option.isSome_iff_exists.mpr hSealing⟩

theorem checkOptional_eq_nil {fields : List (Field Span)} :
    checkOptional fields = [] ↔
      ∀ field ∈ fields.filter Field.isRecordId, field.ty.optionalInner = none := by
  rw [checkOptional, List.map_eq_nil_iff, List.filter_eq_nil_iff]
  simp only [List.mem_filter, Bool.and_eq_true, not_and, Bool.not_eq_true, Option.isSome_eq_false_iff,
    Option.isNone_iff_eq_none, and_imp]

theorem checkColumns_eq_nil {fields : List (Field Span)} :
    checkColumns fields = [] ↔ ((indexColumns fields).map fun entry => entry.2.text).Nodup ∧
      ∀ entry ∈ indexColumns fields, ∀ field ∈ fields, entry.2.text ≠ field.ident.text := by
  rw [checkColumns, reportTaken_eq_nil]
  refine and_congr_right fun _ => forall₂_congr fun entry _ => ?_
  rw [List.mem_map]
  constructor
  · intro h field hField hText
    exact h ⟨field, hField, hText.symm⟩
  · rintro h ⟨field, hField, hText⟩
    exact h field hField hText.symm

/-- **The records** without a report. -/
theorem checkRecord_eq_nil {name : Ident Span} {fields : List (Field Span)} :
    checkRecord name fields = [] ↔ Accepts fields := by
  simp only [checkRecord, List.append_eq_nil_iff, checkRecordIds_eq_nil, checkSealed_eq_nil,
    checkOptional_eq_nil, checkDistinct_eq_nil, checkColumns_eq_nil]
  constructor
  · rintro ⟨⟨⟨⟨⟨⟨field, hField⟩, hSealed⟩, hOptional⟩, hSeals⟩, hIndexes⟩, hColumns, hFree⟩
    refine ⟨⟨field, hField, hOptional field ?_⟩, hSealed, hSeals, hIndexes, hColumns, hFree⟩
    rw [hField]
    exact List.mem_singleton_self field
  · rintro ⟨⟨field, hField, hOptional⟩, hSealed, hSeals, hIndexes, hColumns, hFree⟩
    refine ⟨⟨⟨⟨⟨⟨field, hField⟩, hSealed⟩, ?_⟩, hSeals⟩, hIndexes⟩, hColumns, hFree⟩
    rw [hField]
    exact List.forall_mem_singleton.mpr hOptional

end Cryptbox.Derive

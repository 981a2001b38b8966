import Cryptbox.Derive.Record
import Cryptbox.Record.Declaration

/-!
# Records that are expanded

What the check of the derive establishes for the stored form and for the contexts that its sealed
fields are sealed under, and that the declarations the library is verified with are the ones that
the derive accepts.

* `Accepts.columns_nodup`: the columns of the stored form.
* `Accepts.contexts_nodup`: the contexts of the sealed fields.
* `checkRecord_expands`: the check of a declaration is the check of the fields it is expanded from.
* `recordCheck`: the check is exact.
-/

namespace Cryptbox.Derive

open Base

variable {Span : Type}

/-! ## The stored form -/

/-- The columns of the stored form: each field, and its blind indexes after it. -/
def storedColumns (fields : List (Field Span)) : List (Ident Span) :=
  fields.flatMap fun field => field.ident :: field.indexes.map IndexDecl.column

/-- The columns are distinct, as the names of the fields of a struct are. -/
theorem Accepts.columns_nodup {fields : List (Field Span)} (h : Accepts fields)
    (hNames : (fields.map fun field => field.ident.text).Nodup) :
    ((storedColumns fields).map Ident.text).Nodup := by
  have hPerm := (List.map_append_flatMap_perm fields Field.ident
    fun field => field.indexes.map IndexDecl.column).map Ident.text
  have hColumns : (fields.flatMap fun field => field.indexes.map IndexDecl.column) =
      (indexColumns fields).map Prod.snd := by
    rw [indexColumns, List.map_flatMap]
    simp [Function.comp_def]
  rw [List.map_append, List.map_map, hColumns, List.map_map] at hPerm
  refine hPerm.nodup_iff.mp (List.nodup_append'.mpr ⟨hNames, h.distinctColumns, ?_⟩)
  intro text hText hColumn
  obtain ⟨field, hField, rfl⟩ := List.mem_map.mp hText
  obtain ⟨entry, hEntry, hSame⟩ := List.mem_map.mp hColumn
  exact h.freeColumns entry hEntry field hField hSame

/-! ## Contexts -/

/-- The seals of the sealed fields are declared with distinct IDs. -/
theorem Accepts.exists_sealIds {fields : List (Field Span)} (h : Accepts fields) :
    ∃ ids : List SealId, (sealIds fields).mapM (fun entry => (entry.1.id : Result SealId)) = .ok ids ∧
      ids.Nodup := by
  refine ⟨(sealIds fields).map fun entry => ⟨beBlock 16 entry.1.value.toNat⟩, ?_, ?_⟩
  · rw [mapM_eq_ok, List.forall₂_map_right_iff, List.forall₂_same]
    exact fun entry _ => entry.1.id_eq
  · have hInjective : Function.Injective fun value : BitVec 128 =>
        (⟨beBlock 16 value.toNat⟩ : SealId) := by
      intro v w hSame
      have hBytes : be 16 v.toNat = be 16 w.toNat :=
        congrArg (fun id : SealId => id.asBytes.val) hSame
      exact BitVec.eq_of_toNat_eq (be_injective v.isLt w.isLt hBytes)
    have hNodup := h.distinctSeals.map hInjective
    rwa [List.map_map] at hNodup

/-- The contexts of the sealed fields are distinct, for any record ID. -/
theorem Accepts.contexts_nodup {fields : List (Field Span)} (h : Accepts fields)
    (prim : Primitives) (record : RecordValue) :
    ∃ ids : List SealId, (sealIds fields).mapM (fun entry => (entry.1.id : Result SealId)) = .ok ids ∧
      (ids.map fun id => (SealContext.new prim id (some record)).bytes).Nodup := by
  obtain ⟨ids, hIds, hNodup⟩ := h.exists_sealIds
  refine ⟨ids, hIds, hNodup.map fun a b hSame => ?_⟩
  exact (contextBytes_injective hSame).1

/-! ## Declarations -/

/-- A field of a declaration that the derive expands a parsed field to. -/
inductive Expands : Field Span → Cryptbox.Field → Prop
  | recordId (ident : Ident Span) (ty : Ty Span) :
      Expands ⟨ident, ty, .recordId⟩ ⟨ident.text, ty.optionalInner.isSome, .recordId⟩
  | plaintext (ident : Ident Span) (ty : Ty Span) (T : Type) :
      Expands ⟨ident, ty, .plaintext⟩ ⟨ident.text, ty.optionalInner.isSome, .plaintext T⟩
  | sealed (ident : Ident Span) (ty : Ty Span) {id : UuidLiteral Span} {F : Seal}
      (hSeal : id.id = .ok F.id) :
      Expands ⟨ident, ty, .sealed ⟨id, []⟩⟩ ⟨ident.text, ty.optionalInner.isSome, .sealed ⟨F, none⟩⟩
  | indexed (ident : Ident Span) (ty : Ty Span) {id : UuidLiteral Span} {F : Seal}
      {index : IndexDecl Span} {spec : BlindIndexSpec F} (hSeal : id.id = .ok F.id)
      (hIndex : index.id.id = .ok spec.id) (hColumn : index.column.text = ident.text ++ "_index") :
      Expands ⟨ident, ty, .sealed ⟨id, [index]⟩⟩
        ⟨ident.text, ty.optionalInner.isSome, .sealed ⟨F, some spec⟩⟩

/-- An ID as a declaration has it. -/
def declaredId (entry : UuidLiteral Span × Ident Span) : Block 16 × String :=
  (beBlock 16 entry.1.value.toNat, entry.2.text)

theorem declaredId_fst_eq {a b : UuidLiteral Span × Ident Span} :
    (declaredId a).1 = (declaredId b).1 ↔ a.1.value = b.1.value := by
  constructor
  · intro h
    exact BitVec.eq_of_toNat_eq (be_injective a.1.value.isLt b.1.value.isLt (congrArg Subtype.val h))
  · intro h
    rw [declaredId, declaredId, h]

theorem asBytes_of_id {tag : IdTag} {literal : UuidLiteral Span} {id : Identifier tag}
    (h : literal.id = .ok id) : id.asBytes = beBlock 16 literal.value.toNat := by
  rw [literal.id_eq] at h
  cases h
  rfl

section

variable {fields : List (Field Span)} {declared : List Cryptbox.Field}

theorem expands_sealIds (h : List.Forall₂ Expands fields declared) :
    declared.filterMap Cryptbox.Field.sealId = (sealIds fields).map declaredId := by
  induction h with
  | nil => rfl
  | cons hField _ ih =>
    rw [sealIds] at ih ⊢
    cases hField with
    | recordId ident ty => exact ih
    | plaintext ident ty T => exact ih
    | sealed ident ty hSeal =>
      exact congrArg₂ List.cons (Prod.ext (asBytes_of_id hSeal) rfl) ih
    | indexed ident ty hSeal hIndex hColumn =>
      exact congrArg₂ List.cons (Prod.ext (asBytes_of_id hSeal) rfl) ih

theorem expands_indexIds (h : List.Forall₂ Expands fields declared) :
    declared.filterMap Cryptbox.Field.indexId = (indexIds fields).map declaredId := by
  induction h with
  | nil => rfl
  | cons hField _ ih =>
    rw [indexIds] at ih ⊢
    cases hField with
    | recordId ident ty => exact ih
    | plaintext ident ty T => exact ih
    | sealed ident ty hSeal => exact ih
    | indexed ident ty hSeal hIndex hColumn =>
      exact congrArg₂ List.cons (Prod.ext (asBytes_of_id hIndex) rfl) ih

theorem expands_columns (h : List.Forall₂ Expands fields declared) :
    declared.filterMap Cryptbox.Field.column =
      (indexColumns fields).map fun entry => (entry.1.ident.text, entry.2.text) := by
  induction h with
  | nil => rfl
  | cons hField _ ih =>
    rw [indexColumns] at ih ⊢
    cases hField with
    | recordId ident ty => exact ih
    | plaintext ident ty T => exact ih
    | sealed ident ty hSeal => exact ih
    | indexed ident ty hSeal hIndex hColumn =>
      exact congrArg₂ List.cons (Prod.ext rfl hColumn.symm) ih

theorem expands_isRecordId {field : Field Span} {field' : Cryptbox.Field} (h : Expands field field') :
    field'.isRecordId = field.isRecordId ∧ field'.ident = field.ident.text ∧
      field'.optional = field.ty.optionalInner.isSome ∧
        field'.sealing.isSome = field.sealing.isSome := by
  cases h <;> exact ⟨rfl, rfl, rfl, rfl⟩

/-! ### Reports -/

/-- The IDs of a declaration repeat as those of the fields. -/
theorem checkDistinct_expands (report : String → String → DeclarationError)
    (message : Ident Span → String)
    (hMessage : ∀ (first : Ident Span) field, (report first.text field).message = message first)
    (seen ids : List (UuidLiteral Span × Ident Span)) :
    (Cryptbox.checkDistinct report (seen.map declaredId) (ids.map declaredId)).map
        DeclarationError.message =
      (reportRepeats (fun entry => entry.1.value)
        (fun first entry => (⟨entry.1.span, message first.2⟩ : Diagnostic Span)) seen ids).map
          Diagnostic.message := by
  induction ids generalizing seen with
  | nil => rfl
  | cons entry rest ih =>
    have hFind : (seen.map declaredId).find? (fun earlier => earlier.1 = (declaredId entry).1) =
        (seen.find? fun earlier => earlier.1.value = entry.1.value).map declaredId := by
      rw [List.find?_map]
      refine congrArg (fun test => (seen.find? test).map declaredId) (funext fun earlier => ?_)
      exact decide_eq_decide.mpr declaredId_fst_eq
    rw [List.map_cons, Cryptbox.checkDistinct, reportRepeats, hFind]
    cases seen.find? fun earlier => earlier.1.value = entry.1.value with
    | some first => exact congrArg₂ List.cons (hMessage first.2 _) (ih seen)
    | none =>
      have hSeen := ih (seen ++ [entry])
      rwa [List.map_append, List.map_singleton] at hSeen

/-- The columns of a declaration are taken as those of the fields. -/
theorem checkColumns_expands (taken : List String) (entries : List (Field Span × Ident Span)) :
    (Cryptbox.checkColumns taken
        (entries.map fun entry => (entry.1.ident.text, entry.2.text))).map DeclarationError.message =
      (reportTaken (fun entry => entry.2.text) columnReport taken entries).map
        Diagnostic.message := by
  induction entries generalizing taken with
  | nil => rfl
  | cons entry rest ih =>
    rw [List.map_cons, Cryptbox.checkColumns, reportTaken, List.map_append, List.map_append, ih]
    by_cases hTaken : entry.2.text ∈ taken
    · rw [if_pos (List.contains_iff_mem.mpr hTaken), if_pos hTaken]
      rfl
    · rw [if_neg (List.contains_iff_mem.not.mpr hTaken), if_neg hTaken]
      rfl

/-- What a field and its declaration have in common, field by field. -/
theorem expands_map {γ : Type} (h : List.Forall₂ Expands fields declared) {f : Field Span → γ}
    {g : Cryptbox.Field → γ} (hSame : ∀ field field', Expands field field' → g field' = f field) :
    declared.map g = fields.map f := by
  induction h with
  | nil => rfl
  | cons hField _ ih => exact congrArg₂ List.cons (hSame _ _ hField) ih

/-- Fields of one kind are those of the declaration. -/
theorem expands_filter (h : List.Forall₂ Expands fields declared) {p : Field Span → Bool}
    {q : Cryptbox.Field → Bool} (hTest : ∀ field field', Expands field field' → q field' = p field) :
    List.Forall₂ Expands (fields.filter p) (declared.filter q) := by
  induction h with
  | nil => exact .nil
  | @cons field field' rest rest' hField _ ih =>
    rw [List.filter_cons, List.filter_cons, hTest field field' hField]
    split
    · exact .cons hField ih
    · exact ih

theorem checkRecordIds_expands (name : Ident Span) (h : List.Forall₂ Expands fields declared) :
    (Cryptbox.checkRecordIds name.text declared).map DeclarationError.message =
      (checkRecordIds name fields).map Diagnostic.message := by
  have hFilter := expands_filter h fun _ _ hField => (expands_isRecordId hField).1
  unfold Cryptbox.checkRecordIds checkRecordIds
  generalize fields.filter Field.isRecordId = ids at hFilter ⊢
  generalize declared.filter Cryptbox.Field.isRecordId = ids' at hFilter ⊢
  rcases hFilter with _ | ⟨-, _ | ⟨-, -⟩⟩ <;> rfl

theorem checkSealed_expands (name : Ident Span) (h : List.Forall₂ Expands fields declared) :
    (if declared.any fun field => field.sealing.isSome then []
      else [DeclarationError.noSealedField name.text]).map DeclarationError.message =
      (checkSealed name fields).map Diagnostic.message := by
  have hAny : (declared.any fun field => field.sealing.isSome) =
      fields.any fun field => field.sealing.isSome := by
    induction h with
    | nil => rfl
    | cons hField _ ih => rw [List.any_cons, List.any_cons, ih, (expands_isRecordId hField).2.2.2]
  rw [hAny, checkSealed]
  split <;> rfl

theorem checkOptional_expands (h : List.Forall₂ Expands fields declared) :
    ((declared.filter fun field => field.isRecordId && field.optional).map fun field =>
        DeclarationError.optionalRecordId field.ident).map DeclarationError.message =
      (checkOptional fields).map Diagnostic.message := by
  have hTest (field : Field Span) (field' : Cryptbox.Field) (hField : Expands field field') :
      (field'.isRecordId && field'.optional) =
        (field.isRecordId && field.ty.optionalInner.isSome) := by
    obtain ⟨hRecordId, -, hOptional, -⟩ := expands_isRecordId hField
    rw [hRecordId, hOptional]
  have hMessage (field : Field Span) (field' : Cryptbox.Field) (hField : Expands field field') :
      (DeclarationError.optionalRecordId field'.ident).message =
        s!"`{field.ident.text}` is bound into every sealed field, so it can't be optional" := by
    rw [(expands_isRecordId hField).2.1]
    rfl
  rw [checkOptional, List.map_map, List.map_map]
  exact expands_map (expands_filter h hTest) hMessage

/-- **The check of a declaration** reports what the check of its fields reports. -/
theorem checkRecord_expands (name : Ident Span) (h : List.Forall₂ Expands fields declared) :
    (Cryptbox.checkRecord name.text declared).map DeclarationError.message =
      (checkRecord name fields).map Diagnostic.message := by
  have hIdents : declared.map Cryptbox.Field.ident = fields.map fun field => field.ident.text :=
    expands_map h fun _ _ hField => (expands_isRecordId hField).2.1
  have hSeals := checkDistinct_expands .repeatedSealId sealIdMessage (fun _ _ => rfl) []
    (sealIds fields)
  have hIndexes := checkDistinct_expands .repeatedIndexId indexIdMessage (fun _ _ => rfl) []
    (indexIds fields)
  rw [List.map_nil] at hSeals hIndexes
  simp only [Cryptbox.checkRecord, checkRecord, checkDistinct, checkColumns, List.map_append,
    checkRecordIds_expands name h, checkSealed_expands name h, checkOptional_expands h,
    expands_sealIds h, expands_indexIds h, expands_columns h, hIdents, hSeals, hIndexes,
    checkColumns_expands]

/-- A declaration is accepted when the fields that it is expanded from are. -/
theorem accepted_iff (name : Ident Span) (h : List.Forall₂ Expands fields declared) :
    Cryptbox.checkRecord name.text declared = [] ↔ Accepts fields := by
  have hReports := congrArg (· = []) (checkRecord_expands name h)
  simp only [List.map_eq_nil_iff] at hReports
  rw [hReports, checkRecord_eq_nil]

end

/-! ## The check of a record -/

/-- **The check is exact.** -/
structure RecordCheck (name : Ident Span) : Prop where
  accepts : ∀ fields, checkRecord name fields = [] ↔ Accepts fields
  /-- Each ID that repeats an earlier one is reported once, with the field that declared it
  first. -/
  reports : ∀ fields, checkRecord name fields =
    checkRecordIds name fields ++ checkSealed name fields ++ checkOptional fields
      ++ (repeats (sealIds fields)).map (fun entry => ⟨entry.1.span, sealIdMessage entry.2⟩)
      ++ (repeats (indexIds fields)).map (fun entry => ⟨entry.1.span, indexIdMessage entry.2⟩)
      ++ checkColumns fields
  /-- The fields of a struct have distinct names; then so have the columns. -/
  columns : ∀ fields, checkRecord name fields = [] →
    (fields.map fun field => field.ident.text).Nodup →
      ((storedColumns fields).map Ident.text).Nodup
  contexts : ∀ fields, checkRecord name fields = [] → ∀ (prim : Primitives) (record : RecordValue),
    ∃ ids : List SealId, (sealIds fields).mapM (fun entry => (entry.1.id : Result SealId)) = .ok ids ∧
      (ids.map fun id => (SealContext.new prim id (some record)).bytes).Nodup

theorem recordCheck (name : Ident Span) : RecordCheck name where
  accepts := fun _ => checkRecord_eq_nil
  reports := by
    intro fields
    rw [checkRecord, checkDistinct_eq, checkDistinct_eq]
  columns := by
    intro fields hChecked hNames
    exact (checkRecord_eq_nil.mp hChecked).columns_nodup hNames
  contexts := by
    intro fields hChecked prim record
    exact (checkRecord_eq_nil.mp hChecked).contexts_nodup prim record

end Cryptbox.Derive

import Cryptbox.Blind
import Cryptbox.Base.Cells

/-!
# Record declarations

`derive/src/record.rs`: what `#[derive(Record)]` takes and checks. A `Field` is a parsed
field: its name, whether its type is an `Option`, and its role. `Declaration` carries that
`check_record` reported nothing.

* `checkDistinct_eq_nil`: no report means that the IDs are distinct.
* `Declaration.exists_recordId`, `Declaration.sealIds_nodup`: what acceptance establishes.
-/

namespace Cryptbox

open Base

/-- A sealed field's own seal and the blind index it writes: a second one is an error of
the parser. -/
structure Sealing where
  F : Seal
  index : Option (BlindIndexSpec F)

/-- What a field is to the record. -/
inductive Role where
  | recordId
  | sealed (sealing : Sealing)
  | plaintext (T : Type)

/-- A field; `optional` says that its type is `Option<T>`, where `T` is the type of the role. -/
structure Field where
  ident : String
  optional : Bool
  role : Role

namespace Field

def isRecordId (field : Field) : Bool :=
  match field.role with
  | .recordId => true
  | _ => false

def sealing (field : Field) : Option Sealing :=
  match field.role with
  | .sealed sealing => some sealing
  | _ => none

/-- The seal a sealed field declares, with the name of the field. -/
def sealId (field : Field) : Option (Block 16 × String) :=
  field.sealing.map fun sealing => (sealing.F.id.asBytes, field.ident)

/-- The ID of the blind index a sealed field writes, with the name of the field. -/
def indexId (field : Field) : Option (Block 16 × String) :=
  field.sealing.bind fun sealing => sealing.index.map fun index => (index.id.asBytes, field.ident)

/-- The name of the field and of the column that its blind index is stored in. -/
def column (field : Field) : Option (String × String) :=
  field.sealing.bind fun sealing =>
    sealing.index.map fun _ => (field.ident, field.ident ++ "_index")

end Field

/-- A report of the derive about a record as a whole. -/
inductive DeclarationError where
  | noRecordId (name : String)
  | extraRecordId (field : String)
  | noSealedField (name : String)
  | optionalRecordId (field : String)
  | repeatedSealId (first field : String)
  | repeatedIndexId (first field : String)
  | takenColumn (field column : String)
  deriving DecidableEq, Repr

def DeclarationError.message : DeclarationError → String
  | .noRecordId name =>
    s!"`{name}` needs a record ID: mark the field that holds it `#[cryptbox(record_id)]`"
  | .extraRecordId _ =>
    "a record has one record ID: mark only one field `#[cryptbox(record_id)]`"
  | .noSealedField name =>
    s!"`{name}` has no sealed field: mark one `#[cryptbox(seal = \"<uuid>\")]`, or "
      ++ "store it without `#[derive(Record)]`"
  | .optionalRecordId field =>
    s!"`{field}` is bound into every sealed field, so it can't be optional"
  | .repeatedSealId first _ =>
    s!"`{first}` already declares this seal ID: give each sealed field its own, or "
      ++ "their values can be swapped undetected"
  | .repeatedIndexId first _ =>
    s!"`{first}` already declares this index ID: give each blind index its own"
  | .takenColumn field column =>
    s!"the blind index of `{field}` is stored in the `{column}` column, which is already a "
      ++ "field: rename that field"

/-- Reports each ID after the first that repeats an earlier one, naming the field that
declared it first. -/
def checkDistinct (report : String → String → DeclarationError) :
    List (Block 16 × String) → List (Block 16 × String) → List DeclarationError
  | _, [] => []
  | seen, (id, field) :: ids =>
    match seen.find? fun earlier => earlier.1 = id with
    | some (_, first) => report first field :: checkDistinct report seen ids
    | none => checkDistinct report (seen ++ [(id, field)]) ids

/-- Reports each index column that is already a field or another column. -/
def checkColumns : List String → List (String × String) → List DeclarationError
  | _, [] => []
  | columns, (field, column) :: rest =>
    (if columns.contains column then [.takenColumn field column] else [])
      ++ checkColumns (columns ++ [column]) rest

def checkRecordIds (name : String) (fields : List Field) : List DeclarationError :=
  match fields.filter Field.isRecordId with
  | [] => [.noRecordId name]
  | [_] => []
  | _ :: extra :: _ => [.extraRecordId extra.ident]

/-- Checks the record as a whole: one record ID, at least one sealed field, distinct seal and
index IDs, and distinct columns. -/
def checkRecord (name : String) (fields : List Field) : List DeclarationError :=
  checkRecordIds name fields
    ++ (if fields.any fun field => field.sealing.isSome then [] else [.noSealedField name])
    ++ ((fields.filter fun field => field.isRecordId && field.optional).map fun field =>
        .optionalRecordId field.ident)
    ++ checkDistinct .repeatedSealId [] (fields.filterMap Field.sealId)
    ++ checkDistinct .repeatedIndexId [] (fields.filterMap Field.indexId)
    ++ checkColumns (fields.map Field.ident) (fields.filterMap Field.column)

/-- A record declaration that the derive accepts, with a record ID of kind `kind`. -/
structure Declaration where
  name : String
  kind : RecordKind
  fields : List Field
  accepted : checkRecord name fields = []

/-- No report means that the IDs are distinct from each other and from those seen before. -/
theorem checkDistinct_eq_nil {report : String → String → DeclarationError}
    {seen ids : List (Block 16 × String)} (hSeen : (seen.map Prod.fst).Nodup) :
    checkDistinct report seen ids = [] ↔ (seen.map Prod.fst ++ ids.map Prod.fst).Nodup := by
  induction ids generalizing seen with
  | nil => simp [checkDistinct, hSeen]
  | cons entry ids ih =>
    obtain ⟨id, field⟩ := entry
    rw [checkDistinct, List.map_cons, List.nodup_middle, List.nodup_cons]
    cases hFind : seen.find? fun earlier => decide (earlier.1 = id) with
    | some earlier =>
      have hId : earlier.1 = id := by simpa using List.find?_some hFind
      have hMem : id ∈ seen.map Prod.fst :=
        List.mem_map.mpr ⟨earlier, List.mem_of_find?_eq_some hFind, hId⟩
      constructor
      · intro h
        cases h
      · intro h
        obtain ⟨hNew, -⟩ := h
        exact absurd (List.mem_append_left _ hMem) hNew
    | none =>
      have hNew : id ∉ seen.map Prod.fst := by
        intro hMem
        obtain ⟨earlier, hEarlier, hId⟩ := List.mem_map.mp hMem
        exact List.find?_eq_none.mp hFind earlier hEarlier (decide_eq_true hId)
      have hSeen' : ((seen ++ [(id, field)]).map Prod.fst).Nodup := by
        rw [List.map_append, List.map_singleton, List.nodup_middle, List.append_nil]
        exact List.nodup_cons.mpr ⟨hNew, hSeen⟩
      rw [← List.nodup_cons, ← List.nodup_middle, ih hSeen', List.map_append,
        List.map_singleton, List.append_assoc, List.singleton_append]

namespace Declaration

variable (D : Declaration)

/-- The seals that the derive generates, one for each sealed field. -/
def seals : List Seal := D.fields.filterMap fun field => field.sealing.map Sealing.F

def sealIds : List SealId := D.seals.map Seal.id

/-- An accepted record has a field that holds its record ID. -/
theorem exists_recordId : ∃ field ∈ D.fields, field.isRecordId = true := by
  have hAccepted := D.accepted
  simp only [checkRecord, List.append_eq_nil_iff] at hAccepted
  have hIds := hAccepted.1.1.1.1.1
  unfold checkRecordIds at hIds
  cases hFilter : D.fields.filter Field.isRecordId with
  | nil =>
    rw [hFilter] at hIds
    cases hIds
  | cons field rest =>
    have hMem : field ∈ D.fields.filter Field.isRecordId := by
      rw [hFilter]
      exact List.mem_cons_self
    exact ⟨field, List.mem_filter.mp hMem⟩

/-- The sealed fields of an accepted record have distinct seal IDs. -/
theorem sealIds_nodup : D.sealIds.Nodup := by
  have hAccepted := D.accepted
  simp only [checkRecord, List.append_eq_nil_iff] at hAccepted
  have hDistinct := (checkDistinct_eq_nil (by simp)).mp hAccepted.1.1.2
  have hBytes : (D.fields.filterMap Field.sealId).map Prod.fst
      = D.sealIds.map Identifier.asBytes := by
    unfold sealIds seals Field.sealId
    simp [List.map_filterMap, Option.map_map, Function.comp_def]
  rw [List.map_nil, List.nil_append, hBytes] at hDistinct
  exact hDistinct.of_map _

end Declaration

end Cryptbox

import Cryptbox.Derive.Expansion
import Cryptbox.Derive.Fields
import Mathlib.Data.List.ReduceOption

/-!
# The record derive, from its tokens

`record.rs` of the derive crate: `#[derive(Record)]` on an item, up to the fields that the expansion
is made from.

* `parseRecordAttrs_iff`: what is kept of the attributes of a record.
* `parse_eq_some`: the fields without a report.
* `Record.expand_iff`: the records that are expanded.
* `record_exact`: the derive is exact and does not panic, the library takes its constants and
  accepts its fields, and these are sealed in contexts of their own.
-/

namespace Cryptbox.Derive

open Base Base.Parsing

variable {I Span Path Meta : Type}

/-! ## The attributes of a record -/

/-- The record's own `#[cryptbox(…)]`: the stored form's name and attributes, and their errors. -/
structure RecordAttrs (Span Meta : Type) where
  storedName : Option (Ident Span)
  stored : List Meta
  errors : List (Diagnostic Span)

namespace RecordAttrs

/-- The error that ends an attribute. -/
def report (diagnostic : Diagnostic Span) (attrs : RecordAttrs Span Meta) : RecordAttrs Span Meta :=
  { attrs with errors := attrs.errors ++ [diagnostic] }

/-- Nothing is reported. -/
def Quiet (attrs : RecordAttrs Span Meta) : Prop := attrs.errors = []

end RecordAttrs

section

variable (syn : Syntax I Span Path Meta)

/-- The type name that an item of `stored(…)` gives. -/
def givenName (item : Meta) : Option (Ident Span) :=
  match syn.storedName item with
  | some (_, name) => name
  | none => none

/-- An item of `stored(…)`: the name of the stored form, or an attribute for it. -/
def keepItem (attrs : RecordAttrs Span Meta) (item : Meta) : RecordAttrs Span Meta :=
  match givenName syn item with
  | some name => { attrs with storedName := some name }
  | none => { attrs with stored := attrs.stored ++ [item] }

/-- An item, unless it names no type. -/
def storeItem (item : Meta) : EStateM (Abort Span) (ParseState I (RecordAttrs Span Meta)) Unit :=
  match syn.storedName item with
  | some (span, none) =>
    throw (.error ⟨span, "`name` takes a type name, such as `name = CustomerRow`"⟩)
  | _ => modifyState fun attrs => keepItem syn attrs item

/-- The loop over the items of `stored(…)`. -/
def storeItems : List Meta → EStateM (Abort Span) (ParseState I (RecordAttrs Span Meta)) Unit
  | [] => return ()
  | item :: rest => do
    storeItem syn item
    storeItems rest

/-- The closure of `parse_record_attrs`. -/
def recordLogic : Logic I Span (RecordAttrs Span Meta) := fun path => do
  if path.isIdent "stored" then
    let items ← within .error (parseStored syn)
    storeItems syn items
  else throw (.error ⟨path.span,
    s!"unknown `cryptbox` key `{pathString path}` on a record; expected `stored(…)`"⟩)

/-- An item that is no `name = value`, or one that gives a type name. -/
def ItemValid (item : Meta) : Prop := ∀ span, syn.storedName item ≠ some (span, none)

theorem storeItem_eq_ok {item : Meta} {s s' : ParseState I (RecordAttrs Span Meta)} :
    (storeItem syn item).run s = .ok () s' ↔
      ItemValid syn item ∧ s' = { s with state := keepItem syn s.state item } := by
  unfold storeItem
  split
  · next span hName => exact iff_of_false (fun h => nomatch h) fun h => h.1 span hName
  · next hValid =>
    rw [run_modifyState]
    constructor
    · intro h
      cases h
      exact ⟨hValid, rfl⟩
    · rintro ⟨-, rfl⟩
      rfl

/-- The loop keeps every item, when each is valid. -/
theorem storeItems_eq_ok {items : List Meta} {s s' : ParseState I (RecordAttrs Span Meta)} :
    (storeItems syn items).run s = .ok () s' ↔ (∀ item ∈ items, ItemValid syn item) ∧
      s' = { s with state := items.foldl (keepItem syn) s.state } := by
  induction items generalizing s with
  | nil =>
    constructor
    · intro h
      cases h
      exact ⟨List.forall_mem_nil _, rfl⟩
    · rintro ⟨-, rfl⟩
      rfl
  | cons item rest ih =>
    rw [storeItems, run_bind_eq_ok, List.forall_mem_cons, List.foldl_cons]
    constructor
    · rintro ⟨_, next, hItem, hRest⟩
      obtain ⟨hValid, rfl⟩ := (storeItem_eq_ok syn).mp hItem
      obtain ⟨hValids, rfl⟩ := ih.mp hRest
      exact ⟨⟨hValid, hValids⟩, rfl⟩
    · rintro ⟨⟨hValid, hValids⟩, rfl⟩
      exact ⟨(), _, (storeItem_eq_ok syn).mpr ⟨hValid, rfl⟩, ih.mpr ⟨hValids, rfl⟩⟩

theorem storeItems_keeps {R : ParseState I (RecordAttrs Span Meta) →
      ParseState I (RecordAttrs Span Meta) → Prop} [Std.Refl R] [IsTrans _ R]
    (hModify : ∀ item, Keeps R (modifyState fun attrs => keepItem syn attrs item :
      EStateM (Abort Span) (ParseState I (RecordAttrs Span Meta)) Unit))
    (items : List Meta) : Keeps R (storeItems syn items) := by
  induction items with
  | nil => exact Keeps.pure ()
  | cons item rest ih =>
    refine Keeps.bind ?_ fun _ => ih
    unfold storeItem
    split
    · exact Keeps.throw _
    · exact hModify item

theorem calm_storeItems (items : List Meta) : Calm (storeItems syn items) := by
  induction items with
  | nil => exact Calm.pure ()
  | cons item rest ih =>
    refine Calm.bind ?_ fun _ => ih
    unfold storeItem
    split
    · exact Calm.throw _
    · exact calm_modifyState _

variable {syn}

theorem recordLogic_keeps (path : MetaPath Span) :
    Keeps syn.ReadsOn (recordLogic syn path) := by
  unfold recordLogic
  split
  · refine (within_keeps (parenthesized_keeps syn.toParsers _ _)).bind fun items => ?_
    exact storeItems_keeps syn (fun item => modifyState_keeps _ _) items
  · exact Keeps.throw _

theorem calm_recordLogic (path : MetaPath Span) : Calm (recordLogic syn path) := by
  unfold recordLogic
  split
  · exact (calm_within _).bind fun items => calm_storeItems syn items
  · exact Calm.throw _

/-- The items of `stored(…)`. -/
def ReadsStored (syn : Syntax I Span Path Meta) (path : MetaPath Span) (input : I)
    (items : List Meta) (rest : I) : Prop :=
  path.ident = some "stored" ∧ (parseStored syn).run input = .ok items rest ∧
    ∀ item ∈ items, ItemValid syn item

theorem recordLogic_describes (syn : Syntax I Span Path Meta) :
    Describes RecordAttrs.Quiet (recordLogic syn) (ReadsStored syn) (fun _ _ => True)
      fun attrs items => items.foldl (keepItem syn) attrs where
  keeps path := by
    have hQuiet (attrs : RecordAttrs Span Meta) (item : Meta) :
        (keepItem syn attrs item).Quiet ↔ attrs.Quiet := by
      unfold keepItem
      split <;> exact Iff.rfl
    unfold recordLogic
    split
    · refine Keeps.bind ?_ fun items => ?_
      · intro s hQuiet
        rwa [within_state] at hQuiet
      · exact storeItems_keeps syn (fun item s => (hQuiet s.state item).mp) items
    · exact Keeps.throw _
  iff {path s s'} hStart := by
    have hFold (items : List Meta) (attrs : RecordAttrs Span Meta) :
        (items.foldl (keepItem syn) attrs).errors = attrs.errors := by
      induction items generalizing attrs with
      | nil => rfl
      | cons item rest ih =>
        rw [List.foldl_cons, ih, keepItem]
        split <;> rfl
    unfold recordLogic
    split
    · next hPath =>
      rw [MetaPath.isIdent_iff] at hPath
      rw [run_bind_eq_ok]
      constructor
      · rintro ⟨⟨items, next, hRun, hItems⟩, -⟩
        obtain ⟨hParse, hState⟩ := within_eq_ok.mp hRun
        obtain ⟨hValid, rfl⟩ := (storeItems_eq_ok syn).mp hItems
        exact ⟨items, ⟨hPath, hParse, hValid⟩, trivial, by rw [← hState]⟩
      · rintro ⟨items, ⟨-, hParse, hValid⟩, -, hState⟩
        obtain ⟨input', state'⟩ := s'
        dsimp only at hParse hState
        subst hState
        have hItems := (storeItems_eq_ok syn (s := ⟨input', s.state⟩)).mpr ⟨hValid, rfl⟩
        exact ⟨⟨items, _, run_within hParse s.state, hItems⟩, (hFold items s.state).trans hStart⟩
    · next hPath =>
      rw [MetaPath.isIdent_iff] at hPath
      exact iff_of_false (fun h => nomatch h.1) fun ⟨_, h, _⟩ => hPath h.1

/-- `parse_record_attrs`. -/
def parseRecordAttrs (syn : Syntax I Span Path Meta) (input : DeriveInput I Span) :
    Result (RecordAttrs Span Meta) :=
  parseAttributes syn (recordLogic syn) recordLogic_keeps RecordAttrs.report
    (input.attrs.filter fun attr => attr.path.isIdent "cryptbox") ⟨none, [], []⟩

/-- The attributes of a record list these items. -/
def Stores (syn : Syntax I Span Path Meta) (input : DeriveInput I Span) (items : List Meta) :
    Prop :=
  ∃ lists, List.Forall₂ (Attribute.Lists syn (ReadsStored syn))
    (input.attrs.filter fun attr => attr.path.isIdent "cryptbox") lists ∧
      lists.flatten.flatten = items

/-- What the items give: the last name, and the attributes in order. -/
def RecordAttrs.of (syn : Syntax I Span Path Meta) (items : List Meta) : RecordAttrs Span Meta where
  storedName := lastOf (givenName syn) items
  stored := items.filter fun item => (givenName syn item).isNone
  errors := []

theorem foldl_keepItem (items : List Meta) :
    items.foldl (keepItem syn) ⟨none, [], []⟩ = .of syn items := by
  induction items using List.reverseRecOn with
  | nil => rfl
  | append_singleton items item ih =>
    rw [List.foldl_append, ih, List.foldl_cons, List.foldl_nil, keepItem]
    simp only [RecordAttrs.of, lastOf_concat, List.filter_append]
    cases h : givenName syn item <;> simp [h]

/-- **What is kept of the attributes of a record** when nothing is reported. -/
theorem parseRecordAttrs_iff {input : DeriveInput I Span} {attrs : RecordAttrs Span Meta} :
    parseRecordAttrs syn input = .ok attrs ∧ attrs.errors = [] ↔
      ∃ items, Stores syn input items ∧ attrs = .of syn items := by
  have hReport (diagnostic : Diagnostic Span) (attrs : RecordAttrs Span Meta) :
      ¬ (attrs.report diagnostic).Quiet := by
    intro h
    cases List.append_eq_nil_iff.mp h |>.2
  have hParse := (recordLogic_describes syn).parse_iff syn recordLogic_keeps hReport
    (input.attrs.filter fun attr => attr.path.isIdent "cryptbox") attrs
    (rfl : RecordAttrs.Quiet ⟨none, [], []⟩)
  have hFold (lists : List (List Meta)) :
      lists.foldl (fun attrs items => items.foldl (keepItem syn) attrs) ⟨none, [], []⟩ =
        RecordAttrs.of syn lists.flatten := by
    rw [← foldl_keepItem, List.foldl_flatten]
  refine hParse.trans ?_
  constructor
  · rintro ⟨lists, hLists, -, rfl⟩
    exact ⟨_, ⟨lists, hLists, rfl⟩, hFold _⟩
  · rintro ⟨_, ⟨lists, hLists, rfl⟩, rfl⟩
    exact ⟨lists, hLists, admitted_true, (hFold _).symm⟩

theorem parseRecordAttrs_total (syn : Syntax I Span Path Meta) (input : DeriveInput I Span) :
    ∃ attrs, parseRecordAttrs syn input = .ok attrs :=
  calm_parse syn recordLogic_keeps calm_recordLogic _ _ _

end

/-! ## The fields of a record -/

/-- A field with its attributes; a seal without an ID was reported. -/
structure ParsedField (I Span Path Meta : Type) where
  source : NamedField I Span
  settings : FieldSettings Span Path Meta
  reported : ∀ span, (span, RoleKey.sealed) ∈ settings.roles → settings.sealId = none →
    settings.errors ≠ []

/-- The field, if it has a role, and what is reported. -/
def ParsedField.parse (parsed : ParsedField I Span Path Meta) :
    Option (Field Span) × List (Diagnostic Span) :=
  parseField parsed.source.ident parsed.source.ty (parsed.settings.attrs parsed.reported)

/-- The attributes of a field, parsed. -/
def parsedField (syn : Syntax I Span Path Meta) (field : NamedField I Span) :
    Result (ParsedField I Span Path Meta) := do
  let settings ← attach (parseFieldAttrs syn field)
  return ⟨field, settings.val, reported_of_parse settings.property⟩

/-- What only a sealed field has. -/
structure Unsealed (settings : FieldSettings Span Path Meta) : Prop where
  codec : settings.codec = none
  padding : settings.padding = none
  name : settings.name = none
  indexes : settings.indexes = []

/-- The settings of a field give it one role, and what goes with the role. -/
inductive HasRole (settings : FieldSettings Span Path Meta) : Role Span → Prop
  | recordId {span : Span} (hRoles : settings.roles = [(span, .recordId)])
      (hUnsealed : Unsealed settings) : HasRole settings .recordId
  | plaintext {span : Span} (hRoles : settings.roles = [(span, .plaintext)])
      (hUnsealed : Unsealed settings) : HasRole settings .plaintext
  | sealed {span : Span} {id : UuidLiteral Span} (hRoles : settings.roles = [(span, .sealed)])
      (hId : settings.sealId = some id) (hIndexes : settings.indexes.length ≤ 1) :
      HasRole settings (.sealed ⟨id, settings.indexes.map IndexSpec.toIndexDecl⟩)

/-- A field that is not sealed is reported for each setting that only a sealed field has. -/
theorem unsealed_iff {settings : FieldSettings Span Path Meta}
    {configured : Span × String → Diagnostic Span} {indexed : IndexDecl Span → Diagnostic Span} :
    settings.errors ++ [(settings.codec.map Prod.fst).map (·, "codec"),
          (settings.padding.map Prod.fst).map (·, "padding"),
          (settings.name.map Prod.fst).map (·, "name")].reduceOption.map configured
        ++ (settings.indexes.map IndexSpec.toIndexDecl).map indexed = [] ↔
      settings.errors = [] ∧ Unsealed settings := by
  rw [List.append_eq_nil_iff, List.append_eq_nil_iff, List.map_eq_nil_iff, List.map_eq_nil_iff,
    List.map_eq_nil_iff]
  constructor
  · rintro ⟨⟨hErrors, hSettings⟩, hIndexes⟩
    -- No setting is there, as each that is there is reported.
    have hNone (entry : Span × String) : some entry ∉ [(settings.codec.map Prod.fst).map (·, "codec"),
        (settings.padding.map Prod.fst).map (·, "padding"),
        (settings.name.map Prod.fst).map (·, "name")] := by
      rw [← List.reduceOption_mem_iff, hSettings]
      exact List.not_mem_nil
    refine ⟨hErrors, ?_, ?_, ?_, hIndexes⟩
    · cases hCodec : settings.codec with
      | none => rfl
      | some entry => exact absurd (by simp [hCodec]) (hNone (entry.1, "codec"))
    · cases hPadding : settings.padding with
      | none => rfl
      | some entry => exact absurd (by simp [hPadding]) (hNone (entry.1, "padding"))
    · cases hName : settings.name with
      | none => rfl
      | some entry => exact absurd (by simp [hName]) (hNone (entry.1, "name"))
  · rintro ⟨hErrors, hCodec, hPadding, hName, hIndexes⟩
    rw [hCodec, hPadding, hName]
    exact ⟨⟨hErrors, rfl⟩, hIndexes⟩

/-- **The fields** without a report. -/
theorem parse_eq_some {parsed : ParsedField I Span Path Meta} {field : Field Span} :
    parsed.parse = (some field, []) ↔ parsed.settings.errors = [] ∧
      field.ident = parsed.source.ident ∧ field.ty = parsed.source.ty ∧
        HasRole parsed.settings field.role := by
  obtain ⟨source, settings, hReported⟩ := parsed
  obtain ⟨ident, ty, role⟩ := field
  unfold ParsedField.parse parseField
  dsimp only
  constructor
  · intro h
    split at h
    · split_ifs at h <;> cases congrArg Prod.fst h
    · next span hRoles =>
      split at h
      · cases congrArg Prod.fst h
      · cases List.append_eq_nil_iff.mp (congrArg Prod.snd h) |>.2
      · next id hId hSecond =>
        obtain ⟨hField, hErrors⟩ := Prod.mk.inj h
        cases hField
        refine ⟨hErrors, rfl, rfl, .sealed hRoles hId ?_⟩
        match hIndexes : settings.indexes with
        | [] => exact Nat.zero_le 1
        | [_] => exact Nat.le_refl 1
        | first :: second :: rest =>
          exact absurd (congrArg (List.map IndexSpec.toIndexDecl) hIndexes) (hSecond _ _ _)
    · next span role' hNotSealed hRoles =>
      obtain ⟨hField, hReports⟩ := Prod.mk.inj h
      obtain ⟨hErrors, hUnsealed⟩ := unsealed_iff.mp hReports
      cases hField
      refine ⟨hErrors, rfl, rfl, ?_⟩
      cases role' with
      | recordId => exact .recordId hRoles hUnsealed
      | plaintext => exact .plaintext hRoles hUnsealed
      | sealed => exact (hNotSealed rfl).elim
    · cases congrArg Prod.fst h
  · rintro ⟨hErrors, rfl, rfl, hRole⟩
    have hParsed : (settings.attrs hReported).roles = settings.roles := rfl
    cases hRole with
    | recordId hRoles hUnsealed =>
      rw [hRoles] at hParsed
      rw [hParsed]
      exact congrArg (Prod.mk _) (unsealed_iff.mpr ⟨hErrors, hUnsealed⟩)
    | plaintext hRoles hUnsealed =>
      rw [hRoles] at hParsed
      rw [hParsed]
      exact congrArg (Prod.mk _) (unsealed_iff.mpr ⟨hErrors, hUnsealed⟩)
    | sealed hRoles hId hIndexes =>
      have hSeal : (settings.attrs hReported).sealId = settings.sealId := rfl
      rw [hRoles] at hParsed
      rw [hId] at hSeal
      rw [hParsed, hSeal]
      dsimp only
      split
      · next h => cases h
      · next first second rest hSome hMany =>
        have hLength := congrArg List.length hMany
        simp [FieldSettings.attrs] at hLength
        omega
      · next hSome _ =>
        cases hSome
        exact congrArg (Prod.mk _) hErrors

/-! ## Records -/

namespace Record

/-- What the expansion is made from: the stored form, the fields with their settings, and the record
ID among them. -/
structure Expansion (Span Path Meta : Type) where
  storedName : Ident Span
  storedAttrs : List Meta
  fields : List (Field Span × FieldSettings Span Path Meta)
  recordId : Field Span

/-- `Expansion::new`. -/
def Expansion.new (input : DeriveInput I Span) (attrs : RecordAttrs Span Meta)
    (fields : List (Field Span × FieldSettings Span Path Meta)) : Result (Expansion Span Path Meta) :=
  match (fields.map Prod.fst).find? Field.isRecordId with
  | some recordId => .ok {
      storedName := attrs.storedName.getD ⟨"Stored" ++ input.ident.unraw, input.ident.span⟩
      storedAttrs := attrs.stored
      fields
      recordId }
  | none => panics

def rejectGenerics (input : DeriveInput I Span) : List (Diagnostic Span) :=
  match input.generics with
  | some span => [⟨span, "`Record` can't be derived for a generic type: its seals are persistent schema"⟩]
  | none => []

/-- The fields are checked when nothing is reported of them, and expanded when the record is
accepted. -/
def finish (input : DeriveInput I Span) (attrs : RecordAttrs Span Meta)
    (parsed : List (ParsedField I Span Path Meta)) :
    Result (Except (List (Diagnostic Span)) (Expansion Span Path Meta)) := do
  let errors := rejectGenerics input ++ attrs.errors ++ parsed.flatMap fun field => field.parse.2
  if !errors.isEmpty then return .error errors
  let fields := parsed.filterMap fun source =>
    source.parse.1.map fun field => (field, source.settings)
  let errors := checkRecord input.ident (fields.map Prod.fst)
  if !errors.isEmpty then return .error errors
  return .ok (← Expansion.new input attrs fields)

/-- `expand`. -/
def expand (syn : Syntax I Span Path Meta) (input : DeriveInput I Span) :
    Result (Except (List (Diagnostic Span)) (Expansion Span Path Meta)) := do
  let attrs ← parseRecordAttrs syn input
  match input.data with
  | .struct (.named named) => finish input attrs (← named.mapM (parsedField syn))
  | .struct _ => return .error [⟨input.ident.span,
      "`Record` needs named fields: they become the stored form's fields"⟩]
  | _ => return .error [⟨input.ident.span, "`Record` is derived for a struct"⟩]

/-- A field is written: its attributes list entries that give it a role. -/
def FieldWritten (syn : Syntax I Span Path Meta) (source : NamedField I Span)
    (field : Field Span × FieldSettings Span Path Meta) : Prop :=
  ∃ entries, Gives syn source entries ∧ field.2 = .of entries ∧ field.1.ident = source.ident ∧
    field.1.ty = source.ty ∧ HasRole field.2 field.1.role

/-- A record is written: a struct of such fields that the check accepts. -/
structure Written (syn : Syntax I Span Path Meta) (input : DeriveInput I Span)
    (expansion : Expansion Span Path Meta) : Prop where
  concrete : input.generics = none
  stored : ∃ items, Stores syn input items ∧
    expansion.storedName = (lastOf (givenName syn) items).getD
      ⟨"Stored" ++ input.ident.unraw, input.ident.span⟩ ∧
    expansion.storedAttrs = items.filter fun item => (givenName syn item).isNone
  fields : ∃ named, input.data = .struct (.named named) ∧
    List.Forall₂ (FieldWritten syn) named expansion.fields
  accepted : Accepts (expansion.fields.map Prod.fst)
  recordId : (expansion.fields.map Prod.fst).filter Field.isRecordId = [expansion.recordId]

section

variable {syn : Syntax I Span Path Meta} {input : DeriveInput I Span}
  {attrs : RecordAttrs Span Meta} {parsed : List (ParsedField I Span Path Meta)}
  {fields : List (Field Span × FieldSettings Span Path Meta)}

/-- Fields without a report are all there. -/
theorem filterMap_parse (h : ∀ source ∈ parsed, source.parse.2 = []) :
    (parsed.filterMap fun source => source.parse.1.map fun field => (field, source.settings))
        = fields ↔
      List.Forall₂ (fun source field => source.parse = (some field.1, []) ∧ field.2 = source.settings)
        parsed fields := by
  induction parsed generalizing fields with
  | nil =>
    rw [List.forall₂_nil_left_iff]
    exact eq_comm
  | cons source rest ih =>
    obtain ⟨hSource, hRest⟩ := List.forall_mem_cons.mp h
    obtain ⟨field, hField, -⟩ := parseField_of_noReports hSource
    have hParse : source.parse = (some field, []) := Prod.ext hField hSource
    rw [List.filterMap_cons, hParse]
    dsimp only [Option.map_some]
    constructor
    · rintro rfl
      exact .cons ⟨hParse, rfl⟩ ((ih hRest).mp rfl)
    · intro hAll
      obtain ⟨⟨field', settings⟩, fields, ⟨hHead, hSettings⟩, hTail, rfl⟩ :=
        List.forall₂_cons_left_iff.mp hAll
      cases hParse.symm.trans hHead
      dsimp only at hSettings
      rw [hSettings, (ih hRest).mpr hTail]

theorem rejectGenerics_eq_nil : rejectGenerics input = [] ↔ input.generics = none := by
  unfold rejectGenerics
  cases input.generics <;> simp

/-- What is expanded of parsed fields. -/
structure Finished (input : DeriveInput I Span) (attrs : RecordAttrs Span Meta)
    (parsed : List (ParsedField I Span Path Meta)) (expansion : Expansion Span Path Meta) :
    Prop where
  concrete : input.generics = none
  quiet : attrs.errors = []
  fields : List.Forall₂ (fun source field => source.parse = (some field.1, []) ∧
    field.2 = source.settings) parsed expansion.fields
  accepted : Accepts (expansion.fields.map Prod.fst)
  recordId : (expansion.fields.map Prod.fst).filter Field.isRecordId = [expansion.recordId]
  storedName : expansion.storedName =
    attrs.storedName.getD ⟨"Stored" ++ input.ident.unraw, input.ident.span⟩
  storedAttrs : expansion.storedAttrs = attrs.stored

/-- Without a report, the fields are checked. -/
theorem finish_of_quiet (hConcrete : input.generics = none) (hErrors : attrs.errors = [])
    (hFields : List.Forall₂ (fun source field => source.parse = (some field.1, []) ∧
      field.2 = source.settings) parsed fields) :
    finish input attrs parsed =
      if !(checkRecord input.ident (fields.map Prod.fst)).isEmpty then
        .ok (.error (checkRecord input.ident (fields.map Prod.fst)))
      else do return .ok (← Expansion.new input attrs fields) := by
  have hQuiet : ∀ source ∈ parsed, source.parse.2 = [] := by
    intro source hMem
    obtain ⟨field, -, hParse, -⟩ := forall₂_exists hFields hMem
    rw [hParse]
  have hReports : (parsed.flatMap fun source => source.parse.2) = [] :=
    List.flatMap_eq_nil_iff.mpr hQuiet
  rw [finish, rejectGenerics_eq_nil.mpr hConcrete, hErrors, hReports,
    (filterMap_parse hQuiet).mpr hFields]
  rfl

theorem new_eq_ok {recordId : Field Span}
    (h : (fields.map Prod.fst).filter Field.isRecordId = [recordId]) :
    Expansion.new input attrs fields = .ok ⟨attrs.storedName.getD
      ⟨"Stored" ++ input.ident.unraw, input.ident.span⟩, attrs.stored, fields, recordId⟩ := by
  have hFind : (fields.map Prod.fst).find? Field.isRecordId = some recordId := by
    rw [← List.head?_filter, h]
    rfl
  rw [Expansion.new, hFind]

theorem finish_of_finished {expansion : Expansion Span Path Meta}
    (h : Finished input attrs parsed expansion) : finish input attrs parsed = .ok (.ok expansion) := by
  rw [finish_of_quiet h.concrete h.quiet h.fields, checkRecord_eq_nil.mpr h.accepted,
    new_eq_ok h.recordId, ← h.storedName, ← h.storedAttrs]
  rfl

/-- What is not expanded is reported: the check finds the record ID. -/
theorem finish_cases (input : DeriveInput I Span) (attrs : RecordAttrs Span Meta)
    (parsed : List (ParsedField I Span Path Meta)) :
    (∃ expansion, Finished input attrs parsed expansion ∧
      finish input attrs parsed = .ok (.ok expansion)) ∨
    ∃ reports, reports ≠ [] ∧ finish input attrs parsed = .ok (.error reports) := by
  by_cases hReports : rejectGenerics input ++ attrs.errors ++
      parsed.flatMap (fun source => source.parse.2) = []
  · simp only [List.append_eq_nil_iff, List.flatMap_eq_nil_iff, rejectGenerics_eq_nil] at hReports
    obtain ⟨⟨hConcrete, hErrors⟩, hQuiet⟩ := hReports
    have hFields := (filterMap_parse hQuiet).mp rfl
    by_cases hChecked : checkRecord input.ident ((parsed.filterMap fun source =>
        source.parse.1.map fun field => (field, source.settings)).map Prod.fst) = []
    · left
      have hAccepts := checkRecord_eq_nil.mp hChecked
      obtain ⟨recordId, hRecordId, -⟩ := hAccepts.recordId
      have hFinished : Finished input attrs parsed ⟨_, _, _, recordId⟩ :=
        ⟨hConcrete, hErrors, hFields, hAccepts, hRecordId, rfl, rfl⟩
      exact ⟨_, hFinished, finish_of_finished hFinished⟩
    · right
      refine ⟨_, hChecked, ?_⟩
      rw [finish_of_quiet hConcrete hErrors hFields, if_pos]
      rw [Bool.not_eq_true', List.isEmpty_eq_false_iff]
      exact hChecked
  · right
    refine ⟨_, hReports, if_pos ?_⟩
    rw [Bool.not_eq_true', List.isEmpty_eq_false_iff]
    exact hReports

/-! ### From the attributes -/

theorem parsedField_eq_ok {source : NamedField I Span} {field : ParsedField I Span Path Meta} :
    parsedField syn source = .ok field ↔
      field.source = source ∧ parseFieldAttrs syn source = .ok field.settings := by
  obtain ⟨source', settings, hReported⟩ := field
  unfold parsedField
  simp only [bind_eq_ok, attach_eq_ok, pure_eq_ok]
  constructor
  · rintro ⟨⟨settings', hParse⟩, -, hField⟩
    cases hField
    exact ⟨rfl, hParse⟩
  · rintro ⟨rfl, hParse⟩
    exact ⟨⟨settings, hParse⟩, hParse, rfl⟩

/-- A field is written when it is parsed without a report. -/
theorem fieldWritten_iff {source : NamedField I Span} {parsed : ParsedField I Span Path Meta}
    {field : Field Span × FieldSettings Span Path Meta} (h : parsedField syn source = .ok parsed) :
    FieldWritten syn source field ↔ parsed.parse = (some field.1, []) ∧ field.2 = parsed.settings := by
  obtain ⟨rfl, hParse⟩ := parsedField_eq_ok.mp h
  rw [parse_eq_some]
  constructor
  · rintro ⟨entries, hGives, hSettings, hIdent, hTy, hRole⟩
    obtain ⟨hParse', hErrors⟩ := parseFieldAttrs_iff.mpr ⟨entries, hGives, hSettings⟩
    have hSame : field.2 = parsed.settings := Except.ok.inj (hParse'.symm.trans hParse)
    rw [← hSame]
    exact ⟨⟨hErrors, hIdent, hTy, hRole⟩, rfl⟩
  · rintro ⟨⟨hErrors, hIdent, hTy, hRole⟩, hSettings⟩
    obtain ⟨entries, hGives, hOf⟩ := parseFieldAttrs_iff.mp ⟨hParse, hErrors⟩
    exact ⟨entries, hGives, hSettings.trans hOf, hIdent, hTy, hSettings ▸ hRole⟩

theorem forall₂_written {named : List (NamedField I Span)}
    (fields : List (Field Span × FieldSettings Span Path Meta))
    (h : List.Forall₂ (fun source field => parsedField syn source = .ok field) named parsed) :
    List.Forall₂ (FieldWritten syn) named fields ↔
      List.Forall₂ (fun source field => source.parse = (some field.1, []) ∧ field.2 = source.settings)
        parsed fields := by
  induction h generalizing fields with
  | nil => rw [List.forall₂_nil_left_iff, List.forall₂_nil_left_iff]
  | cons hHead _ ih =>
    rw [List.forall₂_cons_left_iff, List.forall₂_cons_left_iff]
    simp only [ih, fieldWritten_iff hHead]

/-- The fields are parsed to their end. -/
theorem exists_parsed (syn : Syntax I Span Path Meta) (named : List (NamedField I Span)) :
    ∃ parsed, named.mapM (parsedField syn) = .ok parsed := by
  induction named with
  | nil => exact ⟨[], rfl⟩
  | cons source rest ih =>
    obtain ⟨settings, hParse⟩ := parseFieldAttrs_total syn source
    obtain ⟨parsed, hRest⟩ := ih
    have hHead : parsedField syn source = .ok ⟨source, settings, reported_of_parse hParse⟩ :=
      parsedField_eq_ok.mpr ⟨rfl, hParse⟩
    rw [List.mapM_cons, hHead, hRest]
    exact ⟨_, rfl⟩

/-- A record is written when its fields are expanded. -/
theorem written_iff {named : List (NamedField I Span)} (hData : input.data = .struct (.named named))
    (hAttrs : parseRecordAttrs syn input = .ok attrs)
    (hParsed : named.mapM (parsedField syn) = .ok parsed) {expansion : Expansion Span Path Meta} :
    Written syn input expansion ↔ Finished input attrs parsed expansion := by
  have hFields := forall₂_written expansion.fields (mapM_eq_ok.mp hParsed)
  constructor
  · rintro ⟨hConcrete, ⟨items, hStores, hName, hStored⟩, ⟨named', hData', hWritten⟩, hAccepts, hRecordId⟩
    cases hData.symm.trans hData'
    obtain ⟨hAttrs', hErrors⟩ := parseRecordAttrs_iff.mpr ⟨items, hStores, rfl⟩
    cases hAttrs.symm.trans hAttrs'
    exact ⟨hConcrete, hErrors, hFields.mp hWritten, hAccepts, hRecordId, hName, hStored⟩
  · rintro ⟨hConcrete, hErrors, hParse, hAccepts, hRecordId, hName, hStored⟩
    obtain ⟨items, hStores, rfl⟩ := parseRecordAttrs_iff.mp ⟨hAttrs, hErrors⟩
    exact ⟨hConcrete, ⟨items, hStores, hName, hStored⟩, ⟨named, hData, hFields.mpr hParse⟩, hAccepts,
      hRecordId⟩

/-- How the derive ends on a struct with named fields, and on anything else. -/
theorem expand_eq (syn : Syntax I Span Path Meta) (input : DeriveInput I Span) :
    (∃ named attrs parsed, input.data = .struct (.named named) ∧
        parseRecordAttrs syn input = .ok attrs ∧ named.mapM (parsedField syn) = .ok parsed ∧
        expand syn input = finish input attrs parsed) ∨
      (∀ named, input.data ≠ .struct (.named named)) ∧
        ∃ reports, reports ≠ [] ∧ expand syn input = .ok (.error reports) := by
  obtain ⟨attrs, hAttrs⟩ := parseRecordAttrs_total syn input
  unfold expand
  rw [hAttrs, ok_bind]
  cases input.data with
  | struct fields =>
    cases fields with
    | named named =>
      obtain ⟨parsed, hParsed⟩ := exists_parsed syn named
      refine .inl ⟨named, attrs, parsed, rfl, rfl, hParsed, ?_⟩
      dsimp only
      rw [hParsed, ok_bind]
    | unnamed types => exact .inr ⟨nofun, _, List.cons_ne_nil _ _, rfl⟩
    | unit => exact .inr ⟨nofun, _, List.cons_ne_nil _ _, rfl⟩
  | enum => exact .inr ⟨nofun, _, List.cons_ne_nil _ _, rfl⟩
  | union token => exact .inr ⟨nofun, _, List.cons_ne_nil _ _, rfl⟩

/-- **The records that are expanded.** -/
theorem expand_iff {expansion : Expansion Span Path Meta} :
    expand syn input = .ok (.ok expansion) ↔ Written syn input expansion := by
  rcases expand_eq syn input with ⟨named, attrs, parsed, hData, hAttrs, hParsed, hExpand⟩ |
    ⟨hData, reports, -, hExpand⟩
  · rw [hExpand, written_iff hData hAttrs hParsed]
    constructor
    · intro h
      rcases finish_cases input attrs parsed with ⟨expansion', hFinished, hFinish⟩ | ⟨reports, -, hFinish⟩
      · cases hFinish.symm.trans h
        exact hFinished
      · cases hFinish.symm.trans h
    · exact finish_of_finished
  · rw [hExpand]
    refine iff_of_false (fun h => nomatch h) ?_
    rintro ⟨-, -, ⟨named, hNamed, -⟩, -, -⟩
    exact hData named hNamed

/-- What is not expanded is reported. -/
theorem expand_reports (syn : Syntax I Span Path Meta) (input : DeriveInput I Span) :
    (∃ expansion, expand syn input = .ok (.ok expansion)) ∨
      ∃ reports, reports ≠ [] ∧ expand syn input = .ok (.error reports) := by
  rcases expand_eq syn input with ⟨named, attrs, parsed, -, -, -, hExpand⟩ | ⟨-, hReports⟩
  · rw [hExpand]
    rcases finish_cases input attrs parsed with ⟨expansion, -, hFinish⟩ | hReports
    · exact .inl ⟨expansion, hFinish⟩
    · exact .inr hReports
  · exact .inr hReports

end

/-- The constants of an expansion that the library checks. -/
theorem consts_valid {syn : Syntax I Span Path Meta} {input : DeriveInput I Span}
    {expansion : Expansion Span Path Meta} (h : Written syn input expansion)
    {field : Field Span × FieldSettings Span Path Meta} (hField : field ∈ expansion.fields) :
    (∀ span literal, field.2.padding = some (span, literal) →
        ∃ padding, literal.padding = .ok padding) ∧
      ∀ index ∈ field.2.indexes, validBits index.bits.digits = true ∧
        Cryptbox.validNormalizer index.normalizer.value = .ok true := by
  obtain ⟨named, -, hFields⟩ := h.fields
  obtain ⟨source, -, entries, hGives, hSettings, -⟩ := forall₂_exists hFields.flip hField
  have hValid := hGives.valid
  rw [hSettings]
  constructor
  · intro span literal hPadding
    obtain ⟨entry, hMem, hEntry⟩ := exists_of_lastOf hPadding
    cases entry with
    | padding _ _ =>
      cases hEntry
      exact hValid _ hMem
    | _ => cases hEntry
  · intro index hIndex
    obtain ⟨entry, hMem, hEntry⟩ := List.mem_filterMap.mp hIndex
    cases entry with
    | blindIndex _ =>
      cases hEntry
      exact hValid _ hMem
    | _ => cases hEntry

end Record

/-! ## The derive -/

/-- The derive is exact. -/
structure RecordExact (syn : Syntax I Span Path Meta) : Prop where
  expands : ∀ (input : DeriveInput I Span) (expansion : Record.Expansion Span Path Meta),
    Record.expand syn input = .ok (.ok expansion) ↔ Record.Written syn input expansion
  /-- What is not expanded is reported, without a panic. -/
  reports : ∀ input : DeriveInput I Span,
    (∃ expansion, Record.expand syn input = .ok (.ok expansion)) ∨
      ∃ reports, reports ≠ [] ∧ Record.expand syn input = .ok (.error reports)
  /-- The constants of an expansion are evaluated: no assertion of the library fails. -/
  consts : ∀ (input : DeriveInput I Span) (expansion : Record.Expansion Span Path Meta),
    Record.expand syn input = .ok (.ok expansion) → ∀ field ∈ expansion.fields,
      (∀ span literal, field.2.padding = some (span, literal) →
          ∃ padding, literal.padding = .ok padding) ∧
        ∀ index ∈ field.2.indexes, (∃ id : IndexId, index.id.id = .ok id) ∧
          validBits index.bits.digits = true ∧
            Cryptbox.validNormalizer index.normalizer.value = .ok true
  /-- The sealed fields are sealed in contexts of their own, under any record ID. -/
  contexts : ∀ (input : DeriveInput I Span) (expansion : Record.Expansion Span Path Meta),
    Record.expand syn input = .ok (.ok expansion) → ∀ (prim : Primitives) (record : RecordValue),
      ∃ ids : List SealId,
        (sealIds (expansion.fields.map Prod.fst)).mapM (fun entry => (entry.1.id : Result SealId))
          = .ok ids ∧
        (ids.map fun id => (SealContext.new prim id (some record)).bytes).Nodup
  /-- What its fields expand to is a declaration that the library accepts. -/
  declares : ∀ (input : DeriveInput I Span) (expansion : Record.Expansion Span Path Meta),
    Record.expand syn input = .ok (.ok expansion) → ∀ (kind : RecordKind)
      (declared : List Cryptbox.Field),
      List.Forall₂ Expands (expansion.fields.map Prod.fst) declared →
        ∃ D : Declaration, D.name = input.ident.text ∧ D.kind = kind ∧ D.fields = declared

/-- **The record derive** expands exactly the records that are written, to constants and fields that
the library takes, and contexts that are distinct. -/
theorem record_exact (syn : Syntax I Span Path Meta) : RecordExact syn where
  expands _ _ := Record.expand_iff
  reports input := Record.expand_reports syn input
  consts _ _ h _ hField := by
    obtain ⟨hPadding, hIndexes⟩ := Record.consts_valid (Record.expand_iff.mp h) hField
    exact ⟨hPadding, fun index hIndex => ⟨⟨_, index.id.id_eq⟩, hIndexes index hIndex⟩⟩
  contexts _ _ h prim record := (Record.expand_iff.mp h).accepted.contexts_nodup prim record
  declares input _ h kind declared hFields := by
    have hAccepted := (accepted_iff input.ident hFields).mpr (Record.expand_iff.mp h).accepted
    exact ⟨⟨input.ident.text, kind, declared, hAccepted⟩, rfl, rfl, rfl⟩

/-! ### A record -/

namespace Vectors

def field (name : String) (ty : Ty String) (tokens : List (TokenTree String)) :
    NamedField (Input String) String :=
  ⟨[cryptbox tokens], ⟨name, name⟩, ty⟩

def struct (name : String) (fields : List (NamedField (Input String) String)) :
    DeriveInput (Input String) String :=
  ⟨[], ⟨name, name⟩, none, .struct (.named fields)⟩

/-- The record of the README. -/
def user : DeriveInput (Input String) String := struct "User" [
  field "id" (tyOf "i64" none) [ident "record_id"],
  field "ssn" (tyOf "Secret" (some [tyOf "String" none]))
    (strEntry "seal" "7d1f0c52-3b8e-4a6f-9c21-6e4b8d0a9f13")]

/-- Where the derive reports an item, and what. -/
def reports (input : DeriveInput (Input String) String) : List (String × String) :=
  match Record.expand words input with
  | .ok (.error diagnostics) => diagnostics.map fun report => (report.span, report.message)
  | _ => []

/-- A field of two roles is reported at the second. -/
example : reports (struct "TwoRoles" [
      field "id" (tyOf "i64" none)
        (commas [[ident "record_id"], strEntry "seal" "2cef6a47-3e20-42dc-a319-56022cb4cf30"]),
      field "org" (tyOf "i64" none) [ident "plaintext"]]) =
    [("seal", "`id` has more than one role: a field is exactly one of `record_id`, `seal`, or " ++
      "`plaintext`")] := by
  decide +kernel

end Vectors

/-- The record of the README is written. -/
theorem record_exact_user :
    ∃ expansion, Record.Written Vectors.words Vectors.user expansion := by
  have hExact := record_exact Vectors.words
  have hReports : Vectors.reports Vectors.user = [] := by decide +kernel
  rcases hExact.reports Vectors.user with ⟨expansion, hExpand⟩ | ⟨diagnostics, hSome, hExpand⟩
  · exact ⟨expansion, (hExact.expands _ _).mp hExpand⟩
  · rw [Vectors.reports, hExpand] at hReports
    exact absurd (List.map_eq_nil_iff.mp hReports) hSome

end Cryptbox.Derive

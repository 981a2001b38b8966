import Cryptbox.Schema

/-!
# Shared IDs

What the manifest lists after any registrations, and the duplicates it finds. A registration
counts where it is first made: repeating it changes nothing, and another order of the
registrations changes only the order of what is listed.

* `Manifest.registered_eq`: the entries after registrations.
* `Manifest.mem_duplicates_seal` and its siblings: which IDs are reported, and with which names.
* `Manifest.finds_shared`: the duplicates of any sequence of registrations.
-/

namespace Cryptbox

open Base

variable {TypeId : Type} [DecidableEq TypeId] (schema : Schema TypeId)

namespace Registration

/-- The marker that a registration registers as a seal. -/
def sealMarker : Registration TypeId → Option TypeId
  | .seal F => some F
  | .sealed F _ => some F
  | _ => none

def indexMarker : Registration TypeId → Option TypeId
  | .index I => some I
  | _ => none

def recordMarker : Registration TypeId → Option TypeId
  | .record R => some R
  | _ => none

/-- The contexts that a registration registers seal IDs in. -/
def contexts : Registration TypeId → List (ContextEntry TypeId)
  | .sealed F C => [schema.sealedContext F C]
  | .record R => schema.recordContexts R
  | _ => []

end Registration

/-- The registered seals, in order of first registration. -/
def sealMarkers (registrations : List (Registration TypeId)) : List TypeId :=
  (registrations.filterMap Registration.sealMarker).eraseDups

def indexMarkers (registrations : List (Registration TypeId)) : List TypeId :=
  (registrations.filterMap Registration.indexMarker).eraseDups

def recordMarkers (registrations : List (Registration TypeId)) : List TypeId :=
  (registrations.filterMap Registration.recordMarker).eraseDups

namespace Manifest

/-! ## The entries -/

/-- What is listed after registrations. -/
def listing (registrations : List (Registration TypeId)) : Manifest TypeId where
  seals := (sealMarkers registrations).map schema.sealEntry
  indexes := (indexMarkers registrations).map schema.indexEntry
  records := (recordMarkers registrations).map schema.recordEntry
  contexts := registrations.eraseDups.flatMap (Registration.contexts schema)

variable {schema} {registrations : List (Registration TypeId)} {F : TypeId}

theorem contexts_concat (schema : Schema TypeId) (registrations : List (Registration TypeId))
    (r : Registration TypeId) :
    (listing schema (registrations ++ [r])).contexts
      = if r ∈ registrations then (listing schema registrations).contexts
        else (listing schema registrations).contexts ++ r.contexts schema := by
  simp only [listing, eraseDups_concat]
  split
  · rfl
  · rw [List.flatMap_append, List.flatMap_singleton]

theorem contexts_of_nil {r : Registration TypeId} (h : r.contexts schema = []) :
    (listing schema registrations).contexts = (listing schema (registrations ++ [r])).contexts := by
  rw [contexts_concat, h, List.append_nil, ite_self]

/-- Only `sealed` makes a context that names a marker. -/
theorem sealedContext_mem {C : Option RecordKind} :
    schema.sealedContext F C ∈ (listing schema registrations).contexts ↔
      .sealed F C ∈ registrations := by
  simp only [listing, List.mem_flatMap, List.mem_eraseDups]
  constructor
  · rintro ⟨r, hr, hContext⟩
    cases r with
    | «seal» F' => cases hContext
    | sealed F' C' =>
      have hEntry := List.mem_singleton.mp hContext
      have hMarker : some F = some F' := congrArg ContextEntry.marker hEntry
      have hKind : C = C' := congrArg ContextEntry.recordKind hEntry
      rw [Option.some.inj hMarker, hKind]
      exact hr
    | index I => cases hContext
    | record R =>
      obtain ⟨id, -, hEntry⟩ := List.mem_map.mp hContext
      cases congrArg ContextEntry.marker hEntry
  · intro hMem
    exact ⟨.sealed F C, hMem, List.mem_singleton_self _⟩

omit [DecidableEq TypeId] in
theorem mem_filterMap_recordMarker {R : TypeId} :
    R ∈ registrations.filterMap Registration.recordMarker ↔ .record R ∈ registrations := by
  rw [List.mem_filterMap]
  constructor
  · rintro ⟨r, hr, hMarker⟩
    cases r <;> cases hMarker
    exact hr
  · intro hMem
    exact ⟨.record R, hMem, rfl⟩

theorem seals_concat (schema : Schema TypeId) (registrations : List (Registration TypeId))
    (r : Registration TypeId) :
    (listing schema (registrations ++ [r])).seals = match r.sealMarker with
      | some F => pushBy SealEntry.marker (listing schema registrations).seals (schema.sealEntry F)
      | none => (listing schema registrations).seals :=
  pushBy_filterMap (fun _ => rfl) Registration.sealMarker registrations r

theorem indexes_concat (schema : Schema TypeId) (registrations : List (Registration TypeId))
    (r : Registration TypeId) :
    (listing schema (registrations ++ [r])).indexes = match r.indexMarker with
      | some I =>
        pushBy IndexEntry.marker (listing schema registrations).indexes (schema.indexEntry I)
      | none => (listing schema registrations).indexes :=
  pushBy_filterMap (fun _ => rfl) Registration.indexMarker registrations r

theorem records_concat (schema : Schema TypeId) (registrations : List (Registration TypeId))
    (r : Registration TypeId) :
    (listing schema (registrations ++ [r])).records = match r.recordMarker with
      | some R =>
        pushBy RecordEntry.marker (listing schema registrations).records (schema.recordEntry R)
      | none => (listing schema registrations).records :=
  pushBy_filterMap (fun _ => rfl) Registration.recordMarker registrations r

/-- **One more registration.** -/
theorem register_listing (registrations : List (Registration TypeId)) (r : Registration TypeId) :
    (listing schema registrations).register schema r = listing schema (registrations ++ [r]) := by
  have hSeals := seals_concat schema registrations r
  have hIndexes := indexes_concat schema registrations r
  have hRecords := records_concat schema registrations r
  cases r with
  | «seal» F =>
    exact Manifest.ext hSeals.symm hIndexes.symm hRecords.symm (contexts_of_nil rfl)
  | sealed F C =>
    have hPush : pushNew (listing schema registrations).contexts (schema.sealedContext F C)
        = (listing schema (registrations ++ [.sealed F C])).contexts := by
      rw [contexts_concat, pushNew]
      simp only [List.contains_iff_mem, sealedContext_mem]
      rfl
    exact Manifest.ext hSeals.symm hIndexes.symm hRecords.symm hPush
  | index I =>
    exact Manifest.ext hSeals.symm hIndexes.symm hRecords.symm (contexts_of_nil rfl)
  | record R =>
    have hContexts := contexts_concat schema registrations (.record R)
    have hNew : ((listing schema registrations).records.all fun record => record.marker ≠ R) = true
        ↔ .record R ∉ registrations :=
      (all_ne_iff (fun _ => rfl) _ R).trans (not_congr mem_filterMap_recordMarker)
    have hPush : (if (listing schema registrations).records.all fun record => record.marker ≠ R then
          (listing schema registrations).records ++ [schema.recordEntry R]
        else (listing schema registrations).records)
        = (listing schema (registrations ++ [.record R])).records := hRecords.symm
    show Manifest.record schema _ R = _
    unfold Manifest.record
    by_cases hMem : .record R ∈ registrations
    · have hOld := fun hAll => hNew.mp hAll hMem
      rw [if_pos hMem] at hContexts
      rw [if_neg hOld] at hPush
      rw [if_neg hOld]
      exact Manifest.ext hSeals.symm hIndexes.symm hPush hContexts.symm
    · rw [if_neg hMem] at hContexts
      rw [if_pos (hNew.mpr hMem)] at hPush
      rw [if_pos (hNew.mpr hMem)]
      exact Manifest.ext hSeals.symm hIndexes.symm hPush hContexts.symm

/-- **The entries after registrations**, each where its marker is first registered. -/
theorem registered_eq (registrations : List (Registration TypeId)) :
    registered schema registrations = listing schema registrations := by
  induction registrations using List.reverseRecOn with
  | nil => rfl
  | append_singleton registrations r ih =>
    rw [registered, List.foldl_concat]
    show (registered schema registrations).register schema r = _
    rw [ih, register_listing]

/-- A registration that was made before changes nothing. -/
theorem registered_repeat {before after : List (Registration TypeId)} {r : Registration TypeId}
    (h : r ∈ before) :
    registered schema (before ++ r :: after) = registered schema (before ++ after) := by
  have hMarkers {κ : Type} [DecidableEq κ] (marker : Registration TypeId → Option κ) :
      ((before ++ [r]).filterMap marker).eraseDups = (before.filterMap marker).eraseDups := by
    rw [List.filterMap_append]
    cases hMarker : marker r with
    | none => rw [List.filterMap_cons_none hMarker, List.filterMap_nil, List.append_nil]
    | some k =>
      rw [List.filterMap_cons_some hMarker, List.filterMap_nil, eraseDups_concat,
        if_pos (List.mem_filterMap.mpr ⟨r, h, hMarker⟩)]
  have hAgain : registered schema (before ++ [r]) = registered schema before := by
    rw [registered_eq, registered_eq]
    simp only [listing, sealMarkers, indexMarkers, recordMarkers, hMarkers, eraseDups_concat,
      if_pos h]
  have hFold (l l' : List (Registration TypeId)) :
      registered schema (l ++ l') = l'.foldl (register schema) (registered schema l) :=
    List.foldl_append
  rw [List.append_cons, hFold, hAgain, ← hFold]

end Manifest

/-! ## The duplicates -/

section

variable {Id : Type} [DecidableEq Id] {id : Id} {names : List String}

theorem mem_sharedIds {entries : List (Id × String)} :
    (id, names) ∈ sharedIds entries ↔ names = valuesOf id entries ∧ 1 < names.length := by
  rw [sharedIds, mem_shared fun _ => rfl, foldl_concat_nil]

theorem nodup_sharedIds (entries : List (Id × String)) :
    ((sharedIds entries).map Prod.fst).Nodup :=
  nodup_shared (fun _ => rfl) entries

omit [DecidableEq TypeId] in
/-- The IDs that more than one marker declares, with the names of the markers. -/
theorem mem_sharedIds_markers (declared : TypeId → Id) (name : TypeId → String)
    {markers : List TypeId} (hNodup : markers.Nodup) :
    (id, names) ∈ sharedIds (markers.map fun F => (declared F, name F)) ↔
      (∃ F ∈ markers, ∃ F' ∈ markers, F ≠ F' ∧ declared F = id ∧ declared F' = id) ∧
        names = (markers.filter fun F => declared F = id).map name := by
  have hNames : valuesOf id (markers.map fun F => (declared F, name F))
      = (markers.filter fun F => declared F = id).map name := by
    rw [valuesOf, List.filter_map, List.map_map]
    rfl
  have hLength : 1 < ((markers.filter fun F => declared F = id).map name).length ↔
      ∃ F ∈ markers, ∃ F' ∈ markers, F ≠ F' ∧ declared F = id ∧ declared F' = id := by
    rw [List.length_map, one_lt_length_iff (hNodup.filter _)]
    simp only [List.mem_filter, decide_eq_true_iff]
    constructor
    · rintro ⟨F, ⟨hF, hId⟩, F', ⟨hF', hId'⟩, hNe⟩
      exact ⟨F, hF, F', hF', hNe, hId, hId'⟩
    · rintro ⟨F, hF, F', hF', hNe, hId, hId'⟩
      exact ⟨F, ⟨hF, hId⟩, F', ⟨hF', hId'⟩, hNe⟩
  rw [mem_sharedIds, hNames, ← hLength]
  constructor
  · rintro ⟨rfl, h⟩
    exact ⟨h, rfl⟩
  · rintro ⟨h, rfl⟩
    exact ⟨rfl, h⟩

end

variable (registrations : List (Registration TypeId))

/-- A seal ID is registered in a kind of context, by `sealed` or by a record. -/
def InContext (id : SealId) (kind : Option RecordKind) : Prop :=
  (∃ F, .sealed F kind ∈ registrations ∧ (schema.sealConsts F).id = id) ∨
    ∃ R, .record R ∈ registrations ∧ id ∈ (schema.recordConsts R).seals ∧
      (schema.recordConsts R).context = kind

/-- The kinds of context of a seal ID that a registration adds. -/
def Registration.kinds (id : SealId) (r : Registration TypeId) : List (Option RecordKind) :=
  valuesOf id ((r.contexts schema).map fun context => (context.sealId, context.recordKind))

/-- The kinds of context of a seal ID, in order of first registration. -/
def contextKinds (id : SealId) : List (Option RecordKind) :=
  (registrations.flatMap (Registration.kinds schema id)).eraseDups

/-- The records whose fields list a seal ID, by name and once for each field. -/
def fieldRecords (id : SealId) : List String :=
  (recordMarkers registrations).flatMap fun R =>
    List.replicate ((schema.recordConsts R).seals.count id) (schema.typeName R)

variable {schema registrations} {id : SealId}

omit [DecidableEq TypeId] in
theorem mem_contextKinds {kind : Option RecordKind} :
    kind ∈ contextKinds schema registrations id ↔ InContext schema registrations id kind := by
  rw [contextKinds, List.mem_eraseDups, List.mem_flatMap]
  simp only [Registration.kinds, mem_valuesOf, List.mem_map]
  constructor
  · rintro ⟨r, hr, context, hContext, hEntry⟩
    cases hEntry
    cases r with
    | «seal» F => cases hContext
    | sealed F C =>
      obtain rfl := List.mem_singleton.mp hContext
      exact Or.inl ⟨F, hr, rfl⟩
    | index I => cases hContext
    | record R =>
      obtain ⟨id, hId, rfl⟩ := List.mem_map.mp hContext
      exact Or.inr ⟨R, hr, hId, rfl⟩
  · rintro (⟨F, hr, rfl⟩ | ⟨R, hr, hId, rfl⟩)
    · exact ⟨_, hr, schema.sealedContext F kind, List.mem_singleton_self _, rfl⟩
    · exact ⟨_, hr, ⟨id, none, _⟩, List.mem_map_of_mem hId, rfl⟩

theorem mem_sharedContexts {kinds : List (Option RecordKind)} :
    (id, kinds) ∈ (Manifest.registered schema registrations).sharedContexts ↔
      (∃ kind kind', kind ≠ kind' ∧ InContext schema registrations id kind ∧
        InContext schema registrations id kind') ∧ kinds = contextKinds schema registrations id := by
  have hKinds : (valuesOf id ((Manifest.listing schema registrations).contexts.map fun context =>
      (context.sealId, context.recordKind))).eraseDups = contextKinds schema registrations id := by
    rw [Manifest.listing, List.map_flatMap, valuesOf_flatMap, eraseDups_flatMap_eraseDups]
    rfl
  have hLength : 1 < (contextKinds schema registrations id).length ↔
      ∃ kind kind', kind ≠ kind' ∧ InContext schema registrations id kind ∧
        InContext schema registrations id kind' := by
    have hNodup : (contextKinds schema registrations id).Nodup := nodup_eraseDups _
    rw [one_lt_length_iff hNodup]
    simp only [mem_contextKinds]
    constructor
    · rintro ⟨kind, h, kind', h', hNe⟩
      exact ⟨kind, kind', hNe, h, h'⟩
    · rintro ⟨kind, kind', hNe, h, h'⟩
      exact ⟨kind, h, kind', h', hNe⟩
  rw [Manifest.registered_eq, Manifest.sharedContexts, mem_shared fun _ => rfl, foldl_pushNew,
    hKinds, ← hLength]
  constructor
  · rintro ⟨rfl, h⟩
    exact ⟨h, rfl⟩
  · rintro ⟨h, rfl⟩
    exact ⟨rfl, h⟩

/-- More than one field lists a value: fields of two members, or of one. -/
theorem one_lt_length_fields {ι : Type} (count : ι → Nat) (name : ι → String) {members : List ι}
    (hNodup : members.Nodup) :
    1 < (members.flatMap fun R => List.replicate (count R) (name R)).length ↔
      (∃ R ∈ members, ∃ R' ∈ members, R ≠ R' ∧ 0 < count R ∧ 0 < count R') ∨
        ∃ R ∈ members, 1 < count R := by
  have hPos (l : List ι) : 0 < (l.flatMap fun R => List.replicate (count R) (name R)).length ↔
      ∃ R ∈ l, 0 < count R := by
    rw [List.length_pos_iff_exists_mem]
    simp [Nat.pos_iff_ne_zero]
  induction members with
  | nil => simp
  | cons R members ih =>
    obtain ⟨hR, hNodup⟩ := List.nodup_cons.mp hNodup
    have hSum (a b : Nat) : 1 < a + b ↔ 1 < a ∨ (0 < a ∧ 0 < b) ∨ 1 < b := by omega
    rw [List.flatMap_cons, List.length_append, List.length_replicate, hSum, hPos,
      propext (ih hNodup)]
    constructor
    · rintro (h | ⟨h, R', hR', h'⟩ | ⟨R₁, h₁, R₂, h₂, hNe, hPos₁, hPos₂⟩ | ⟨R', hR', h⟩)
      · exact Or.inr ⟨R, List.mem_cons_self, h⟩
      · have hNe : R ≠ R' := fun hSame => hR (hSame ▸ hR')
        exact Or.inl ⟨R, List.mem_cons_self, R', List.mem_cons_of_mem R hR', hNe, h, h'⟩
      · exact Or.inl ⟨R₁, List.mem_cons_of_mem R h₁, R₂, List.mem_cons_of_mem R h₂, hNe, hPos₁,
          hPos₂⟩
      · exact Or.inr ⟨R', List.mem_cons_of_mem R hR', h⟩
    · rintro (⟨R₁, h₁, R₂, h₂, hNe, hPos₁, hPos₂⟩ | ⟨R', hR', h⟩)
      · rcases List.mem_cons.mp h₁ with hFirst | hRest₁
        · subst hFirst
          have hRest₂ := (List.mem_cons.mp h₂).resolve_left hNe.symm
          exact Or.inr (Or.inl ⟨hPos₁, R₂, hRest₂, hPos₂⟩)
        · rcases List.mem_cons.mp h₂ with hSecond | hRest₂
          · subst hSecond
            exact Or.inr (Or.inl ⟨hPos₂, R₁, hRest₁, hPos₁⟩)
          · exact Or.inr (Or.inr (Or.inl ⟨R₁, hRest₁, R₂, hRest₂, hNe, hPos₁, hPos₂⟩))
      · rcases List.mem_cons.mp hR' with hFirst | hRest
        · subst hFirst
          exact Or.inl h
        · exact Or.inr (Or.inr (Or.inr ⟨R', hRest, h⟩))

/-- The seal IDs that more than one record field lists. -/
theorem mem_sharedFields {names : List String} :
    (id, names) ∈ sharedIds ((Manifest.registered schema registrations).records.flatMap
        fun record => record.seals.map fun id => (id, record.name)) ↔
      ((∃ R ∈ recordMarkers registrations, ∃ R' ∈ recordMarkers registrations, R ≠ R' ∧
          id ∈ (schema.recordConsts R).seals ∧ id ∈ (schema.recordConsts R').seals) ∨
        ∃ R ∈ recordMarkers registrations, 1 < (schema.recordConsts R).seals.count id) ∧
      names = fieldRecords schema registrations id := by
  have hField (R : TypeId) : valuesOf id ((schema.recordEntry R).seals.map fun id =>
      (id, (schema.recordEntry R).name))
      = List.replicate ((schema.recordConsts R).seals.count id) (schema.typeName R) := by
    rw [List.eq_replicate_iff, valuesOf, List.length_map, List.filter_map, List.length_map,
      ← List.countP_eq_length_filter]
    refine ⟨List.countP_congr ?_, ?_⟩
    · intro other _
      simp
    · intro name hName
      simp only [List.map_map, List.mem_map, List.mem_filter, Function.comp_apply] at hName
      obtain ⟨other, -, rfl⟩ := hName
      rfl
  have hNames : valuesOf id ((Manifest.listing schema registrations).records.flatMap
      fun record => record.seals.map fun id => (id, record.name))
      = fieldRecords schema registrations id := by
    rw [Manifest.listing, valuesOf_flatMap, List.flatMap_map]
    simp only [hField]
    rfl
  have hLength := one_lt_length_fields (fun R => (schema.recordConsts R).seals.count id)
    schema.typeName (nodup_eraseDups (registrations.filterMap Registration.recordMarker))
  simp only [List.count_pos_iff] at hLength
  rw [Manifest.registered_eq, mem_sharedIds, hNames]
  constructor
  · rintro ⟨rfl, h⟩
    exact ⟨hLength.mp h, rfl⟩
  · rintro ⟨h, rfl⟩
    exact ⟨rfl, hLength.mpr h⟩

section

variable {TypeId : Type} {m : Manifest TypeId} {prim : Primitives} {id : SealId}

theorem Manifest.mem_duplicates_seal {names : List String} : .seal id names ∈ m.duplicates prim ↔
    (id, names) ∈ sharedIds (m.seals.map fun entry => (entry.id, entry.name)) := by
  simp [Manifest.duplicates]

theorem Manifest.mem_duplicates_index {id : IndexId} {names : List String} :
    .index id names ∈ m.duplicates prim ↔
      (id, names) ∈ sharedIds (m.indexes.map fun entry => (entry.id, entry.name)) := by
  simp [Manifest.duplicates]

theorem Manifest.mem_duplicates_context {contexts : List (Block 8)} :
    .context id contexts ∈ m.duplicates prim ↔
      ∃ kinds, (id, kinds) ∈ m.sharedContexts ∧ contexts = kinds.map (fingerprint prim) := by
  simp [Manifest.duplicates, eq_comm]

theorem Manifest.mem_duplicates_recordField {names : List String} :
    .recordField id names ∈ m.duplicates prim ↔
      (id, names) ∈ sharedIds (m.records.flatMap fun record =>
        record.seals.map fun id => (id, record.name)) := by
  simp [Manifest.duplicates]

/-- What a duplicate reports, without the names. -/
def Duplicate.anonymous : Duplicate → Duplicate
  | .seal id _ => .seal id []
  | .index id _ => .index id []
  | .context id _ => .context id []
  | .recordField id _ => .recordField id []

theorem Duplicate.line_anonymous (d : Duplicate) : d.anonymous.line = d.line := by
  cases d <;> rfl

/-- **Each shared ID is reported once for each kind of duplicate.** -/
theorem Manifest.nodup_duplicates (m : Manifest TypeId) (prim : Primitives) :
    ((m.duplicates prim).map Duplicate.anonymous).Nodup := by
  have hSeals := nodup_sharedIds (m.seals.map fun entry => (entry.id, entry.name))
  have hIndexes := nodup_sharedIds (m.indexes.map fun entry => (entry.id, entry.name))
  have hContexts : (m.sharedContexts.map Prod.fst).Nodup := nodup_shared (fun _ => rfl) _
  have hFields := nodup_sharedIds
    (m.records.flatMap fun record => record.seals.map fun id => (id, record.name))
  have hMap : (m.duplicates prim).map Duplicate.anonymous
      = ((sharedIds (m.seals.map fun entry => (entry.id, entry.name))).map Prod.fst).map
          (fun id => .seal id [])
        ++ ((sharedIds (m.indexes.map fun entry => (entry.id, entry.name))).map Prod.fst).map
          (fun id => .index id [])
        ++ (m.sharedContexts.map Prod.fst).map (fun id => .context id [])
        ++ ((sharedIds (m.records.flatMap fun record =>
            record.seals.map fun id => (id, record.name))).map Prod.fst).map
          (fun id => .recordField id []) := by
    simp only [Manifest.duplicates, List.map_append, List.map_map]
    rfl
  have hDisjoint {κ κ' : Type} {a : κ → Duplicate} {b : κ' → Duplicate} (h : ∀ x y, a x ≠ b y)
      (l : List κ) (l' : List κ') : (l.map a).Disjoint (l'.map b) := by
    intro d hd hd'
    obtain ⟨x, -, rfl⟩ := List.mem_map.mp hd
    obtain ⟨y, -, hSame⟩ := List.mem_map.mp hd'
    exact h x y hSame.symm
  rw [hMap]
  refine ((List.Nodup.append ?_ ?_ ?_).append ?_ ?_).append ?_ ?_
  · exact hSeals.map fun _ _ h => (Duplicate.seal.inj h).1
  · exact hIndexes.map fun _ _ h => (Duplicate.index.inj h).1
  · exact hDisjoint (fun _ _ h => by cases h) _ _
  · exact hContexts.map fun _ _ h => (Duplicate.context.inj h).1
  · rw [List.disjoint_append_left]
    exact ⟨hDisjoint (fun _ _ h => by cases h) _ _, hDisjoint (fun _ _ h => by cases h) _ _⟩
  · exact hFields.map fun _ _ h => (Duplicate.recordField.inj h).1
  · rw [List.disjoint_append_left, List.disjoint_append_left]
    exact ⟨⟨hDisjoint (fun _ _ h => by cases h) _ _, hDisjoint (fun _ _ h => by cases h) _ _⟩,
      hDisjoint (fun _ _ h => by cases h) _ _⟩

end

section

variable {prim : Primitives}

/-- **Seal IDs** that several seals declare. -/
theorem registered_seal {names : List String} :
    .seal id names ∈ (Manifest.registered schema registrations).duplicates prim ↔
      (∃ F ∈ sealMarkers registrations, ∃ F' ∈ sealMarkers registrations, F ≠ F' ∧
        (schema.sealConsts F).id = id ∧ (schema.sealConsts F').id = id) ∧
      names = ((sealMarkers registrations).filter fun F => (schema.sealConsts F).id = id).map
        schema.typeName := by
  rw [Manifest.mem_duplicates_seal, Manifest.registered_eq, Manifest.listing, List.map_map]
  exact mem_sharedIds_markers (fun F => (schema.sealConsts F).id) schema.typeName
    (nodup_eraseDups _)

/-- **Index IDs** that several blind indexes declare. -/
theorem registered_index {id : IndexId} {names : List String} :
    .index id names ∈ (Manifest.registered schema registrations).duplicates prim ↔
      (∃ I ∈ indexMarkers registrations, ∃ I' ∈ indexMarkers registrations, I ≠ I' ∧
        (schema.indexConsts I).id = id ∧ (schema.indexConsts I').id = id) ∧
      names = ((indexMarkers registrations).filter fun I => (schema.indexConsts I).id = id).map
        schema.typeName := by
  rw [Manifest.mem_duplicates_index, Manifest.registered_eq, Manifest.listing, List.map_map]
  exact mem_sharedIds_markers (fun I => (schema.indexConsts I).id) schema.typeName
    (nodup_eraseDups _)

/-- **Seal IDs** that are registered in several kinds of context. -/
theorem registered_context {contexts : List (Block 8)} :
    .context id contexts ∈ (Manifest.registered schema registrations).duplicates prim ↔
      (∃ kind kind', kind ≠ kind' ∧ InContext schema registrations id kind ∧
        InContext schema registrations id kind') ∧
      contexts = (contextKinds schema registrations id).map (fingerprint prim) := by
  rw [Manifest.mem_duplicates_context]
  simp only [mem_sharedContexts]
  constructor
  · rintro ⟨kinds, ⟨hKinds, rfl⟩, rfl⟩
    exact ⟨hKinds, rfl⟩
  · rintro ⟨hKinds, rfl⟩
    exact ⟨_, ⟨hKinds, rfl⟩, rfl⟩

/-- **Seal IDs** that several record fields list. -/
theorem registered_recordField {names : List String} :
    .recordField id names ∈ (Manifest.registered schema registrations).duplicates prim ↔
      ((∃ R ∈ recordMarkers registrations, ∃ R' ∈ recordMarkers registrations, R ≠ R' ∧
          id ∈ (schema.recordConsts R).seals ∧ id ∈ (schema.recordConsts R').seals) ∨
        ∃ R ∈ recordMarkers registrations, 1 < (schema.recordConsts R).seals.count id) ∧
      names = fieldRecords schema registrations id :=
  Manifest.mem_duplicates_recordField.trans mem_sharedFields

end

/-! ## Another order -/

/-- The same report, with the names in another order. -/
inductive Duplicate.Reorders : Duplicate → Duplicate → Prop
  | «seal» {id : SealId} {names names' : List String} (h : names.Perm names') :
    Reorders (.seal id names) (.seal id names')
  | index {id : IndexId} {names names' : List String} (h : names.Perm names') :
    Reorders (.index id names) (.index id names')
  | context {id : SealId} {contexts contexts' : List (Block 8)} (h : contexts.Perm contexts') :
    Reorders (.context id contexts) (.context id contexts')
  | recordField {id : SealId} {names names' : List String} (h : names.Perm names') :
    Reorders (.recordField id names) (.recordField id names')

theorem Duplicate.Reorders.anonymous {d d' : Duplicate} (h : d.Reorders d') :
    d.anonymous = d'.anonymous := by
  cases h <;> rfl

/-- Two manifests that list the same things, in different orders. -/
structure Manifest.SameUpToOrder {TypeId : Type} [DecidableEq TypeId] (prim : Primitives)
    (m m' : Manifest TypeId) : Prop where
  seals : m.seals.Perm m'.seals
  indexes : m.indexes.Perm m'.indexes
  records : m.records.Perm m'.records
  contexts : m.contexts.Perm m'.contexts
  lines : (m.lines prim).Perm (m'.lines prim)
  duplicates : ∀ d ∈ m.duplicates prim, ∃ d' ∈ m'.duplicates prim, d.Reorders d'
  duplicates' : ∀ d' ∈ m'.duplicates prim, ∃ d ∈ m.duplicates prim, d'.Reorders d

/-- The lines of duplicates depend on what is reported, not on its order. -/
theorem perm_duplicate_lines {TypeId : Type} {m m' : Manifest TypeId} {prim : Primitives}
    (h : ∀ d ∈ m.duplicates prim, ∃ d' ∈ m'.duplicates prim, d.Reorders d')
    (h' : ∀ d' ∈ m'.duplicates prim, ∃ d ∈ m.duplicates prim, d'.Reorders d) :
    ((m.duplicates prim).map Duplicate.line).Perm ((m'.duplicates prim).map Duplicate.line) := by
  have hLine (m : Manifest TypeId) : (m.duplicates prim).map Duplicate.line
      = ((m.duplicates prim).map Duplicate.anonymous).map Duplicate.line := by
    rw [List.map_map]
    exact List.map_congr_left fun d _ => d.line_anonymous.symm
  have hSubset {m m' : Manifest TypeId}
      (h : ∀ d ∈ m.duplicates prim, ∃ d' ∈ m'.duplicates prim, d.Reorders d') (a : Duplicate)
      (ha : a ∈ (m.duplicates prim).map Duplicate.anonymous) :
      a ∈ (m'.duplicates prim).map Duplicate.anonymous := by
    obtain ⟨d, hd, rfl⟩ := List.mem_map.mp ha
    obtain ⟨d', hd', hReorders⟩ := h d hd
    exact hReorders.anonymous ▸ List.mem_map_of_mem hd'
  have hPerm : ((m.duplicates prim).map Duplicate.anonymous).Perm
      ((m'.duplicates prim).map Duplicate.anonymous) :=
    (List.perm_ext_iff_of_nodup (m.nodup_duplicates prim) (m'.nodup_duplicates prim)).mpr
      fun a => ⟨hSubset h a, hSubset h' a⟩
  rw [hLine m, hLine m']
  exact hPerm.map Duplicate.line

theorem SealEntry.perm_lines {contexts contexts' : List (ContextEntry TypeId)} (prim : Primitives)
    (h : contexts.Perm contexts') (entry : SealEntry TypeId) :
    (entry.lines prim contexts).Perm (entry.lines prim contexts') :=
  ((h.filter _).map _).append_left _

section

variable {registrations' : List (Registration TypeId)} (h : registrations.Perm registrations')
  (prim : Primitives)
include h

omit [DecidableEq TypeId] in
theorem perm_markers {κ : Type} [DecidableEq κ] (marker : Registration TypeId → Option κ) :
    (registrations.filterMap marker).eraseDups.Perm
      (registrations'.filterMap marker).eraseDups :=
  perm_eraseDups fun _ => (h.filterMap marker).mem_iff

omit [DecidableEq TypeId] in
theorem inContext_perm {kind : Option RecordKind} :
    InContext schema registrations id kind ↔ InContext schema registrations' id kind := by
  simp only [InContext, h.mem_iff]

omit [DecidableEq TypeId] in
theorem perm_contextKinds (id : SealId) :
    (contextKinds schema registrations id).Perm (contextKinds schema registrations' id) :=
  perm_eraseDups fun _ => (h.flatMap_right _).mem_iff

/-- What is reported is reported after the registrations in another order. -/
theorem reorders_duplicates {d : Duplicate}
    (hd : d ∈ (Manifest.registered schema registrations).duplicates prim) :
    ∃ d' ∈ (Manifest.registered schema registrations').duplicates prim, d.Reorders d' := by
  have hSeals : (sealMarkers registrations).Perm (sealMarkers registrations') :=
    perm_markers h Registration.sealMarker
  have hIndexes : (indexMarkers registrations).Perm (indexMarkers registrations') :=
    perm_markers h Registration.indexMarker
  have hRecords : (recordMarkers registrations).Perm (recordMarkers registrations') :=
    perm_markers h Registration.recordMarker
  cases d with
  | «seal» id names =>
    obtain ⟨hShared, rfl⟩ := registered_seal.mp hd
    simp only [hSeals.mem_iff] at hShared
    exact ⟨_, registered_seal.mpr ⟨hShared, rfl⟩, .seal ((hSeals.filter _).map _)⟩
  | index id names =>
    obtain ⟨hShared, rfl⟩ := registered_index.mp hd
    simp only [hIndexes.mem_iff] at hShared
    exact ⟨_, registered_index.mpr ⟨hShared, rfl⟩, .index ((hIndexes.filter _).map _)⟩
  | context id contexts =>
    obtain ⟨hShared, rfl⟩ := registered_context.mp hd
    simp only [inContext_perm h] at hShared
    exact ⟨_, registered_context.mpr ⟨hShared, rfl⟩, .context ((perm_contextKinds h id).map _)⟩
  | recordField id names =>
    obtain ⟨hShared, rfl⟩ := registered_recordField.mp hd
    simp only [hRecords.mem_iff] at hShared
    exact ⟨_, registered_recordField.mpr ⟨hShared, rfl⟩, .recordField (hRecords.flatMap_right _)⟩

/-- **Another order of the registrations** changes the order of what is listed, and nothing
else. -/
theorem registered_perm : Manifest.SameUpToOrder prim (Manifest.registered schema registrations)
    (Manifest.registered schema registrations') := by
  have hDuplicates := fun d (hd : d ∈ (Manifest.registered schema registrations).duplicates prim) =>
    reorders_duplicates h prim hd
  have hDuplicates' := fun d
    (hd : d ∈ (Manifest.registered schema registrations').duplicates prim) =>
    reorders_duplicates h.symm prim hd
  have hSeals := (perm_markers h Registration.sealMarker).map schema.sealEntry
  have hIndexes := (perm_markers h Registration.indexMarker).map schema.indexEntry
  have hRecords := (perm_markers h Registration.recordMarker).map schema.recordEntry
  have hContexts := (perm_eraseDups fun _ => h.mem_iff).flatMap_right
    (Registration.contexts schema)
  have hLines := perm_duplicate_lines hDuplicates hDuplicates'
  rw [Manifest.registered_eq, Manifest.registered_eq] at *
  refine ⟨hSeals, hIndexes, hRecords, hContexts, ?_, hDuplicates, hDuplicates'⟩
  refine ((List.Perm.append ?_ ?_).append ?_).append hLines
  · exact List.Perm.flatMap hSeals fun entry _ => entry.perm_lines prim hContexts
  · exact hIndexes.flatMap_right _
  · exact hRecords.flatMap_right _

end

/-! ## Any sequence of registrations -/

/-- **The manifest finds every shared ID**, after registrations in any order and with any
repeats. -/
structure Manifest.FindsShared (schema : Schema TypeId) (prim : Primitives)
    (registrations : List (Registration TypeId)) : Prop where
  /-- A registration that was made before changes nothing. -/
  repeated : ∀ before r after, registrations = before ++ r :: after → r ∈ before →
    (registered schema registrations).display prim
        = (registered schema (before ++ after)).display prim ∧
      (registered schema registrations).duplicates prim
        = (registered schema (before ++ after)).duplicates prim
  seals : ∀ id names, .seal id names ∈ (registered schema registrations).duplicates prim ↔
    (∃ F ∈ sealMarkers registrations, ∃ F' ∈ sealMarkers registrations, F ≠ F' ∧
      (schema.sealConsts F).id = id ∧ (schema.sealConsts F').id = id) ∧
    names = ((sealMarkers registrations).filter fun F => (schema.sealConsts F).id = id).map
      schema.typeName
  indexes : ∀ id names, .index id names ∈ (registered schema registrations).duplicates prim ↔
    (∃ I ∈ indexMarkers registrations, ∃ I' ∈ indexMarkers registrations, I ≠ I' ∧
      (schema.indexConsts I).id = id ∧ (schema.indexConsts I').id = id) ∧
    names = ((indexMarkers registrations).filter fun I => (schema.indexConsts I).id = id).map
      schema.typeName
  contexts : ∀ id contexts,
    .context id contexts ∈ (registered schema registrations).duplicates prim ↔
      (∃ kind kind', kind ≠ kind' ∧ InContext schema registrations id kind ∧
        InContext schema registrations id kind') ∧
      contexts = (contextKinds schema registrations id).map (fingerprint prim)
  recordFields : ∀ id names,
    .recordField id names ∈ (registered schema registrations).duplicates prim ↔
      ((∃ R ∈ recordMarkers registrations, ∃ R' ∈ recordMarkers registrations, R ≠ R' ∧
          id ∈ (schema.recordConsts R).seals ∧ id ∈ (schema.recordConsts R').seals) ∨
        ∃ R ∈ recordMarkers registrations, 1 < (schema.recordConsts R).seals.count id) ∧
      names = fieldRecords schema registrations id
  /-- No ID is reported twice in one kind of duplicate. -/
  once : (((registered schema registrations).duplicates prim).map Duplicate.anonymous).Nodup
  reordered : ∀ registrations', registrations.Perm registrations' →
    SameUpToOrder prim (registered schema registrations) (registered schema registrations')

theorem Manifest.finds_shared (schema : Schema TypeId) (prim : Primitives)
    (registrations : List (Registration TypeId)) : FindsShared schema prim registrations where
  repeated := by
    intro before r after hSplit hMade
    rw [hSplit, registered_repeat hMade]
    exact ⟨rfl, rfl⟩
  seals := fun _ _ => registered_seal
  indexes := fun _ _ => registered_index
  contexts := fun _ _ => registered_context
  recordFields := fun _ _ => registered_recordField
  once := nodup_duplicates _ prim
  reordered := fun _ h => registered_perm h prim

end Cryptbox

import Cryptbox.Base.Scan
import Cryptbox.Schema.Shared

/-!
# Unique IDs

The check of `assert_unique_ids!` in `schema.rs`, as it runs at compile time: nested loops over
an array of IDs, compared byte by byte. An index out of range would stop the compilation.

* `hasDuplicate_decides`: the loops end within the array, and find two equal IDs if there are any.
* `hasDuplicate_agrees`: the manifest test finds the same duplicates.
-/

namespace Cryptbox

open Base

/-- `ids[position]`. -/
def item (ids : List (Block 16)) (position : Nat) : Result (Block 16) :=
  match ids[position]? with
  | some id => .ok id
  | none => panics

theorem item_of_lt {ids : List (Block 16)} {position : Nat} (h : position < ids.length) :
    item ids position = .ok (ids.get ⟨position, h⟩) := by
  rw [item, List.getElem?_eq_getElem h]
  rfl

/-- Compares two IDs byte by byte. -/
def equal (left right : Block 16) : Result Bool := do
  let differs ← scan (fun position => do
    let l ← index left.val position
    let r ← index right.val position
    return decide (l ≠ r)) 0 16
  return !differs

/-- Reports whether any two of `ids` are equal. -/
def hasDuplicate (ids : List (Block 16)) : Result Bool :=
  scan (fun first => scan (fun second => do
    let left ← item ids first
    let right ← item ids second
    equal left right) (first + 1) ids.length) 0 ids.length

theorem equal_decides (left right : Block 16) : Decides (equal left right) (left = right) := by
  have hTest (position : Nat) (hPosition : position < 16) : Decides (do
      let l ← index left.val position
      let r ← index right.val position
      return decide (l ≠ r) : Result Bool) (left.val[position]? ≠ right.val[position]?) := by
    have hLeft := List.getElem?_eq_getElem (l := left.val) (i := position)
      (by rwa [Block.length_val])
    have hRight := List.getElem?_eq_getElem (l := right.val) (i := position)
      (by rwa [Block.length_val])
    rw [index_eq_ok.mpr hLeft, index_eq_ok.mpr hRight, ok_bind, ok_bind, hLeft, hRight]
    exact (Decides.ok _).congr (by simp)
  refine (scan_decides fun position _ hPosition => hTest position hPosition).not.congr ?_
  constructor
  · intro hNone
    refine Subtype.ext (List.ext_getElem? fun position => ?_)
    by_cases hPosition : position < 16
    · by_contra hNe
      exact hNone ⟨position, Nat.zero_le position, hPosition, hNe⟩
    · rw [List.getElem?_eq_none (by simpa using hPosition),
        List.getElem?_eq_none (by simpa using hPosition)]
  · rintro rfl ⟨position, -, -, hNe⟩
    exact hNe rfl

/-- **The loops** stay within the array and report whether two IDs are equal. -/
theorem hasDuplicate_decides (ids : List (Block 16)) : Decides (hasDuplicate ids)
    (∃ first second, first < second ∧ second < ids.length ∧ ids[first]? = ids[second]?) := by
  have hTest {first second : Nat} (hFirst : first < ids.length) (hSecond : second < ids.length) :
      Decides (do
        let left ← item ids first
        let right ← item ids second
        equal left right : Result Bool) (ids[first]? = ids[second]?) := by
    rw [item_of_lt hFirst, item_of_lt hSecond, ok_bind, ok_bind, List.getElem?_eq_getElem hFirst,
      List.getElem?_eq_getElem hSecond, Option.some_inj]
    exact equal_decides _ _
  have hInner (first : Nat) (hFirst : first < ids.length) :=
    scan_decides fun second (_ : first + 1 ≤ second) hSecond => hTest hFirst hSecond
  refine (scan_decides fun first _ hFirst => hInner first hFirst).congr ?_
  constructor
  · rintro ⟨first, -, -, second, hLt, hSecond, hSame⟩
    exact ⟨first, second, hLt, hSecond, hSame⟩
  · rintro ⟨first, second, hLt, hSecond, hSame⟩
    exact ⟨first, Nat.zero_le first, by omega, second, hLt, hSecond, hSame⟩

theorem hasDuplicate_eq_ok_true {ids : List (Block 16)} :
    hasDuplicate ids = .ok true ↔ ¬ ids.Nodup := by
  rw [(hasDuplicate_decides ids).eq_ok_true, List.nodup_iff_getElem?_ne_getElem?]
  push Not
  rfl

section

variable {TypeId : Type} [DecidableEq TypeId] {schema : Schema TypeId} {prim : Primitives}
  {markers : List TypeId}

/-- Distinct seals share an ID exactly when the manifest reports one. -/
theorem exists_registered_seal (hMarkers : markers.Nodup)
    {registrations : List (Registration TypeId)}
    (hRegistered : registrations.Perm (markers.map .seal)) :
    (∃ id names, .seal id names ∈ (Manifest.registered schema registrations).duplicates prim) ↔
      ¬ (markers.map fun F => (schema.sealConsts F).id.asBytes).Nodup := by
  have hMem (F : TypeId) : F ∈ sealMarkers registrations ↔ F ∈ markers := by
    rw [sealMarkers, List.mem_eraseDups, (hRegistered.filterMap _).mem_iff]
    simp [List.filterMap_map, Function.comp_def, Registration.sealMarker]
  have hNodup : (markers.map fun F => (schema.sealConsts F).id.asBytes).Nodup ↔
      ∀ F ∈ markers, ∀ F' ∈ markers, (schema.sealConsts F).id = (schema.sealConsts F').id →
        F = F' := by
    rw [List.nodup_map_iff_inj_on hMarkers]
    have hBytes (F F' : TypeId) : (schema.sealConsts F).id.asBytes = (schema.sealConsts F').id.asBytes
        ↔ (schema.sealConsts F).id = (schema.sealConsts F').id :=
      ⟨fun h => Identifier.asBytes_injective (congrArg Subtype.val h), congrArg _⟩
    simp only [hBytes]
  simp only [registered_seal, hMem]
  rw [hNodup]
  constructor
  · rintro ⟨id, -, ⟨F, hF, F', hF', hNe, hId, hId'⟩, -⟩ hInjective
    exact hNe (hInjective F hF F' hF' (hId.trans hId'.symm))
  · intro h
    push Not at h
    obtain ⟨F, hF, F', hF', hId, hNe⟩ := h
    exact ⟨_, _, ⟨F, hF, F', hF', hNe, rfl, hId.symm⟩, rfl⟩

end

/-- **The check at compile time and the manifest test agree.** -/
structure UniqueIds {TypeId : Type} [DecidableEq TypeId] (schema : Schema TypeId)
    (prim : Primitives) : Prop where
  /-- The loops end, without an index out of range. -/
  returns : ∀ ids, ∃ found, hasDuplicate ids = .ok found
  finds : ∀ ids, hasDuplicate ids = .ok true ↔
    ∃ first second, first < second ∧ second < ids.length ∧ ids[first]? = ids[second]?
  agrees : ∀ (markers : List TypeId) (registrations : List (Registration TypeId)),
    markers.Nodup → registrations.Perm (markers.map .seal) →
      (hasDuplicate (markers.map fun F => (schema.sealConsts F).id.asBytes) = .ok true ↔
        ∃ id names, .seal id names ∈ (Manifest.registered schema registrations).duplicates prim)

theorem hasDuplicate_agrees {TypeId : Type} [DecidableEq TypeId] (schema : Schema TypeId)
    (prim : Primitives) : UniqueIds schema prim where
  returns := by
    intro ids
    obtain ⟨found, hFound, -⟩ := hasDuplicate_decides ids
    exact ⟨found, hFound⟩
  finds := fun ids => (hasDuplicate_decides ids).eq_ok_true
  agrees := by
    intro markers registrations hMarkers hRegistered
    rw [hasDuplicate_eq_ok_true, exists_registered_seal hMarkers hRegistered]

end Cryptbox

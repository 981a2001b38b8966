import Mathlib.Data.List.Perm.Basic
import Mathlib.Data.List.Nodup
import Mathlib.Data.List.Induction
import Mathlib.Tactic.Common

/-!
# First appearances and groups

A fold that files values under keys, in the order in which the keys first appear, and what it
files. `List.eraseDups` keeps the first appearance of each value.

* `group_eq`: the groups are the keys in order of first appearance, each with the values filed
  under it.
* `mem_shared`, `nodup_shared`: the groups of more than one value.
* `pushBy_eq`: collecting entries that are told apart by a key.
-/

namespace Cryptbox.Base

universe u v

variable {α : Type u} [BEq α] [LawfulBEq α]

/-! ## First appearances -/

omit [LawfulBEq α] in
/-- Adds a value that is not there yet. -/
def pushNew (l : List α) (a : α) : List α := if l.contains a then l else l ++ [a]

theorem eraseDups_concat (l : List α) (a : α) :
    (l ++ [a]).eraseDups = if a ∈ l then l.eraseDups else l.eraseDups ++ [a] := by
  rw [List.eraseDups_append]
  split
  · next h => simp [List.removeAll, h]
  · next h => simp [List.removeAll, h, List.eraseDups_cons]

theorem foldl_pushNew (l : List α) : l.foldl pushNew [] = l.eraseDups := by
  induction l using List.reverseRecOn with
  | nil => rfl
  | append_singleton l a ih =>
    rw [List.foldl_concat, ih, eraseDups_concat, pushNew]
    simp only [List.contains_iff_mem, List.mem_eraseDups]

theorem nodup_eraseDups (l : List α) : l.eraseDups.Nodup := by
  induction l using List.reverseRecOn with
  | nil => exact List.nodup_nil
  | append_singleton l a ih =>
    rw [eraseDups_concat]
    split
    · exact ih
    · next h =>
      refine List.Nodup.append ih (List.nodup_singleton a) ?_
      rw [List.disjoint_singleton, List.mem_eraseDups]
      exact h

omit [BEq α] [LawfulBEq α] in
theorem filter_concat (p : α → Bool) (l : List α) (a : α) :
    (l ++ [a]).filter p = if p a = true then l.filter p ++ [a] else l.filter p := by
  rw [List.filter_append]
  split
  · next h => rw [List.filter_cons_of_pos h, List.filter_nil]
  · next h => rw [List.filter_cons_of_neg h, List.filter_nil, List.append_nil]

/-- The order of a list does not matter to what appears in it. -/
theorem perm_eraseDups {l l' : List α} (h : ∀ a, a ∈ l ↔ a ∈ l') :
    l.eraseDups.Perm l'.eraseDups := by
  refine (List.perm_ext_iff_of_nodup (nodup_eraseDups l) (nodup_eraseDups l')).mpr ?_
  intro a
  rw [List.mem_eraseDups, List.mem_eraseDups, h]

/-- What a value contributes again does not appear again. -/
theorem eraseDups_flatMap_eraseDups {β : Type v} [BEq β] [LawfulBEq β] (f : α → List β) (l : List α) :
    (l.eraseDups.flatMap f).eraseDups = (l.flatMap f).eraseDups := by
  induction l using List.reverseRecOn with
  | nil => rfl
  | append_singleton l a ih =>
    rw [eraseDups_concat, List.flatMap_append, List.flatMap_singleton, List.eraseDups_append, ← ih]
    split
    · next hMem =>
      have hNothing : (f a).removeAll (l.flatMap f) = [] := by
        simp only [List.removeAll, List.filter_eq_nil_iff]
        intro b hb
        simpa using ⟨a, hMem, hb⟩
      rw [hNothing, List.eraseDups_nil, List.append_nil]
    · have hSame : (f a).removeAll (l.eraseDups.flatMap f) = (f a).removeAll (l.flatMap f) := by
        simp only [List.removeAll]
        apply List.filter_congr
        intro b hb
        simp
      rw [List.flatMap_append, List.flatMap_singleton, List.eraseDups_append, hSame]

omit [BEq α] [LawfulBEq α] in
theorem one_lt_length_iff {l : List α} (h : l.Nodup) :
    1 < l.length ↔ ∃ a ∈ l, ∃ b ∈ l, a ≠ b := by
  cases l with
  | nil => simp
  | cons a rest =>
    cases rest with
    | nil => simp
    | cons b rest =>
      have hNe : a ≠ b := fun hEq => (List.nodup_cons.mp h).1 (hEq ▸ List.mem_cons_self)
      refine iff_of_true (by simp) ⟨a, List.mem_cons_self, b, ?_, hNe⟩
      exact List.mem_cons_of_mem _ List.mem_cons_self

/-! ## Groups -/

section

variable {β : Type u} {κ : Type v} [DecidableEq κ]

/-- Files a value: `add` puts it into the group of its key, or it starts one. -/
def insertGroup (add : List β → β → List β) : List (κ × List β) → κ → β → List (κ × List β)
  | [], key, b => [(key, [b])]
  | (other, values) :: groups, key, b =>
    if other = key then (other, add values b) :: groups
    else (other, values) :: insertGroup add groups key b

/-- Groups values by key, in order of first appearance. -/
def group (add : List β → β → List β) (entries : List (κ × β)) : List (κ × List β) :=
  entries.foldl (fun groups entry => insertGroup add groups entry.1 entry.2) []

/-- The values filed under a key, in order. -/
def valuesOf (key : κ) (entries : List (κ × β)) : List β :=
  (entries.filter fun entry => entry.1 = key).map Prod.snd

theorem mem_valuesOf {key : κ} {entries : List (κ × β)} {b : β} :
    b ∈ valuesOf key entries ↔ (key, b) ∈ entries := by
  simp [valuesOf]

theorem valuesOf_concat (key : κ) (entries : List (κ × β)) (entry : κ × β) :
    valuesOf key (entries ++ [entry])
      = if entry.1 = key then valuesOf key entries ++ [entry.2] else valuesOf key entries := by
  rw [valuesOf, filter_concat]
  by_cases h : entry.1 = key
  · rw [if_pos h, if_pos (decide_eq_true h), List.map_append, List.map_singleton, valuesOf]
  · rw [if_neg h, if_neg (by simpa using h), valuesOf]

theorem valuesOf_flatMap {γ : Type*} (key : κ) (f : γ → List (κ × β)) (l : List γ) :
    valuesOf key (l.flatMap f) = l.flatMap fun c => valuesOf key (f c) := by
  rw [valuesOf, List.filter_flatMap, List.map_flatMap]
  rfl

/-- A value of a new key starts a group at the end. -/
theorem insertGroup_of_notMem (add : List β → β → List β) {groups : List (κ × List β)} {key : κ}
    (h : key ∉ groups.map Prod.fst) (b : β) :
    insertGroup add groups key b = groups ++ [(key, [b])] := by
  induction groups with
  | nil => rfl
  | cons entry groups ih =>
    rw [List.map_cons, List.mem_cons, not_or] at h
    rw [insertGroup, if_neg (Ne.symm h.1), ih h.2, List.cons_append]

/-- A value of a key that has a group is added to it. -/
theorem insertGroup_of_mem (add : List β → β → List β) (f : κ → List β) {keys : List κ}
    (hNodup : keys.Nodup) {key : κ} (h : key ∈ keys) (b : β) :
    insertGroup add (keys.map fun k => (k, f k)) key b
      = keys.map fun k => (k, if k = key then add (f k) b else f k) := by
  induction keys with
  | nil => cases h
  | cons k keys ih =>
    obtain ⟨hk, hNodup⟩ := List.nodup_cons.mp hNodup
    rw [List.map_cons, List.map_cons, insertGroup]
    by_cases hKey : k = key
    · rw [if_pos hKey, if_pos hKey]
      refine congrArg (_ :: ·) (List.map_congr_left ?_)
      intro k' hk'
      have hOther : k' ≠ key := fun hSame => hk (hKey ▸ hSame ▸ hk')
      rw [if_neg hOther]
    · rw [if_neg hKey, if_neg hKey, ih hNodup ((List.mem_cons.mp h).resolve_left (Ne.symm hKey))]

/-- **The groups** are the keys in order of first appearance, each with its values. -/
theorem group_eq {add : List β → β → List β} (hAdd : ∀ b, add [] b = [b])
    (entries : List (κ × β)) :
    group add entries = (entries.map Prod.fst).eraseDups.map fun key =>
      (key, (valuesOf key entries).foldl add []) := by
  induction entries using List.reverseRecOn with
  | nil => rfl
  | append_singleton entries entry ih =>
    obtain ⟨key, b⟩ := entry
    have hStep : group add (entries ++ [(key, b)]) = insertGroup add (group add entries) key b :=
      List.foldl_concat ..
    have hValues (k : κ) : (valuesOf k (entries ++ [(key, b)])).foldl add []
        = if k = key then add ((valuesOf k entries).foldl add []) b
          else (valuesOf k entries).foldl add [] := by
      rw [valuesOf_concat, apply_ite (List.foldl add []), List.foldl_concat]
      simp only [eq_comm]
    rw [hStep, ih, List.map_append, List.map_singleton, eraseDups_concat]
    simp only [hValues]
    by_cases hMem : key ∈ entries.map Prod.fst
    · rw [if_pos hMem]
      exact insertGroup_of_mem add _ (nodup_eraseDups _) (List.mem_eraseDups.mpr hMem) b
    · have hNew : key ∉ (entries.map Prod.fst).eraseDups := mt List.mem_eraseDups.mp hMem
      have hNone : valuesOf key entries = [] := by
        rw [List.eq_nil_iff_forall_not_mem]
        intro value hValue
        exact hMem (List.mem_map_of_mem (f := Prod.fst) (mem_valuesOf.mp hValue))
      rw [if_neg hMem, insertGroup_of_notMem, List.map_append, List.map_singleton, if_pos rfl,
        hNone, List.foldl_nil, hAdd]
      · refine congrArg (· ++ _) (List.map_congr_left ?_)
        intro k hk
        have hOther : k ≠ key := fun hSame => hNew (hSame ▸ hk)
        rw [if_neg hOther]
      · rw [List.map_map]
        simpa using hMem

/-- The groups of more than one value. -/
def shared (add : List β → β → List β) (entries : List (κ × β)) : List (κ × List β) :=
  (group add entries).filter fun filed => 1 < filed.2.length

theorem mem_shared {add : List β → β → List β} (hAdd : ∀ b, add [] b = [b])
    {entries : List (κ × β)} {key : κ} {values : List β} :
    (key, values) ∈ shared add entries ↔
      values = (valuesOf key entries).foldl add [] ∧ 1 < values.length := by
  rw [shared, List.mem_filter, group_eq hAdd, List.mem_map, decide_eq_true_iff]
  constructor
  · rintro ⟨⟨k, -, hGroup⟩, hLength⟩
    cases hGroup
    exact ⟨rfl, hLength⟩
  · rintro ⟨rfl, hLength⟩
    refine ⟨⟨key, ?_, rfl⟩, hLength⟩
    cases hValues : valuesOf key entries with
    | nil =>
      rw [hValues] at hLength
      cases hLength
    | cons b rest =>
      have hMem : (key, b) ∈ entries := mem_valuesOf.mp (hValues ▸ List.mem_cons_self)
      exact List.mem_eraseDups.mpr (List.mem_map_of_mem (f := Prod.fst) hMem)

/-- No key has two groups. -/
theorem nodup_shared {add : List β → β → List β} (hAdd : ∀ b, add [] b = [b])
    (entries : List (κ × β)) : ((shared add entries).map Prod.fst).Nodup := by
  have hKeys : ((group add entries).map Prod.fst) = (entries.map Prod.fst).eraseDups := by
    rw [group_eq hAdd, List.map_map]
    exact List.map_id _
  have hAll : ((group add entries).map Prod.fst).Nodup := hKeys ▸ nodup_eraseDups _
  exact hAll.sublist (List.filter_sublist.map _)

omit [DecidableEq κ] in
/-- Groups that keep every value keep them in order. -/
theorem foldl_concat_nil (values : List β) : values.foldl (fun l b => l ++ [b]) [] = values := by
  induction values using List.reverseRecOn with
  | nil => rfl
  | append_singleton values b ih => rw [List.foldl_concat, ih]

/-! ## Entries that are told apart by a key -/

/-- Adds an entry, unless there is one with its key. -/
def pushBy (key : β → κ) (entries : List β) (entry : β) : List β :=
  if entries.all fun other => key other ≠ key entry then entries ++ [entry] else entries

theorem all_ne_iff {key : β → κ} {entry : κ → β} (hKey : ∀ k, key (entry k) = k) (keys : List κ)
    (k : κ) : ((keys.eraseDups.map entry).all fun other => key other ≠ k) = true ↔ k ∉ keys := by
  simp only [List.all_map, List.all_eq_true, List.mem_eraseDups, Function.comp_apply, hKey,
    decide_eq_true_eq]
  exact ⟨fun h hMem => h k hMem rfl, fun h other hMem hSame => h (hSame ▸ hMem)⟩

/-- Collecting the entries of keys: one for each key, where it first appears. -/
theorem pushBy_eq {key : β → κ} {entry : κ → β} (hKey : ∀ k, key (entry k) = k) (keys : List κ)
    (k : κ) : pushBy key (keys.eraseDups.map entry) (entry k)
      = (keys ++ [k]).eraseDups.map entry := by
  have hAll := all_ne_iff hKey keys k
  rw [pushBy, hKey, eraseDups_concat]
  by_cases hMem : k ∈ keys
  · rw [if_neg (fun h => hAll.mp h hMem), if_pos hMem]
  · rw [if_pos (hAll.mpr hMem), if_neg hMem, List.map_append, List.map_singleton]

/-- One more registration, which may be of another kind. -/
theorem pushBy_filterMap {γ : Type*} {key : β → κ} {entry : κ → β} (hKey : ∀ k, key (entry k) = k)
    (marker : γ → Option κ) (l : List γ) (c : γ) :
    ((l ++ [c]).filterMap marker).eraseDups.map entry
      = match marker c with
        | some k => pushBy key ((l.filterMap marker).eraseDups.map entry) (entry k)
        | none => (l.filterMap marker).eraseDups.map entry := by
  rw [List.filterMap_append]
  cases hMarker : marker c with
  | none => rw [List.filterMap_cons_none hMarker, List.filterMap_nil, List.append_nil]
  | some k =>
    rw [List.filterMap_cons_some hMarker, List.filterMap_nil]
    exact (pushBy_eq hKey _ k).symm

end

end Cryptbox.Base

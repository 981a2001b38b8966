import Mathlib.Data.List.Nodup
import Mathlib.Tactic.Common

/-!
# Reports of repeats

Two passes over a list that report what stands in it twice: one with the first item that has the
same key, and one that reports what is taken already.

* `reportRepeats_eq`, `reportTaken_eq`: what is reported, item by item.
* `reportRepeats_eq_nil`, `reportTaken_eq_nil`: nothing is reported when nothing repeats.
-/

namespace Cryptbox.Base

universe u v w

variable {α : Type u} {κ : Type v} {β : Type w} [DecidableEq κ]

/-- Reports each item whose key an earlier one has, with the first that has it. -/
def reportRepeats (key : α → κ) (report : α → α → β) : List α → List α → List β
  | _, [] => []
  | seen, a :: rest =>
    match seen.find? fun earlier => key earlier = key a with
    | some first => report first a :: reportRepeats key report seen rest
    | none => reportRepeats key report (seen ++ [a]) rest

/-- Reports each item whose key is taken, and takes it. -/
def reportTaken (key : α → κ) (report : α → β) : List κ → List α → List β
  | _, [] => []
  | taken, a :: rest =>
    (if key a ∈ taken then [report a] else []) ++ reportTaken key report (taken ++ [key a]) rest

variable {key : α → κ}

/-- What was seen answers for all that came before. -/
theorem reportRepeats_of_seen {report : α → α → β} {seen before : List α} (items : List α)
    (hSeen : ∀ k, (seen.find? fun a => key a = k) = before.find? fun a => key a = k) :
    reportRepeats key report seen items = items.zipIdx.filterMap fun entry =>
      ((before ++ items.take entry.2).find? fun a => key a = key entry.1).map
        fun first => report first entry.1 := by
  induction items generalizing seen before with
  | nil => rfl
  | cons a rest ih =>
    have hRest : ((rest.zipIdx 1).filterMap fun entry =>
        ((before ++ (a :: rest).take entry.2).find? fun b => key b = key entry.1).map
          fun first => report first entry.1) =
        rest.zipIdx.filterMap fun entry =>
          (((before ++ [a]) ++ rest.take entry.2).find? fun b => key b = key entry.1).map
            fun first => report first entry.1 := by
      rw [List.zipIdx_succ, List.filterMap_map]
      refine List.filterMap_congr fun entry _ => ?_
      simp
    rw [reportRepeats, List.zipIdx_cons, List.filterMap_cons, hRest]
    simp only [List.take_zero, List.append_nil, ← hSeen (key a)]
    cases hFind : seen.find? fun earlier => key earlier = key a with
    | some first =>
      refine congrArg (report first a :: ·) (ih fun k => ?_)
      rw [List.find?_append, ← hSeen k]
      by_cases hKey : key a = k
      · subst hKey
        rw [hFind, Option.some_or]
      · rw [List.find?_cons_of_neg (by simpa using hKey), List.find?_nil, Option.or_none]
    | none =>
      refine ih fun k => ?_
      rw [List.find?_append, List.find?_append, hSeen k]

/-- **What is reported**: each item that repeats a key, once, with the first item of that key. -/
theorem reportRepeats_eq (report : α → α → β) (items : List α) :
    reportRepeats key report [] items = items.zipIdx.filterMap fun entry =>
      ((items.take entry.2).find? fun a => key a = key entry.1).map
        fun first => report first entry.1 :=
  reportRepeats_of_seen items fun _ => rfl

/-- **What is reported**: each item whose key was taken at the start or is that of an earlier
item. -/
theorem reportTaken_eq (report : α → β) (taken : List κ) (items : List α) :
    reportTaken key report taken items = items.zipIdx.filterMap fun entry =>
      if key entry.1 ∈ taken ++ (items.take entry.2).map key then some (report entry.1) else none := by
  induction items generalizing taken with
  | nil => rfl
  | cons a rest ih =>
    rw [reportTaken, ih, List.zipIdx_cons, List.filterMap_cons, List.zipIdx_succ,
      List.filterMap_map]
    have hRest : (rest.zipIdx.filterMap fun entry =>
        if key entry.1 ∈ taken ++ [key a] ++ (rest.take entry.2).map key then some (report entry.1)
          else none) =
        rest.zipIdx.filterMap ((fun entry =>
          if key entry.1 ∈ taken ++ ((a :: rest).take entry.2).map key then some (report entry.1)
            else none) ∘ fun entry => (entry.1, entry.2 + 1)) := by
      refine List.filterMap_congr fun entry _ => ?_
      simp
    rw [hRest]
    simp only [List.take_zero, List.map_nil, List.append_nil]
    split <;> rfl

omit [DecidableEq κ] in
/-- No item has the key of an earlier one. -/
theorem nodup_map_iff_take {items : List α} : (items.map key).Nodup ↔
    ∀ entry ∈ items.zipIdx, key entry.1 ∉ (items.take entry.2).map key := by
  rw [List.nodup_iff_getElem?_ne_getElem?]
  constructor
  · rintro hNodup ⟨a, j⟩ hEntry hMem
    have ha : items[j]? = some a := List.mem_zipIdx_iff_getElem?.mp hEntry
    obtain ⟨b, hb, hKey⟩ := List.mem_map.mp hMem
    obtain ⟨i, hi⟩ := List.mem_iff_getElem?.mp hb
    rw [List.getElem?_take] at hi
    split at hi
    · next hLt =>
      obtain ⟨hj, -⟩ := List.getElem?_eq_some_iff.mp ha
      refine hNodup i j hLt (by rwa [List.length_map]) ?_
      rw [List.getElem?_map, List.getElem?_map, ha, hi, Option.map_some, Option.map_some, hKey]
    · cases hi
  · intro hTake i j hLt hj hSame
    rw [List.length_map] at hj
    have ha : items[j]? = some items[j] := List.getElem?_eq_getElem hj
    have hb : items[i]? = some items[i] := List.getElem?_eq_getElem (Nat.lt_trans hLt hj)
    rw [List.getElem?_map, List.getElem?_map, ha, hb, Option.map_some, Option.map_some,
      Option.some_inj] at hSame
    refine hTake (items[j], j) (List.mem_zipIdx_iff_getElem?.mpr ha) ?_
    refine List.mem_map.mpr ⟨items[i], List.mem_iff_getElem?.mpr ⟨i, ?_⟩, hSame⟩
    rw [List.getElem?_take, if_pos hLt, hb]

/-- **Nothing is reported** when the keys are distinct. -/
theorem reportRepeats_eq_nil {report : α → α → β} {items : List α} :
    reportRepeats key report [] items = [] ↔ (items.map key).Nodup := by
  rw [reportRepeats_eq, List.filterMap_eq_nil_iff, nodup_map_iff_take]
  refine forall₂_congr fun entry _ => ?_
  rw [Option.map_eq_none_iff, List.find?_eq_none, List.mem_map]
  simp

/-- **Nothing is reported** when the keys are distinct and were not taken. -/
theorem reportTaken_eq_nil {report : α → β} {taken : List κ} {items : List α} :
    reportTaken key report taken items = [] ↔
      (items.map key).Nodup ∧ ∀ a ∈ items, key a ∉ taken := by
  rw [reportTaken_eq, List.filterMap_eq_nil_iff, nodup_map_iff_take]
  have hItems : (∀ a ∈ items, key a ∉ taken) ↔ ∀ entry ∈ items.zipIdx, key entry.1 ∉ taken := by
    rw [← List.forall_mem_map (f := Prod.fst) (P := fun a => key a ∉ taken), List.zipIdx_map_fst]
  rw [hItems, ← forall₂_and]
  refine forall₂_congr fun entry _ => ?_
  rw [ite_eq_right_iff, List.mem_append, and_comm, ← not_or]
  simp

end Cryptbox.Base

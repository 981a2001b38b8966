import Mathlib.Data.List.Perm.Basic
import Cryptbox.Key

/-!
# Building a keyring

`Ring::new` of `key/keyring.rs` inserts the previous keys one after the other and stops at an
ID that is taken. `Ring.Holds` is the invariant of its loop: the ring finds exactly the keys
it was given so far, no two of them under one ID.

* `Ring.insertPrevious_cases`: one key.
* `Ring.foldlM_cases`: the loop, up to the first repeated ID.
* `Ring.new_exact`: the ring, what it finds and what it lists.
-/

namespace Cryptbox

open Base

variable {tag : IdTag}

namespace Ring

/-- A ring of the keys `supplied`. -/
structure Holds (ring : Ring tag) (supplied : List (KeyMaterial tag)) : Prop where
  nodup : (supplied.map KeyMaterial.id).Nodup
  get : ∀ key, ring.get key.id = some key ↔ key ∈ supplied

theorem Holds.get_isSome {ring : Ring tag} {supplied : List (KeyMaterial tag)}
    (h : ring.Holds supplied) (id : Identifier tag) :
    (ring.get id).isSome ↔ id ∈ supplied.map KeyMaterial.id := by
  rw [Option.isSome_iff_exists, List.mem_map]
  constructor
  · intro hSome
    obtain ⟨key, hKey⟩ := hSome
    obtain rfl := get_id hKey
    exact ⟨key, (h.get key).mp hKey, rfl⟩
  · intro hMem
    obtain ⟨key, hKey, rfl⟩ := hMem
    exact ⟨key, (h.get key).mpr hKey⟩

theorem single_holds (current : KeyMaterial tag) : (single current).Holds [current] where
  nodup := List.nodup_singleton _
  get := by
    intro key
    rw [get_single, List.mem_singleton]
    constructor
    · intro h
      split at h
      · exact (Option.some.inj h).symm
      · cases h
    · intro h
      rw [h, if_pos rfl]

variable {duplicate : Identifier tag → Error}

/-- **Inserting a previous key** fails exactly when its ID is taken. -/
theorem insertPrevious_cases (duplicate : Identifier tag → Error) {ring : Ring tag}
    {supplied : List (KeyMaterial tag)}
    (h : ring.Holds supplied) (key : KeyMaterial tag) :
    (key.id ∈ supplied.map KeyMaterial.id ∧
      insertPrevious duplicate ring key = err (duplicate key.id)) ∨
    (key.id ∉ supplied.map KeyMaterial.id ∧ ∃ ring', insertPrevious duplicate ring key = .ok ring' ∧
      ring'.current = ring.current ∧ ring'.Holds (supplied ++ [key])) := by
  by_cases hTaken : key.id ∈ supplied.map KeyMaterial.id
  · exact Or.inl ⟨hTaken, dif_pos ((h.get_isSome key.id).mpr hTaken)⟩
  · have hFree : ¬ (ring.get key.id).isSome := fun hSome => hTaken ((h.get_isSome key.id).mp hSome)
    refine Or.inr ⟨hTaken, _, dif_neg hFree, rfl, ?_, ?_⟩
    · rw [List.map_append, List.map_singleton, List.nodup_append]
      refine ⟨h.nodup, List.nodup_singleton _, ?_⟩
      intro id hId id' hId' hSame
      rw [hSame, List.mem_singleton.mp hId'] at hId
      exact hTaken hId
    · intro other
      show (ring.keys.insert key.id key)[other.id]? = some other ↔ _
      rw [Std.TreeMap.getElem?_insert, List.mem_append, List.mem_singleton]
      split
      · next hId =>
        have hId : key.id = other.id := Std.LawfulEqOrd.eq_of_compare hId
        have hAbsent : other ∉ supplied := fun hMem =>
          hTaken (hId ▸ List.mem_map_of_mem hMem)
        rw [or_iff_right hAbsent, Option.some_inj]
        exact eq_comm
      · next hId =>
        have hOther : other ≠ key := by
          intro hSame
          rw [hSame] at hId
          exact hId Std.ReflOrd.compare_self
        rw [or_iff_left hOther]
        exact h.get other

/-- **The loop** inserts every key, or stops at the first one whose ID occurred before. -/
theorem foldlM_cases (duplicate : Identifier tag → Error) {ring : Ring tag}
    {supplied : List (KeyMaterial tag)}
    (h : ring.Holds supplied) (previous : List (KeyMaterial tag)) :
    (∃ ring', previous.foldlM (insertPrevious duplicate) ring = .ok ring' ∧
      ring'.current = ring.current ∧ ring'.Holds (supplied ++ previous)) ∨
    ∃ before key after, previous = before ++ key :: after ∧
      ((supplied ++ before).map KeyMaterial.id).Nodup ∧
      key.id ∈ (supplied ++ before).map KeyMaterial.id ∧
      previous.foldlM (insertPrevious duplicate) ring = err (duplicate key.id) := by
  induction previous generalizing ring supplied with
  | nil =>
    refine Or.inl ⟨ring, rfl, rfl, ?_⟩
    rw [List.append_nil]
    exact h
  | cons key previous ih =>
    rw [List.foldlM_cons]
    rcases insertPrevious_cases duplicate h key with ⟨hTaken, hErr⟩ |
      ⟨-, ring', hOk, hCurrent, hHolds⟩
    · refine Or.inr ⟨[], key, previous, rfl, ?_⟩
      rw [List.append_nil, hErr, error_bind]
      exact ⟨h.nodup, hTaken, rfl⟩
    · rw [hOk, ok_bind]
      rcases ih hHolds with ⟨last, hLast, hSame, hAll⟩ | ⟨before, other, after, rfl, h⟩
      · rw [List.append_assoc, List.singleton_append] at hAll
        exact Or.inl ⟨last, hLast, hSame.trans hCurrent, hAll⟩
      · rw [List.append_assoc, List.singleton_append] at h
        exact Or.inr ⟨key :: before, other, after, rfl, h⟩

theorem not_nodup_of_mem {supplied before after : List (KeyMaterial tag)} {key : KeyMaterial tag}
    (h : key.id ∈ (supplied ++ before).map KeyMaterial.id) :
    ¬ ((supplied ++ (before ++ key :: after)).map KeyMaterial.id).Nodup := by
  intro hNodup
  rw [← List.append_assoc, List.map_append, List.nodup_append] at hNodup
  exact hNodup.2.2 key.id h key.id List.mem_cons_self rfl

/-- The error names the first key whose ID occurred before, wherever that is. -/
theorem foldlM_eq_error {ring : Ring tag} {supplied : List (KeyMaterial tag)}
    (h : ring.Holds supplied) {previous : List (KeyMaterial tag)} {f : Failure} :
    previous.foldlM (insertPrevious duplicate) ring = .error f ↔
      ∃ before key after, previous = before ++ key :: after ∧
        ((supplied ++ before).map KeyMaterial.id).Nodup ∧
        key.id ∈ (supplied ++ before).map KeyMaterial.id ∧ f = .err (duplicate key.id) := by
  constructor
  · intro hError
    rcases foldlM_cases duplicate h previous with ⟨ring', hOk, -⟩ |
      ⟨before, key, after, hSplit, hNodup, hMem, hErr⟩
    · cases hOk.symm.trans hError
    · exact ⟨before, key, after, hSplit, hNodup, hMem, Except.error.inj (hError.symm.trans hErr)⟩
  · intro hSplit
    obtain ⟨before, key, after, rfl, hNodup, hMem, rfl⟩ := hSplit
    rcases foldlM_cases duplicate h before with ⟨ring', hOk, -, hHolds⟩ |
      ⟨before', other, after', rfl, -, hMem', -⟩
    · rw [List.foldlM_append, hOk, ok_bind, List.foldlM_cons]
      rcases insertPrevious_cases duplicate hHolds key with ⟨-, hErr⟩ | ⟨hFree, -⟩
      · rw [hErr, error_bind]
      · exact absurd hMem hFree
    · exact absurd hNodup (not_nodup_of_mem hMem')

/-! ## What a ring lists -/

theorem nodup_readable (ring : Ring tag) : (ring.readable.map KeyMaterial.id).Nodup := by
  have hKeys : (ring.keys.toList.map Prod.snd).map KeyMaterial.id = ring.keys.keys := by
    rw [← Std.TreeMap.map_fst_toList_eq_keys, List.map_map]
    apply List.map_congr_left
    intro filed hFiled
    exact ring.ids filed.1 filed.2 (Std.TreeMap.mem_toList_iff_getElem?_eq_some.mp hFiled)
  unfold readable
  rw [List.map_cons, List.nodup_cons]
  constructor
  · intro hMem
    obtain ⟨key, hKey, hId⟩ := List.mem_map.mp hMem
    exact of_decide_eq_true (List.mem_filter.mp hKey).2 hId
  · have hNodup : ((ring.keys.toList.map Prod.snd).map KeyMaterial.id).Nodup := by
      rw [hKeys]
      exact Std.TreeMap.nodup_keys
    exact hNodup.sublist (List.Sublist.map _ List.filter_sublist)

theorem Holds.readable_perm {ring : Ring tag} {supplied : List (KeyMaterial tag)}
    (h : ring.Holds supplied) : ring.readable.Perm supplied := by
  refine (List.perm_ext_iff_of_nodup (ring.nodup_readable.of_map _) (h.nodup.of_map _)).mpr ?_
  intro key
  rw [mem_readable, h.get]

/-! ## The constructor -/

theorem new_cases (duplicate : Identifier tag → Error) (current : KeyMaterial tag)
    (previous : List (KeyMaterial tag)) :
    (∃ ring, Ring.new duplicate current previous = .ok ring ∧ ring.current = current ∧
      ring.Holds (current :: previous)) ∨
    (∃ f, Ring.new duplicate current previous = .error f) ∧
      ¬ ((current :: previous).map KeyMaterial.id).Nodup := by
  rcases foldlM_cases duplicate (single_holds current) previous with h |
    ⟨before, key, after, rfl, -, hMem, hErr⟩
  · exact Or.inl h
  · exact Or.inr ⟨⟨_, hErr⟩, not_nodup_of_mem hMem⟩

theorem new_eq_ok {current : KeyMaterial tag} {previous : List (KeyMaterial tag)} {ring : Ring tag}
    (h : Ring.new duplicate current previous = .ok ring) :
    ring.current = current ∧ ring.Holds (current :: previous) := by
  rcases new_cases duplicate current previous with ⟨ring', hOk, hRing⟩ | ⟨⟨f, hErr⟩, -⟩
  · rw [hOk] at h
    cases h
    exact hRing
  · cases h.symm.trans hErr

/-- **What a keyring is**, built from a current key and the previous ones. -/
structure Exact (duplicate : Identifier tag → Error) (current : KeyMaterial tag)
    (previous : List (KeyMaterial tag)) : Prop where
  isError : (∃ f, Ring.new duplicate current previous = .error f) ↔
    ¬ ((current :: previous).map KeyMaterial.id).Nodup
  /-- The error names the first previous key whose ID occurred before it. -/
  error : ∀ f, Ring.new duplicate current previous = .error f ↔
    ∃ before key after, previous = before ++ key :: after ∧
      ((current :: before).map KeyMaterial.id).Nodup ∧
      key.id ∈ (current :: before).map KeyMaterial.id ∧ f = .err (duplicate key.id)
  get : ∀ ring, Ring.new duplicate current previous = .ok ring →
    ∀ key ∈ current :: previous, ring.get key.id = some key
  getNone : ∀ ring, Ring.new duplicate current previous = .ok ring →
    ∀ id ∉ (current :: previous).map KeyMaterial.id, ring.get id = none
  isCurrent : ∀ ring, Ring.new duplicate current previous = .ok ring →
    ring.current = current ∧ ring.get current.id = some current
  /-- The current key comes first, then every previous key once. -/
  readable : ∀ ring, Ring.new duplicate current previous = .ok ring →
    ∃ rest, ring.readable = current :: rest ∧ rest.Perm previous
  /-- The previous keys may come in any order. -/
  reorder : ∀ previous', previous.Perm previous' → ∀ ring,
    Ring.new duplicate current previous = .ok ring →
    ∃ ring', Ring.new duplicate current previous' = .ok ring' ∧
      ∀ id, id ∈ ring'.readable.map KeyMaterial.id ↔ id ∈ ring.readable.map KeyMaterial.id

theorem new_exact (duplicate : Identifier tag → Error) (current : KeyMaterial tag)
    (previous : List (KeyMaterial tag)) : Exact duplicate current previous where
  isError := by
    rcases new_cases duplicate current previous with ⟨ring, hOk, -, hHolds⟩ | ⟨hErr, hRepeat⟩
    · constructor
      · intro h
        obtain ⟨f, hErr⟩ := h
        cases hOk.symm.trans hErr
      · intro h
        exact absurd hHolds.nodup h
    · exact iff_of_true hErr hRepeat
  error := fun f => foldlM_eq_error (single_holds current)
  get := fun ring hOk key hKey => ((new_eq_ok hOk).2.get key).mpr hKey
  getNone := by
    intro ring hOk id hAbsent
    have hNone := mt ((new_eq_ok hOk).2.get_isSome id).mp hAbsent
    exact Option.not_isSome_iff_eq_none.mp hNone
  isCurrent := by
    intro ring hOk
    obtain rfl := (new_eq_ok hOk).1
    exact ⟨rfl, ring.get_current⟩
  readable := by
    intro ring hOk
    obtain ⟨rfl, hHolds⟩ := new_eq_ok hOk
    exact ⟨_, rfl, hHolds.readable_perm.cons_inv⟩
  reorder := by
    intro previous' hPerm ring hOk
    obtain ⟨-, hHolds⟩ := new_eq_ok hOk
    rcases new_cases duplicate current previous' with ⟨ring', hOk', -, hHolds'⟩ | ⟨-, hRepeat⟩
    · refine ⟨ring', hOk', fun id => ?_⟩
      have hSame : ring'.readable.Perm ring.readable := hHolds'.readable_perm.trans
        ((hPerm.symm.cons current).trans hHolds.readable_perm.symm)
      exact (hSame.map KeyMaterial.id).mem_iff
    · have hNodup := (((hPerm.cons current).map KeyMaterial.id).nodup_iff).mp hHolds.nodup
      exact absurd hNodup hRepeat

end Ring

end Cryptbox

import Mathlib.Data.List.Sort
import Mathlib.Order.Basic
import Cryptbox.Base.Except
import Cryptbox.Base.Rewriting

/-!
# Reading a keyed store in pages

A page is the first entries strictly after a key, in the order of the keys. Reading page
after page, each strictly after the last key of the one before, visits every entry of a
store that does not change, and `Covers` is what is known of one that does.

* `Page.covers`: what a page leaves out lies beyond its last key; an empty page leaves
  nothing out.
* `Covers.skip`: an entry that was read may be skipped once it is good or no longer there.
* `Enumerates.page_append`: the pages of a store that does not change are consecutive
  pieces of its list of entries.
* `Enumerates.modify`: changing the entry of a key changes one entry of the list.
* `Between.append`: what was read since the start grows by a page; `Between.remaining_eq` says
  what it is when nothing is left.
-/

namespace Cryptbox.Base

universe u v

variable {K : Type u} {V : Type v} [LinearOrder K]

/-- `x` lies strictly after `after`, or `after` is the start. -/
def After (after : Option K) (x : K) : Prop := ∀ c ∈ after, c < x

instance (after : Option K) (x : K) : Decidable (After after x) :=
  match after with
  | none => isTrue fun _ h => nomatch h
  | some c => decidable_of_iff (c < x) (by simp [After])

@[simp] theorem after_none (x : K) : After none x := fun _ h => nomatch h

@[simp] theorem after_some {c x : K} : After (some c) x ↔ c < x := by
  simp [After]

/-- The keys in the order of the entries, without repetition. -/
abbrev Ascending (entries : List (K × V)) : Prop := entries.Pairwise fun a b => a.1 < b.1

/-- `entries` are the first `limit` entries of `table` strictly after `after`. -/
structure Page (table : K → Option V) (after : Option K) (limit : Nat)
    (entries : List (K × V)) : Prop where
  length_le : entries.length ≤ limit
  ascending : Ascending entries
  stored : ∀ e ∈ entries, table e.1 = some e.2 ∧ After after e.1
  first : ∀ x v, table x = some v → After after x →
    (x, v) ∈ entries ∨ (entries.length = limit ∧ ∀ e ∈ entries, e.1 < x)

/-- `x` is not beyond the last of `entries`; nothing is beyond the last of none. -/
def Reached (entries : List (K × V)) (x : K) : Prop := ∀ e ∈ entries.getLast?, x ≤ e.1

namespace Page

variable {table : K → Option V} {after : Option K} {limit : Nat} {entries : List (K × V)}

/-- **A page leaves out only what lies beyond its last key.** -/
theorem mem (h : Page table after limit entries) (hLimit : 0 < limit) {x : K} {v : V}
    (hStored : table x = some v) (hAfter : After after x) (hReached : Reached entries x) :
    (x, v) ∈ entries := by
  rcases h.first x v hStored hAfter with hMem | ⟨hFull, hBefore⟩
  · exact hMem
  · obtain ⟨last, hLast⟩ : ∃ last, entries.getLast? = some last := by
      apply Option.isSome_iff_exists.mp
      rw [List.getLast?_isSome]
      rintro rfl
      exact absurd hFull hLimit.ne
    exact absurd (hReached last hLast) (not_le.mpr (hBefore last (List.mem_of_getLast? hLast)))

/-- A page depends on the entries after its key only. -/
theorem congr {table' : K → Option V} (h : Page table after limit entries)
    (hSame : ∀ x, After after x → table' x = table x) : Page table' after limit entries := by
  refine ⟨h.length_le, h.ascending, fun e he => ?_, fun x v hStored hAfter => ?_⟩
  · obtain ⟨hStored, hAfter⟩ := h.stored e he
    exact ⟨(hSame e.1 hAfter).trans hStored, hAfter⟩
  · exact h.first x v ((hSame x hAfter).symm.trans hStored) hAfter

/-- A store with the same keys has its page at the same keys. -/
theorem of_keys {table' : K → Option V} (h : Page table after limit entries)
    (hKeys : ∀ x, table' x = none ↔ table x = none) :
    Page table' after limit (entries.map fun e => (e.1, (table' e.1).getD e.2)) := by
  refine ⟨by rw [List.length_map]; exact h.length_le, List.pairwise_map.mpr h.ascending,
    fun e' he' => ?_, fun x v hStored hAfter => ?_⟩
  · obtain ⟨e, he, rfl⟩ := List.mem_map.mp he'
    obtain ⟨hStored, hAfter⟩ := h.stored e he
    refine ⟨?_, hAfter⟩
    cases hNew : table' e.1 with
    | none => cases hStored.symm.trans ((hKeys e.1).mp hNew)
    | some v => rfl
  · cases hOld : table x with
    | none => cases hStored.symm.trans ((hKeys x).mpr hOld)
    | some w =>
      rcases h.first x w hOld hAfter with hMem | ⟨hFull, hBefore⟩
      · exact Or.inl (List.mem_map.mpr ⟨(x, w), hMem, by simp [hStored]⟩)
      · refine Or.inr ⟨by rw [List.length_map]; exact hFull, fun e' he' => ?_⟩
        obtain ⟨e, he, rfl⟩ := List.mem_map.mp he'
        exact hBefore e he

/-- When a part of each value on a page is known, the page is one of the parts. -/
theorem bind {W : Type v} {part : V → Option W} {parts : List (K × W)}
    (h : Page table after limit entries)
    (hParts : List.Forall₂ (fun e e' => e.1 = e'.1 ∧ part e.2 = some e'.2) entries parts) :
    Page (fun x => (table x).bind part) after limit parts := by
  have hLength : entries.length = parts.length := hParts.length_eq
  have hKeys : entries.map Prod.fst = parts.map Prod.fst := by
    rw [← List.forall₂_eq_eq_eq, List.forall₂_map_left_iff, List.forall₂_map_right_iff]
    exact hParts.imp fun _ _ hPart => hPart.1
  refine ⟨hLength ▸ h.length_le, ?_, fun e' he' => ?_, fun x w hStored hAfter => ?_⟩
  · rw [Ascending, ← List.pairwise_map (f := Prod.fst) (R := (· < ·)), ← hKeys, List.pairwise_map]
    exact h.ascending
  · obtain ⟨e, he, hKey, hPart⟩ := forall₂_exists hParts.flip he'
    obtain ⟨hStored, hAfter⟩ := h.stored e he
    refine ⟨?_, hKey ▸ hAfter⟩
    rw [← hKey, hStored]
    exact hPart
  · obtain ⟨v, hValue, hPart⟩ := Option.bind_eq_some_iff.mp hStored
    rcases h.first x v hValue hAfter with hMem | ⟨hFull, hBefore⟩
    · obtain ⟨e', he', hKey, hPart'⟩ := forall₂_exists hParts hMem
      have hEntry : (x, w) = e' := Prod.ext hKey (Option.some.inj (hPart.symm.trans hPart'))
      exact Or.inl (hEntry ▸ he')
    · refine Or.inr ⟨hLength ▸ hFull, fun e' he' => ?_⟩
      obtain ⟨e, he, hKey, -⟩ := forall₂_exists hParts.flip he'
      exact hKey ▸ hBefore e he

end Page

/-! ## What is known while the store changes -/

/-- Every key of `region` is clean, or its entry is still one of those `pending`. -/
def Covers (Good : K → V → Prop) (table : K → Option V) (region : K → Prop)
    (pending : List (K × V)) : Prop :=
  ∀ x, region x → Clean Good table x ∨ ∃ v, (x, v) ∈ pending ∧ table x = some v

variable {Good : K → V → Prop} {table table' : K → Option V} {region : K → Prop}
  {pending : List (K × V)}

theorem Page.covers {after : Option K} {limit : Nat} {entries : List (K × V)}
    (h : Page table after limit entries) (hLimit : 0 < limit)
    (hBefore : ∀ x, ¬ After after x → Clean Good table x) :
    Covers Good table (Reached entries) entries := by
  intro x hReached
  by_cases hAfter : After after x
  · cases hStored : table x with
    | none => exact Or.inl fun v hv => by rw [hStored] at hv; cases hv
    | some v => exact Or.inr ⟨v, h.mem hLimit hStored hAfter hReached, rfl⟩
  · exact Or.inl (hBefore x hAfter)

namespace Covers

omit [LinearOrder K] in
theorem mono (h : Covers Good table region pending) (hImproves : Improves Good table table') :
    Covers Good table' region pending := by
  intro x hx
  rcases h x hx with hClean | ⟨v, hMem, hStored⟩
  · exact Or.inl (hImproves.clean hClean)
  · rcases hImproves x with hSame | hClean
    · exact Or.inr ⟨v, hMem, hSame.trans hStored⟩
    · exact Or.inl hClean

omit [LinearOrder K] in
/-- The first entry pending may be skipped when it is no longer stored or good. -/
theorem skip {x : K} {v : V} {rest : List (K × V)}
    (h : Covers Good table region ((x, v) :: rest)) (hSkip : table x = some v → Good x v) :
    Covers Good table region rest := by
  intro y hy
  rcases h y hy with hClean | ⟨w, hMem, hStored⟩
  · exact Or.inl hClean
  · rcases List.mem_cons.mp hMem with hHead | hMem
    · cases hHead
      apply Or.inl
      intro w' hw'
      rw [hStored] at hw'
      exact Option.some.inj hw' ▸ hSkip hStored
    · exact Or.inr ⟨w, hMem, hStored⟩

omit [LinearOrder K] in
theorem clean (h : Covers Good table region []) {x : K} (hx : region x) : Clean Good table x := by
  rcases h x hx with hClean | ⟨_, hMem, -⟩
  · exact hClean
  · cases hMem

end Covers

/-! ## A store that does not change -/

/-- `entries` lists the entries of `table` in the order of their keys. -/
structure Enumerates (table : K → Option V) (entries : List (K × V)) : Prop where
  ascending : Ascending entries
  mem_iff : ∀ e, e ∈ entries ↔ table e.1 = some e.2

/-- The entries after a key. -/
def remaining (entries : List (K × V)) (after : Option K) : List (K × V) :=
  entries.filter fun e => decide (After after e.1)

@[simp] theorem remaining_none (entries : List (K × V)) : remaining entries none = entries := by
  simp [remaining]

theorem Ascending.nodup {entries : List (K × V)} (h : Ascending entries) : entries.Nodup :=
  h.imp fun hlt heq => absurd (heq ▸ hlt) (lt_irrefl _)

theorem Ascending.ext {a b : List (K × V)} (ha : Ascending a) (hb : Ascending b)
    (h : ∀ e, e ∈ a ↔ e ∈ b) : a = b :=
  ((List.perm_ext_iff_of_nodup ha.nodup hb.nodup).mpr h).eq_of_pairwise
    (fun _ _ _ _ hab hba => absurd hab (lt_asymm hba)) ha hb

/-- The last of ascending entries has the greatest key. -/
theorem Ascending.le_last {entries : List (K × V)} {last : K × V} (h : Ascending entries)
    (hLast : entries.getLast? = some last) : ∀ e ∈ entries, e.1 ≤ last.1 := by
  obtain ⟨front, rfl⟩ := List.getLast?_eq_some_iff.mp hLast
  intro e he
  rcases List.mem_append.mp he with hFront | hEq
  · exact le_of_lt ((List.pairwise_append.mp h).2.2 e hFront last List.mem_cons_self)
  · rw [List.mem_singleton.mp hEq]

/-- The store that holds `entries`. -/
def tableOf (entries : List (K × V)) (x : K) : Option V :=
  (entries.find? fun e => decide (e.1 = x)).map Prod.snd

theorem tableOf_cons (e : K × V) (entries : List (K × V)) :
    tableOf (e :: entries) = Function.update (tableOf entries) e.1 (some e.2) := by
  funext x
  rw [Function.update_apply]
  unfold tableOf
  split
  · next hx => simp [hx]
  · next hx => simp [Ne.symm hx]

/-- A key stands in one of ascending entries only. -/
theorem Ascending.eq_of_key {entries : List (K × V)} (h : Ascending entries) {a b : K × V}
    (ha : a ∈ entries) (hb : b ∈ entries) (hKey : a.1 = b.1) : a = b := by
  have hOne : entries.Pairwise fun a b => a.1 = b.1 → a = b :=
    h.imp fun hlt hEq => absurd hEq hlt.ne
  have hFlip : entries.Pairwise fun a b => b.1 = a.1 → b = a :=
    h.imp fun hlt hEq => absurd hEq hlt.ne'
  exact List.Pairwise.forall_of_forall_of_flip (fun _ _ _ => rfl) hOne hFlip ha hb hKey

theorem Ascending.enumerates {entries : List (K × V)} (h : Ascending entries) :
    Enumerates (tableOf entries) entries := by
  refine ⟨h, fun e => ?_⟩
  unfold tableOf
  rw [Option.map_eq_some_iff]
  constructor
  · intro he
    cases hFind : entries.find? fun e' => decide (e'.1 = e.1) with
    | none => exact absurd (decide_eq_true rfl) (List.find?_eq_none.mp hFind e he)
    | some e' =>
      have hFound := List.find?_some hFind
      have hKey : e'.1 = e.1 := of_decide_eq_true hFound
      rw [h.eq_of_key (List.mem_of_find?_eq_some hFind) he hKey]
      exact ⟨e, rfl, rfl⟩
  · rintro ⟨e', hFind, hValue⟩
    have hFound := List.find?_some hFind
    have hKey : e'.1 = e.1 := of_decide_eq_true hFound
    rw [← Prod.ext hKey hValue]
    exact List.mem_of_find?_eq_some hFind

namespace Enumerates

variable {all entries : List (K × V)} {after : Option K} {limit : Nat}

theorem mem_remaining (h : Enumerates table all) {e : K × V} :
    e ∈ remaining all after ↔ table e.1 = some e.2 ∧ After after e.1 := by
  rw [remaining, List.mem_filter, h.mem_iff, decide_eq_true_eq]

/-- Nothing remains after an empty page. -/
theorem page_nil (h : Enumerates table all) (hPage : Page table after limit [])
    (hLimit : 0 < limit) : remaining all after = [] := by
  apply List.eq_nil_iff_forall_not_mem.mpr
  intro e he
  obtain ⟨hStored, hAfter⟩ := h.mem_remaining.mp he
  cases hPage.mem hLimit hStored hAfter (fun _ hLast => nomatch hLast)

/-- **A page is the next piece of the entries.** -/
theorem page_append (h : Enumerates table all) (hPage : Page table after limit entries)
    {last : K × V} (hLimit : 0 < limit) (hLast : entries.getLast? = some last) :
    remaining all after = entries ++ remaining all (some last.1) := by
  have hLe := hPage.ascending.le_last hLast
  have hAfterLast : After after last.1 := (hPage.stored last (List.mem_of_getLast? hLast)).2
  refine Ascending.ext (h.ascending.filter _) ?_ fun e => ?_
  · refine List.pairwise_append.mpr ⟨hPage.ascending, h.ascending.filter _, fun a ha b hb => ?_⟩
    exact lt_of_le_of_lt (hLe a ha) (after_some.mp (h.mem_remaining.mp hb).2)
  · rw [List.mem_append, h.mem_remaining, h.mem_remaining, after_some]
    constructor
    · rintro ⟨hStored, hAfter⟩
      rcases le_or_gt e.1 last.1 with hBefore | hBeyond
      · refine Or.inl (hPage.mem hLimit hStored hAfter fun e' he' => ?_)
        cases hLast.symm.trans he'
        exact hBefore
      · exact Or.inr ⟨hStored, hBeyond⟩
    · rintro (hMem | ⟨hStored, hBeyond⟩)
      · exact hPage.stored e hMem
      · exact ⟨hStored, fun c hc => lt_trans (hAfterLast c hc) hBeyond⟩

/-- The next piece of the entries is a page. -/
theorem page_take (h : Enumerates table all) (after : Option K) (limit : Nat) :
    Page table after limit ((remaining all after).take limit) := by
  have hAscending : Ascending (remaining all after) := h.ascending.filter _
  refine ⟨List.length_take_le .., hAscending.sublist (List.take_sublist ..), fun e he => ?_,
    fun x v hStored hAfter => ?_⟩
  · exact h.mem_remaining.mp (List.mem_of_mem_take he)
  · have hMem : (x, v) ∈ remaining all after := h.mem_remaining.mpr ⟨hStored, hAfter⟩
    rw [← List.take_append_drop limit (remaining all after)] at hMem hAscending
    rcases List.mem_append.mp hMem with hTake | hDrop
    · exact Or.inl hTake
    · refine Or.inr ⟨?_, fun e he => (List.pairwise_append.mp hAscending).2.2 e he _ hDrop⟩
      have hPos : 0 < ((remaining all after).drop limit).length := List.length_pos_of_mem hDrop
      rw [List.length_drop] at hPos
      rw [List.length_take]
      omega

/-- Entries belong to one store. -/
theorem unique {table' : K → Option V} (h : Enumerates table all) (h' : Enumerates table' all) :
    table = table' := by
  funext x
  apply Option.ext
  intro v
  rw [← h.mem_iff (x, v), ← h'.mem_iff (x, v)]

/-- Changing the entry of a key changes one entry of the list. -/
theorem modify (h : Enumerates table all) {x : K} {v : V} (hStored : table x = some v)
    (f : V → V) :
    Enumerates (Function.update table x (some (f v)))
      (all.map fun e => (e.1, if e.1 = x then f e.2 else e.2)) := by
  refine ⟨List.pairwise_map.mpr h.ascending, fun e => ?_⟩
  obtain ⟨y, w⟩ := e
  simp only [List.mem_map, Function.update_apply, Prod.mk.injEq, Prod.exists]
  constructor
  · rintro ⟨y', w', hMem, rfl, rfl⟩
    have hEntry : table y' = some w' := (h.mem_iff _).mp hMem
    split
    · next hy =>
      subst hy
      cases hStored.symm.trans hEntry
      rfl
    · exact hEntry
  · intro hEntry
    split at hEntry
    · next hy =>
      subst hy
      cases hEntry
      exact ⟨y, v, (h.mem_iff (y, v)).mpr hStored, rfl, if_pos rfl⟩
    · next hy => exact ⟨y, w, (h.mem_iff (y, w)).mpr hEntry, rfl, if_neg hy⟩

/-- A store with the same keys has as many entries. -/
theorem of_keys {table' : K → Option V} (h : Enumerates table all)
    (hKeys : ∀ x, table' x = none ↔ table x = none) :
    ∃ all', Enumerates table' all' ∧ all'.length = all.length := by
  let value (e : K × V) : V := (table' e.1).getD e.2
  have hValue {e : K × V} (he : e ∈ all) : table' e.1 = some (value e) := by
    cases hNew : table' e.1 with
    | none =>
      have hNone := (hKeys e.1).mp hNew
      rw [(h.mem_iff e).mp he] at hNone
      cases hNone
    | some v => simp [value, hNew]
  refine ⟨all.map fun e => (e.1, value e), ⟨List.pairwise_map.mpr h.ascending, ?_⟩,
    List.length_map ..⟩
  rintro ⟨x, v⟩
  simp only [List.mem_map, Prod.mk.injEq]
  constructor
  · rintro ⟨e, he, rfl, rfl⟩
    exact hValue he
  · intro hNew
    cases hOld : table x with
    | none => cases ((hKeys x).mpr hOld).symm.trans hNew
    | some w =>
      have hMem : (x, w) ∈ all := (h.mem_iff (x, w)).mpr hOld
      exact ⟨(x, w), hMem, rfl, Option.some.inj ((hValue hMem).symm.trans hNew)⟩

end Enumerates

/-! ## Reading on -/

theorem After.mono {after : Option K} {x y : K} (h : After after x) (hLe : x ≤ y) :
    After after y :=
  fun c hc => lt_of_lt_of_le (h c hc) hLe

/-- What is not after a key lies before what is. -/
theorem After.lt {after : Option K} {x y : K} (hx : ¬ After after x) (hy : After after y) :
    x < y :=
  lt_of_not_ge fun hLe => hx (hy.mono hLe)

/-- `entries` are the entries of `table` after `start` up to `stop`. -/
structure Between (table : K → Option V) (start stop : Option K) (entries : List (K × V)) :
    Prop where
  ascending : Ascending entries
  mem_iff : ∀ e, e ∈ entries ↔ table e.1 = some e.2 ∧ After start e.1 ∧ ¬ After stop e.1
  le : ∀ x, After stop x → After start x

namespace Between

variable {table : K → Option V} {start stop : Option K} {entries page : List (K × V)} {limit : Nat}

theorem refl (table : K → Option V) (start : Option K) : Between table start start [] := by
  refine ⟨.nil, fun e => ?_, fun x h => h⟩
  simp

/-- **What was read since the start grows by a page.** -/
theorem append (h : Between table start stop entries) (hPage : Page table stop limit page)
    {last : K × V} (hLimit : 0 < limit) (hLast : page.getLast? = some last) :
    Between table start (some last.1) (entries ++ page) := by
  have hLe := hPage.ascending.le_last hLast
  have hStop : After stop last.1 := (hPage.stored last (List.mem_of_getLast? hLast)).2
  refine ⟨List.pairwise_append.mpr ⟨h.ascending, hPage.ascending, fun a ha b hb => ?_⟩,
    fun e => ?_, fun x hx => ?_⟩
  · exact After.lt ((h.mem_iff a).mp ha).2.2 (hPage.stored b hb).2
  · rw [List.mem_append, after_some, not_lt]
    constructor
    · intro he
      rcases he with hOld | hNew
      · obtain ⟨hStored, hStart, hNot⟩ := (h.mem_iff e).mp hOld
        exact ⟨hStored, hStart, (After.lt hNot hStop).le⟩
      · obtain ⟨hStored, hAfter⟩ := hPage.stored e hNew
        exact ⟨hStored, h.le _ hAfter, hLe e hNew⟩
    · intro he
      obtain ⟨hStored, hStart, hUpTo⟩ := he
      by_cases hAfter : After stop e.1
      · refine Or.inr (hPage.mem hLimit hStored hAfter fun e' he' => ?_)
        cases hLast.symm.trans he'
        exact hUpTo
      · exact Or.inl ((h.mem_iff e).mpr ⟨hStored, hStart, hAfter⟩)
  · exact h.le x (hStop.mono (le_of_lt (after_some.mp hx)))

/-- Before an empty page, everything after the start was read. -/
theorem remaining_eq (h : Between table start stop entries) (hPage : Page table stop limit [])
    (hLimit : 0 < limit) {all : List (K × V)} (hAll : Enumerates table all) :
    entries = remaining all start := by
  refine Ascending.ext h.ascending (hAll.ascending.filter _) fun e => ?_
  rw [h.mem_iff, hAll.mem_remaining]
  constructor
  · intro he
    exact ⟨he.1, he.2.1⟩
  · intro he
    refine ⟨he.1, he.2, fun hAfter => ?_⟩
    cases hPage.mem hLimit he.1 hAfter (fun _ hLast => nomatch hLast)

end Between

end Cryptbox.Base

import Cryptbox.Base.Except

/-!
# Heterogeneous rows

A row has one cell for each entry of a list of descriptions, and the description says which
type the cell has. Cells are read by position (`Pos`), so that a fact about a row is a fact
about every position, and a fallible pass over the cells of a row succeeds exactly when it
succeeds at every position (`Cells.mapM_eq_ok`, `Cells.exists_mapM`).
-/

namespace Cryptbox.Base

universe u v w

variable {ι : Type u}

/-- The positions of a list at which `i` stands. -/
inductive Pos (i : ι) : List ι → Type u
  | here {is : List ι} : Pos i (i :: is)
  | there {j : ι} {is : List ι} (p : Pos i is) : Pos i (j :: is)

theorem Pos.mem {i : ι} {is : List ι} (p : Pos i is) : i ∈ is := by
  induction p with
  | here => exact List.mem_cons_self
  | there _ ih => exact List.mem_cons_of_mem _ ih

/-- Where a position stands, counted from the start. -/
def Pos.toNat {i : ι} : {is : List ι} → Pos i is → Nat
  | _, .here => 0
  | _, .there p => p.toNat + 1

/-- One cell for each description. -/
def Cells (cell : ι → Type v) : List ι → Type v
  | [] => PUnit
  | i :: is => cell i × Cells cell is

namespace Cells

variable {A : ι → Type v} {B : ι → Type v}

def get {i : ι} : {is : List ι} → Cells A is → Pos i is → A i
  | _ :: _, row, .here => row.1
  | _ :: _, row, .there p => get row.2 p

/-- The row with another cell at one position. -/
def set {i : ι} : {is : List ι} → Cells A is → Pos i is → A i → Cells A is
  | _ :: _, row, .here, cell => (cell, row.2)
  | _ :: _, row, .there p, cell => (row.1, set row.2 p cell)

/-- The first result of a search along the row. -/
def findSome? {C : Type w} (f : ∀ i, A i → Option C) : {is : List ι} → Cells A is → Option C
  | [], _ => none
  | i :: _, row => (f i row.1).or (findSome? f row.2)

/-- The results along two rows of one description, in order. -/
def flatMap₂ {C : Type w} (f : ∀ i, A i → B i → List C) :
    {is : List ι} → Cells A is → Cells B is → List C
  | [], _, _ => []
  | i :: _, row, other => f i row.1 other.1 ++ flatMap₂ f row.2 other.2

/-- A fallible pass over the cells, in order, that stops at the first error. -/
def mapM {ε : Type w} (f : ∀ i, A i → Except ε (B i)) :
    {is : List ι} → Cells A is → Except ε (Cells B is)
  | [], _ => .ok ⟨⟩
  | i :: _, row => do
    let first ← f i row.1
    let rest ← mapM f row.2
    return (first, rest)

/-! ## By position -/

theorem ext {is : List ι} {a b : Cells A is} (h : ∀ (i : ι) (p : Pos i is), a.get p = b.get p) :
    a = b := by
  induction is with
  | nil => rfl
  | cons i is ih =>
    refine Prod.ext (h i .here) (ih fun j p => ?_)
    exact h j (.there p)

@[simp] theorem get_set_self {i : ι} {is : List ι} (row : Cells A is) (p : Pos i is) (cell : A i) :
    (row.set p cell).get p = cell := by
  induction p with
  | here => rfl
  | there p ih => exact ih row.2

/-- What holds at every position of a row, and of the new cell, holds after setting it. -/
theorem forall_set {is : List ι} {P : ∀ i, Pos i is → A i → Prop} {row : Cells A is} {j : ι}
    {p : Pos j is} {cell : A j} (hRow : ∀ (i : ι) (q : Pos i is), P i q (row.get q))
    (hCell : P j p cell) (i : ι) (q : Pos i is) : P i q ((row.set p cell).get q) := by
  induction p with
  | here =>
    rcases q with _ | q
    · exact hCell
    · exact hRow i (.there q)
  | there p ih =>
    rcases q with _ | q
    · exact hRow i .here
    · exact ih (P := fun i q => P i (.there q)) (fun i q => hRow i (.there q)) hCell q

theorem mapM_eq_ok {ε : Type w} {f : ∀ i, A i → Except ε (B i)} {is : List ι} {a : Cells A is}
    {b : Cells B is} :
    mapM f a = .ok b ↔ ∀ (i : ι) (p : Pos i is), f i (a.get p) = .ok (b.get p) := by
  induction is with
  | nil =>
    refine ⟨fun _ i p => ?_, fun _ => rfl⟩
    cases p
  | cons i is ih =>
    unfold mapM
    constructor
    · intro h
      obtain ⟨first, hFirst, h⟩ := bind_eq_ok.mp h
      obtain ⟨rest, hRest, h⟩ := bind_eq_ok.mp h
      obtain rfl := pure_eq_ok.mp h
      rintro j (_ | p)
      · exact hFirst
      · exact ih.mp hRest j p
    · intro h
      have hRest : mapM f a.2 = .ok b.2 := ih.mpr fun j p => h j (.there p)
      exact bind_eq_ok.mpr ⟨b.1, h i .here, bind_eq_ok.mpr ⟨b.2, hRest, rfl⟩⟩

/-- A pass succeeds when it succeeds at every position. -/
theorem exists_mapM {ε : Type w} {f : ∀ i, A i → Except ε (B i)} {is : List ι} {a : Cells A is} :
    (∃ b, mapM f a = .ok b) ↔ ∀ (i : ι) (p : Pos i is), ∃ b, f i (a.get p) = .ok b := by
  constructor
  · rintro ⟨b, h⟩ i p
    exact ⟨b.get p, mapM_eq_ok.mp h i p⟩
  · intro h
    induction is with
    | nil => exact ⟨⟨⟩, rfl⟩
    | cons i is ih =>
      obtain ⟨first, hFirst⟩ := h i .here
      obtain ⟨rest, hRest⟩ := ih (fun j p => h j (.there p))
      exact ⟨(first, rest), bind_eq_ok.mpr ⟨first, hFirst, bind_eq_ok.mpr ⟨rest, hRest, rfl⟩⟩⟩

/-- A pass fails with an error that no other error comes before. -/
theorem mapM_eq_error {ε : Type w} {f : ∀ i, A i → Except ε (B i)} {is : List ι} {a : Cells A is}
    {e : ε} {i : ι} (p : Pos i is) (hFails : f i (a.get p) = .error e)
    (hBefore : ∀ (j : ι) (q : Pos j is) (e' : ε), q.toNat < p.toNat →
      f j (a.get q) = .error e' → e' = e) :
    mapM f a = .error e := by
  induction p with
  | here => exact bind_eq_error.mpr (Or.inl hFails)
  | @there j is p ih =>
    have hRest : mapM f a.2 = .error e := by
      apply ih hFails
      intro j q e' hLt hError
      exact hBefore j (.there q) e' (Nat.succ_lt_succ hLt) hError
    cases hFirst : f j a.1 with
    | error e' =>
      obtain rfl := hBefore j .here e' (Nat.succ_pos _) hFirst
      exact bind_eq_error.mpr (Or.inl hFirst)
    | ok b => exact bind_eq_error.mpr (Or.inr ⟨b, hFirst, bind_eq_error.mpr (Or.inl hRest)⟩)

theorem findSome?_congr {C : Type w} {f : ∀ i, A i → Option C} {g : ∀ i, B i → Option C}
    {is : List ι} {a : Cells A is} {b : Cells B is}
    (h : ∀ (i : ι) (p : Pos i is), f i (a.get p) = g i (b.get p)) :
    findSome? f a = findSome? g b := by
  induction is with
  | nil => rfl
  | cons i is ih =>
    have hFirst : f i a.1 = g i b.1 := h i .here
    rw [findSome?, findSome?, hFirst, ih fun j p => h j (.there p)]

/-- A search that finds something at some description of the list finds something. -/
theorem findSome?_isSome {C : Type w} {f : ∀ i, A i → Option C} {is : List ι} {i : ι}
    (hMem : i ∈ is) (hFound : ∀ c, (f i c).isSome) (a : Cells A is) : (findSome? f a).isSome := by
  induction is with
  | nil => cases hMem
  | cons j is ih =>
    rw [findSome?]
    rcases List.mem_cons.mp hMem with rfl | hMem
    · rw [Option.isSome_or, hFound, Bool.true_or]
    · rw [Option.isSome_or, ih hMem, Bool.or_true]

theorem mem_flatMap₂ {C : Type w} {f : ∀ i, A i → B i → List C} {is : List ι} {a : Cells A is}
    {b : Cells B is} {c : C} :
    c ∈ flatMap₂ f a b ↔ ∃ (i : ι) (p : Pos i is), c ∈ f i (a.get p) (b.get p) := by
  induction is with
  | nil =>
    constructor
    · intro h
      cases h
    · intro h
      obtain ⟨_, p, -⟩ := h
      cases p
  | cons i is ih =>
    rw [flatMap₂, List.mem_append, ih]
    constructor
    · intro h
      rcases h with h | ⟨j, p, h⟩
      · exact ⟨i, .here, h⟩
      · exact ⟨j, .there p, h⟩
    · rintro ⟨j, _ | p, h⟩
      · exact Or.inl h
      · exact Or.inr ⟨j, p, h⟩

end Cells

end Cryptbox.Base

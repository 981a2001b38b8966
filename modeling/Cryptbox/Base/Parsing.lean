import Mathlib.Data.List.Basic
import Mathlib.Order.Defs.Unbundled
import Mathlib.Tactic.Common

/-!
# Parsers that keep their place

A parser takes what it reads from the start of its state. One that fails stays where it failed,
so that its caller can go on from there: `EStateM`.

* `run_bind_eq_ok`: a sequence that succeeds, step by step.
* `Keeps.bind`: what every step keeps, a sequence keeps, also when it fails.
* `Separated.loop_eq_ok`: the loop over entries with a separator between them, and perhaps after
  the last.
* `Separated.keeps`, `Separated.loop_eq_error`: what it keeps, and where its errors come from.
-/

namespace Cryptbox.Base.Parsing

variable {ε δ σ τ α β : Type}

/-! ## Steps -/

/-- The state that is left, by a success or a failure. -/
def left : EStateM.Result ε σ α → σ
  | .ok _ s => s
  | .error _ s => s

theorem run_bind (x : EStateM ε σ α) (f : α → EStateM ε σ β) (s : σ) :
    (x >>= f).run s = match x.run s with
      | .ok a s' => (f a).run s'
      | .error e s' => .error e s' := rfl

theorem run_bind_eq_ok {x : EStateM ε σ α} {f : α → EStateM ε σ β} {s s'' : σ} {b : β} :
    (x >>= f).run s = .ok b s'' ↔ ∃ a s', x.run s = .ok a s' ∧ (f a).run s' = .ok b s'' := by
  rw [run_bind]
  cases x.run s with
  | ok a s' => simp
  | error e s' => simp

theorem run_bind_eq_error {x : EStateM ε σ α} {f : α → EStateM ε σ β} {s s'' : σ} {e : ε} :
    (x >>= f).run s = .error e s'' ↔
      x.run s = .error e s'' ∨ ∃ a s', x.run s = .ok a s' ∧ (f a).run s' = .error e s'' := by
  rw [run_bind]
  cases x.run s with
  | ok a s' => simp
  | error e s' => simp

theorem run_map_eq_ok {x : EStateM ε σ α} {f : α → β} {s s' : σ} {b : β} :
    (f <$> x).run s = .ok b s' ↔ ∃ a, x.run s = .ok a s' ∧ f a = b := by
  show (x >>= fun a => pure (f a)).run s = _ ↔ _
  rw [run_bind_eq_ok]
  constructor
  · rintro ⟨a, s₁, hRun, hPure⟩
    cases hPure
    exact ⟨a, hRun, rfl⟩
  · rintro ⟨a, hRun, rfl⟩
    exact ⟨a, s', hRun, rfl⟩

/-- A parser over a part of the state. -/
def zoom (wrap : δ → ε) (get : τ → σ) (set : σ → τ → τ) (x : EStateM δ σ α) : EStateM ε τ α :=
  fun t => match x.run (get t) with
    | .ok a s => .ok a (set s t)
    | .error e s => .error (wrap e) (set s t)

theorem run_zoom (wrap : δ → ε) (get : τ → σ) (set : σ → τ → τ) (x : EStateM δ σ α) (t : τ) :
    (zoom wrap get set x).run t = match x.run (get t) with
      | .ok a s => .ok a (set s t)
      | .error e s => .error (wrap e) (set s t) := rfl

/-! ## What is kept -/

/-- From every state, `x` leaves one that is related to it. -/
def Keeps (R : σ → σ → Prop) (x : EStateM ε σ α) : Prop := ∀ s, R s (left (x.run s))

section

variable {R : σ → σ → Prop} {x : EStateM ε σ α}

theorem Keeps.ok (h : Keeps R x) {s s' : σ} {a : α} (hOk : x.run s = .ok a s') : R s s' := by
  have hLeft := h s
  rwa [hOk] at hLeft

theorem Keeps.error (h : Keeps R x) {s s' : σ} {e : ε} (hError : x.run s = .error e s') :
    R s s' := by
  have hLeft := h s
  rwa [hError] at hLeft

theorem Keeps.pure [Std.Refl R] (a : α) : Keeps R (Pure.pure a : EStateM ε σ α) :=
  fun s => Std.Refl.refl s

theorem Keeps.throw [Std.Refl R] (e : ε) : Keeps R (throw e : EStateM ε σ α) :=
  fun s => Std.Refl.refl s

theorem Keeps.bind [IsTrans σ R] {f : α → EStateM ε σ β} (hx : Keeps R x)
    (hf : ∀ a, Keeps R (f a)) : Keeps R (x >>= f) := by
  intro s
  rw [run_bind]
  cases h : x.run s with
  | error e s' => exact hx.error h
  | ok a s' => exact IsTrans.trans s s' _ (hx.ok h) (hf a s')

theorem Keeps.map [Std.Refl R] [IsTrans σ R] (h : Keeps R x) (f : α → β) : Keeps R (f <$> x) :=
  h.bind fun a => Keeps.pure (f a)

end

/-! ## Separated entries -/

/-- A loop over entries: each has a head and a body, and a separator stands between two. -/
structure Separated (ε σ α : Type) where
  size : σ → Nat
  /-- Nothing is left. -/
  done : σ → Bool
  head : EStateM ε σ α
  body : α → EStateM ε σ Unit
  separator : EStateM ε σ Unit
  head_lt : ∀ {s a s'}, head.run s = .ok a s' → size s' < size s
  body_le : ∀ {a s s'}, (body a).run s = .ok () s' → size s' ≤ size s
  separator_le : ∀ {s s'}, separator.run s = .ok () s' → size s' ≤ size s

namespace Separated

variable (l : Separated ε σ α)

def loop (s : σ) : EStateM.Result ε σ Unit :=
  match _hHead : l.head.run s with
  | .error e s' => .error e s'
  | .ok a afterHead =>
    match _hBody : (l.body a).run afterHead with
    | .error e s' => .error e s'
    | .ok () afterBody =>
      if l.done afterBody then .ok () afterBody
      else match _hSeparator : l.separator.run afterBody with
        | .error e s' => .error e s'
        | .ok () rest => if l.done rest then .ok () rest else loop rest
termination_by l.size s
decreasing_by
  have hHead := l.head_lt _hHead
  have hBody := l.body_le _hBody
  have hSeparator := l.separator_le _hSeparator
  omega

/-- The loop reads these entries. -/
inductive Reads : σ → List α → σ → Prop
  | last {s : σ} {a : α} {afterHead s' : σ} (hHead : l.head.run s = .ok a afterHead)
      (hBody : (l.body a).run afterHead = .ok () s') (hDone : l.done s' = true) : Reads s [a] s'
  | trailing {s : σ} {a : α} {afterHead afterBody s' : σ}
      (hHead : l.head.run s = .ok a afterHead) (hBody : (l.body a).run afterHead = .ok () afterBody)
      (hMore : l.done afterBody = false) (hSeparator : l.separator.run afterBody = .ok () s')
      (hDone : l.done s' = true) : Reads s [a] s'
  | cons {s : σ} {a : α} {afterHead afterBody rest s' : σ} {entries : List α}
      (hHead : l.head.run s = .ok a afterHead) (hBody : (l.body a).run afterHead = .ok () afterBody)
      (hMore : l.done afterBody = false) (hSeparator : l.separator.run afterBody = .ok () rest)
      (hRest : l.done rest = false) (hReads : Reads rest entries s') : Reads s (a :: entries) s'

variable {l}

/-- What follows an entry. -/
theorem loop_of_body {s afterHead afterBody : σ} {a : α} (hHead : l.head.run s = .ok a afterHead)
    (hBody : (l.body a).run afterHead = .ok () afterBody) :
    l.loop s = if l.done afterBody then .ok () afterBody
      else match l.separator.run afterBody with
        | .error e s' => .error e s'
        | .ok () rest => if l.done rest then .ok () rest else l.loop rest := by
  rw [loop]
  split
  · next h => cases hHead.symm.trans h
  · next h =>
    cases hHead.symm.trans h
    split
    · next h => cases hBody.symm.trans h
    · next h =>
      cases hBody.symm.trans h
      split
      · rfl
      · split
        · next h => rw [h]
        · next h => rw [h]

/-- **The loop** succeeds exactly when it reads some entries. -/
theorem loop_eq_ok {s s' : σ} : l.loop s = .ok () s' ↔ ∃ entries, l.Reads s entries s' := by
  constructor
  · intro h
    fun_induction l.loop s with
    | case1 s e failed hHead => cases h
    | case2 s a afterHead hHead e failed hBody => cases h
    | case3 s a afterHead hHead afterBody hBody hDone =>
      cases h
      exact ⟨[a], .last hHead hBody hDone⟩
    | case4 s a afterHead hHead afterBody hBody hMore e failed hSeparator => cases h
    | case5 s a afterHead hHead afterBody hBody hMore rest hSeparator hDone =>
      cases h
      exact ⟨[a], .trailing hHead hBody (Bool.eq_false_iff.mpr hMore) hSeparator hDone⟩
    | case6 s a afterHead hHead afterBody hBody hMore rest hSeparator hRest ih =>
      obtain ⟨entries, hReads⟩ := ih h
      exact ⟨a :: entries, .cons hHead hBody (Bool.eq_false_iff.mpr hMore) hSeparator
        (Bool.eq_false_iff.mpr hRest) hReads⟩
  · rintro ⟨entries, hReads⟩
    induction hReads with
    | last hHead hBody hDone => rw [loop_of_body hHead hBody, if_pos hDone]
    | trailing hHead hBody hMore hSeparator hDone =>
      rw [loop_of_body hHead hBody]
      simp only [hMore, hSeparator, hDone, Bool.false_eq_true, if_false, if_true]
    | cons hHead hBody hMore hSeparator hRest _ ih =>
      rw [loop_of_body hHead hBody]
      simp only [hMore, hSeparator, hRest, Bool.false_eq_true, if_false, ih]

/-- **What every step keeps, the loop keeps**, also when it fails. -/
theorem keeps {R : σ → σ → Prop} [IsTrans σ R] (hHead : Keeps R l.head)
    (hBody : ∀ a, Keeps R (l.body a)) (hSeparator : Keeps R l.separator) (s : σ) :
    R s (left (l.loop s)) := by
  fun_induction l.loop s with
  | case1 s e failed h => exact hHead.error h
  | case2 s a afterHead h e failed h' => exact IsTrans.trans _ _ _ (hHead.ok h) ((hBody a).error h')
  | case3 s a afterHead h afterBody h' hDone =>
    exact IsTrans.trans _ _ _ (hHead.ok h) ((hBody a).ok h')
  | case4 s a afterHead h afterBody h' hMore e failed h'' =>
    exact IsTrans.trans _ _ _ (hHead.ok h)
      (IsTrans.trans _ _ _ ((hBody a).ok h') (hSeparator.error h''))
  | case5 s a afterHead h afterBody h' hMore rest h'' hDone =>
    exact IsTrans.trans _ _ _ (hHead.ok h)
      (IsTrans.trans _ _ _ ((hBody a).ok h') (hSeparator.ok h''))
  | case6 s a afterHead h afterBody h' hMore rest h'' hRest ih =>
    have hStep : R s rest := IsTrans.trans _ _ _ (hHead.ok h)
      (IsTrans.trans _ _ _ ((hBody a).ok h') (hSeparator.ok h''))
    exact IsTrans.trans _ _ _ hStep ih

/-- **An error of the loop** is one of its steps. -/
theorem loop_eq_error {P : ε → Prop} (hHead : ∀ s e s', l.head.run s = .error e s' → P e)
    (hBody : ∀ a s e s', (l.body a).run s = .error e s' → P e)
    (hSeparator : ∀ s e s', l.separator.run s = .error e s' → P e) {s s' : σ} {e : ε}
    (h : l.loop s = .error e s') : P e := by
  fun_induction l.loop s with
  | case1 s e failed hRun =>
    cases h
    exact hHead _ _ _ hRun
  | case2 s a afterHead _ e failed hRun =>
    cases h
    exact hBody _ _ _ _ hRun
  | case3 s a afterHead _ afterBody _ hDone => cases h
  | case4 s a afterHead _ afterBody _ hMore e failed hRun =>
    cases h
    exact hSeparator _ _ _ hRun
  | case5 s a afterHead _ afterBody _ hMore rest _ hDone => cases h
  | case6 s a afterHead _ afterBody _ hMore rest _ hRest ih => exact ih h

end Separated

end Cryptbox.Base.Parsing

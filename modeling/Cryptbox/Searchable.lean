import Cryptbox.Base.Paging
import Cryptbox.Value
import Cryptbox.Vectors

/-!
# The searchable application

`examples/searchable/main.rs`: one table with a sealed column and the column of its blind index.
A process loads its keyrings once; every command works with that snapshot. `rotation_canary`
seals a synthetic value under a configuration, and `rotation_ready` tells whether a process could
read and find rows that this configuration writes.

* `Application`: what the application declares, and its canary.
* `put`, `get`, `search`, `generations`, `rotationCanary`, `rotationReady`: the commands.
* `matchRows_exact`: what the loop of a search finds among rows whose values are known.
-/

namespace Cryptbox

open Base Envelope

namespace Searchable

/-- A seal, a blind index over it, the application's validation and its canary, which is a value
and the query that finds it. -/
structure Application where
  F : Seal
  spec : BlindIndexSpec F
  decEq : DecidableEq F.Value
  validate : F.Value → Bool
  canary : F.Value
  query : spec.Query
  canary_query : spec.normalizeQuery query = spec.normalizeValue canary

instance (app : Application) : DecidableEq app.F.Value := app.decEq

/-- The keyrings a process loaded when it started. -/
structure Snapshot where
  encryption : EncryptionKeyring
  indexes : BlindIndexKeyring

/-- What a row stores for a value; the columns of a row are `NULL` together. -/
structure UserRow where
  email : Bytes
  emailLookup : Bytes
  deriving DecidableEq

/-- The table: no row, a row of `NULL`s, or a row that stores a value. -/
abbrev Users := Int → Option (Option UserRow)

/-- Why a command stops. -/
inductive AppError where
  | cryptbox (failure : Failure)
  | rowNotFound
  | unexpectedNull
  | uniqueViolation
  | columnDecode (failure : Failure)
  | failed (message : String)
  deriving DecidableEq

/-- A call of the library, its failure passed on with `?`. -/
def crypt {α : Type} : Result α → Except AppError α
  | .ok a => .ok a
  | .error f => .error (.cryptbox f)

/-- `row.try_get(column)?`, for the bytes of an envelope. -/
def decodeColumn {α : Type} : Result α → Except AppError α
  | .ok a => .ok a
  | .error f => .error (.columnDecode f)

/-- The file of a canary: an envelope and an index. -/
structure Canary where
  sealed : Bytes
  token : Bytes
  deriving DecidableEq

section

variable (prim : Primitives) (app : Application)

/-- What `put` stores, `none` for the command `put-null`. -/
def put (email : Option app.F.Value) (keys : Snapshot) (draw : Option Nonce) :
    Except AppError (Option UserRow) :=
  match email with
  | none => .ok none
  | some email =>
    if app.validate email = true then do
      let sealed ← crypt (Sealed.seal prim email (.keyring keys.encryption) draw)
      let index ← crypt (BlindIndex.derive prim app.spec email (.keyring keys.indexes))
      return some ⟨sealed.asBytes, index.asBytes⟩
    else .error (.failed "application email validation failed")

/-- Opens a stored envelope. -/
def openRow (keys : EncryptionKeyring) (row : UserRow) : Except AppError app.F.Value := do
  let sealed : Sealed app.F none ← decodeColumn (Sealed.fromBytes row.email)
  crypt (sealed.open prim (.keyring keys))

def get (users : Users) (id : Int) (keys : EncryptionKeyring) :
    Except AppError (Option app.F.Value) :=
  match users id with
  | none => .error .rowNotFound
  | some none => .ok none
  | some (some row) => some <$> openRow prim app keys row

/-- The generations that a row names. -/
def generations (users : Users) (id : Int) : Except AppError (KeyId × IndexKeyId) :=
  match users id with
  | none => .error .rowNotFound
  | some none => .error .unexpectedNull
  | some (some row) => do
    let sealed : Sealed app.F none ← decodeColumn (Sealed.fromBytes row.email)
    let key ← crypt sealed.keyId
    let index ← crypt (inspectBlindIndex row.emailLookup)
    return (key, index.indexKeyId)

/-- The body of the loop of a search, over the matches and the rejected candidates so far. -/
def matchRow (candidate : Int × UserRow → Except AppError app.F.Value) (query : app.spec.Query)
    (found : List Int × Nat) (row : Int × UserRow) : Except AppError (List Int × Nat) := do
  let value ← candidate row
  if ← crypt (BlindIndex.verifyCandidate app.spec query value) then
    return (found.1 ++ [row.1], found.2)
  else return (found.1, found.2 + 1)

def matchRows (candidate : Int × UserRow → Except AppError app.F.Value) (query : app.spec.Query)
    (rows : List (Int × UserRow)) : Except AppError (List Int × Nat) :=
  rows.foldlM (matchRow app candidate query) ([], 0)

/-- The matching IDs and the number of candidates that are no matches; `select` answers
`WHERE email_lookup IN (..) ORDER BY id`. -/
def search (query : app.spec.Query) (keys : Snapshot)
    (select : List Bytes → List (Int × UserRow)) : Except AppError (List Int × Nat) := do
  let probes ← crypt (BlindIndex.probes prim app.spec query (.keyring keys.indexes))
  matchRows app (fun row => openRow prim app keys.encryption row.2) query
    (select (probes.map BlindIndex.asBytes))

/-- Seals the canary's value and derives its index. -/
def rotationCanary (keys : Snapshot) (draw : Option Nonce) : Except AppError Canary := do
  let sealed ← crypt (Sealed.seal prim app.canary (.keyring keys.encryption) draw)
  let index ← crypt (BlindIndex.derive prim app.spec app.canary (.keyring keys.indexes))
  return ⟨sealed.asBytes, index.asBytes⟩

/-- Opens a canary and looks for its index among the probes. -/
def rotationReady (keys : Snapshot) (canary : Canary) : Except AppError Unit := do
  let sealed : Sealed app.F none ← crypt (Sealed.fromBytes canary.sealed)
  let value ← crypt (sealed.open prim (.keyring keys.encryption))
  if value ≠ app.canary then throw (.failed "canary plaintext mismatch")
  let probes ← crypt (BlindIndex.probes prim app.spec app.query (.keyring keys.indexes))
  if !(probes.any fun probe => probe.asBytes == canary.token) then
    throw (.failed "canary index generation unavailable or mismatched")

/-- What the statement of `search` returns: the rows with one of the tokens, by ID. -/
structure Selects (users : Users) (tokens : List Bytes) (rows : List (Int × UserRow)) :
    Prop where
  ascending : Ascending rows
  mem : ∀ id row, (id, row) ∈ rows ↔ users id = some (some row) ∧ row.emailLookup ∈ tokens

end

/-! ## What the commands do -/

section

variable {prim : Primitives} {app : Application}

@[simp] theorem crypt_eq_ok {α : Type} {result : Result α} {a : α} :
    crypt result = .ok a ↔ result = .ok a := by
  cases result <;> simp [crypt]

@[simp] theorem decodeColumn_eq_ok {α : Type} {result : Result α} {a : α} :
    decodeColumn result = .ok a ↔ result = .ok a := by
  cases result <;> simp [decodeColumn]

theorem put_eq_ok {email : app.F.Value} {keys : Snapshot} {draw : Option Nonce}
    {stored : Option UserRow} :
    put prim app (some email) keys draw = .ok stored ↔
      app.validate email = true ∧ ∃ (sealed : Sealed app.F none) (index : BlindIndex app.spec),
        Sealed.seal prim email (.keyring keys.encryption) draw = .ok sealed ∧
        BlindIndex.derive prim app.spec email (.keyring keys.indexes) = .ok index ∧
        stored = some ⟨sealed.asBytes, index.asBytes⟩ := by
  unfold put
  dsimp only
  split
  · next hValid =>
    simp only [bind_eq_ok, crypt_eq_ok, pure_eq_ok]
    constructor
    · rintro ⟨sealed, hSeal, index, hDerive, rfl⟩
      exact ⟨hValid, sealed, index, hSeal, hDerive, rfl⟩
    · rintro ⟨-, sealed, index, hSeal, hDerive, rfl⟩
      exact ⟨sealed, hSeal, index, hDerive, rfl⟩
  · next hInvalid =>
    constructor
    · intro h
      cases h
    · intro h
      exact absurd h.1 hInvalid

theorem rotationCanary_eq_ok {keys : Snapshot} {draw : Option Nonce} {canary : Canary} :
    rotationCanary prim app keys draw = .ok canary ↔
      ∃ (sealed : Sealed app.F none) (index : BlindIndex app.spec),
        Sealed.seal prim app.canary (.keyring keys.encryption) draw = .ok sealed ∧
        BlindIndex.derive prim app.spec app.canary (.keyring keys.indexes) = .ok index ∧
        canary = ⟨sealed.asBytes, index.asBytes⟩ := by
  unfold rotationCanary
  simp only [bind_eq_ok, crypt_eq_ok, pure_eq_ok]
  constructor
  · rintro ⟨sealed, hSeal, index, hDerive, rfl⟩
    exact ⟨sealed, index, hSeal, hDerive, rfl⟩
  · rintro ⟨sealed, index, hSeal, hDerive, rfl⟩
    exact ⟨sealed, hSeal, index, hDerive, rfl⟩

theorem rotationReady_eq_ok {keys : Snapshot} {canary : Canary} :
    rotationReady prim app keys canary = .ok () ↔
      ∃ (sealed : Sealed app.F none) (probes : List (BlindIndex app.spec)),
        sealed.asBytes = canary.sealed ∧
        sealed.open prim (.keyring keys.encryption) = .ok app.canary ∧
        BlindIndex.probes prim app.spec app.query (.keyring keys.indexes) = .ok probes ∧
        ∃ probe ∈ probes, probe.asBytes = canary.token := by
  unfold rotationReady
  simp only [bind_eq_ok, crypt_eq_ok, Sealed.fromBytes_eq_ok]
  constructor
  · rintro ⟨sealed, hBytes, value, hOpen, h⟩
    by_cases hValue : value = app.canary
    · subst hValue
      rw [if_neg (not_not_intro rfl)] at h
      obtain ⟨probes, hProbes, h⟩ := bind_eq_ok.mp h
      have hProbes := crypt_eq_ok.mp hProbes
      by_cases hAny : (probes.any fun probe => probe.asBytes == canary.token) = true
      · obtain ⟨probe, hMem, hToken⟩ := List.any_eq_true.mp hAny
        exact ⟨sealed, probes, hBytes, hOpen, hProbes, probe, hMem, beq_iff_eq.mp hToken⟩
      · rw [if_pos (by simpa using hAny)] at h
        cases h
    · rw [if_pos hValue] at h
      cases h
  · rintro ⟨sealed, probes, hBytes, hOpen, hProbes, probe, hMem, hToken⟩
    have hAny : (probes.any fun probe => probe.asBytes == canary.token) = true :=
      List.any_eq_true.mpr ⟨probe, hMem, beq_iff_eq.mpr hToken⟩
    refine ⟨sealed, hBytes, app.canary, hOpen, ?_⟩
    rw [if_neg (not_not_intro rfl)]
    refine bind_eq_ok.mpr ⟨probes, crypt_eq_ok.mpr hProbes, ?_⟩
    rw [if_neg (by simpa using hAny)]
    rfl

/-- **The loop of a search** over rows that all have a value that normalizes: it collects the
matches in order and counts the other rows. -/
theorem matchRows_eq {candidate : Int × UserRow → Except AppError app.F.Value}
    {query : app.spec.Query} {isMatch : Int → Bool} {rows : List (Int × UserRow)}
    (hRows : ∀ row ∈ rows, ∃ value, candidate row = .ok value ∧
      BlindIndex.verifyCandidate app.spec query value = .ok (isMatch row.1)) :
    matchRows app candidate query rows =
      .ok ((rows.map Prod.fst).filter isMatch, rows.countP fun row => !isMatch row.1) := by
  have hLoop (found : List Int × Nat) :
      rows.foldlM (matchRow app candidate query) found =
        .ok (found.1 ++ (rows.map Prod.fst).filter isMatch,
          found.2 + rows.countP fun row => !isMatch row.1) := by
    induction rows generalizing found with
    | nil => simp [pure, Except.pure]
    | cons row rows ih =>
      obtain ⟨⟨value, hValue, hVerify⟩, hRest⟩ := List.forall_mem_cons.mp hRows
      rw [List.foldlM_cons, matchRow, hValue, ok_bind, hVerify]
      cases hMatch : isMatch row.1 with
      | true =>
        refine (ih hRest (found.1 ++ [row.1], found.2)).trans ?_
        simp [hMatch]
      | false =>
        refine (ih hRest (found.1, found.2 + 1)).trans ?_
        simp [hMatch, Nat.add_assoc, Nat.add_comm]
  refine (hLoop ([], 0)).trans ?_
  rw [List.nil_append, Nat.zero_add]

/-- What a search finds among rows whose values are known: the rows whose value has the
normalized bytes of the query. -/
theorem matchRows_exact {candidate : Int × UserRow → Except AppError app.F.Value}
    {query : app.spec.Query} {normalized : Vec} {rows : List (Int × UserRow)}
    {origin : Int → Option (Option app.F.Value)}
    (hQuery : app.spec.normalizeQuery query = .ok normalized) (hAscending : Ascending rows)
    (hRows : ∀ row ∈ rows, ∃ value normalized', origin row.1 = some (some value) ∧
      candidate row = .ok value ∧ app.spec.normalizeValue value = .ok normalized') :
    ∃ ids rejected, matchRows app candidate query rows = .ok (ids, rejected) ∧
      ids.Pairwise (· < ·) ∧ ∀ id, id ∈ ids ↔
        id ∈ rows.map Prod.fst ∧
          ∃ value, origin id = some (some value) ∧
            app.spec.normalizeValue value = .ok normalized := by
  classical
  let isMatch (id : Int) : Bool := decide
    (∃ value, origin id = some (some value) ∧ app.spec.normalizeValue value = .ok normalized)
  have hEach (row : Int × UserRow) (hMem : row ∈ rows) : ∃ value, candidate row = .ok value ∧
      BlindIndex.verifyCandidate app.spec query value = .ok (isMatch row.1) := by
    obtain ⟨value, normalized', hOrigin, hValue, hNormalized⟩ := hRows row hMem
    refine ⟨value, hValue, ?_⟩
    rw [BlindIndex.verifyCandidate_eq hQuery hNormalized]
    refine congrArg Except.ok (decide_eq_decide.mpr ?_)
    constructor
    · rintro rfl
      exact ⟨value, hOrigin, hNormalized⟩
    · rintro ⟨value', hOrigin', hSame⟩
      cases hOrigin.symm.trans hOrigin'
      exact Except.ok.inj (hNormalized.symm.trans hSame)
  refine ⟨_, _, matchRows_eq hEach, (List.pairwise_map.mpr hAscending).filter _, fun id => ?_⟩
  rw [List.mem_filter, decide_eq_true_iff]

end

/-! ## An application over the vectors -/

namespace Vectors

open Cryptbox.Vectors

def application : Application where
  F := vectorSeal
  spec := vectorIndex
  decEq := inferInstanceAs (DecidableEq Vec)
  validate _ := true
  canary := plaintext
  query := plaintext
  canary_query := rfl

/-- What is stored under the ID 7. -/
def atSeven {α : Type} (stored : Option α) (id : Int) : Option α :=
  if id = 7 then stored else none

theorem update_atSeven {α : Type} (stored stored' : Option α) :
    Function.update (atSeven stored) 7 stored' = atSeven stored' := by
  funext id
  rw [Function.update_apply]
  unfold atSeven
  split <;> rfl

theorem selects_seven (stored : UserRow) (tokens : List Bytes) :
    Selects (atSeven (some (some stored))) tokens
      (if stored.emailLookup ∈ tokens then [(7, stored)] else []) := by
  constructor
  · split
    · exact List.pairwise_singleton ..
    · exact .nil
  · intro id row
    unfold atSeven
    by_cases hId : id = 7
    · subst hId
      rw [if_pos rfl, Option.some_inj, Option.some_inj]
      split
      · next hToken =>
        rw [List.mem_singleton, Prod.mk.injEq]
        constructor
        · rintro ⟨-, rfl⟩
          exact ⟨rfl, hToken⟩
        · rintro ⟨rfl, -⟩
          exact ⟨rfl, rfl⟩
      · next hToken =>
        constructor
        · rintro ⟨⟩
        · rintro ⟨rfl, hMem⟩
          exact absurd hMem hToken
    · rw [if_neg hId]
      constructor
      · intro hMem
        split at hMem
        · cases List.mem_singleton.mp hMem
          exact absurd rfl hId
        · cases hMem
      · rintro ⟨⟨⟩, -⟩

end Vectors

end Searchable

end Cryptbox

import Cryptbox.History
import Cryptbox.Searchable

/-!
# The audit of the searchable application

`audit_current` of `examples/searchable/main.rs`. It reads the table in pages of two rows, opens
and validates every value, and compares every index with what the current pair derives.

* `auditFrom_eq`: page after page, the audit is one pass over the rows that remain.
* `audit_exact`: the audit ends; it passes exactly when every row does, and then searches miss no
  row.
-/

namespace Cryptbox.Searchable

open Base

section

variable (prim : Primitives) (app : Application)

/-- What the audit does with a row before it counts it. -/
def auditRow (keys : Snapshot) (row : Option UserRow) : Except AppError Unit :=
  match row with
  | none => .error .unexpectedNull
  | some row => do
    let value ← openRow prim app keys.encryption row
    if app.validate value = true then do
      let expected ← crypt (BlindIndex.derive prim app.spec value (.keyring keys.indexes))
      if expected.asBytes = row.emailLookup then return ()
      else throw (.failed "index consistency check failed")
    else throw (.failed "application email validation failed")

/-- The inner loop, over the last ID and the count so far. -/
def auditPage (keys : Snapshot) (page : List (Int × Option UserRow)) (progress : Option Int × Nat) :
    Except AppError (Option Int × Nat) :=
  page.foldlM (fun progress row => do
    auditRow prim app keys row.2
    return (some row.1, progress.2 + 1)) progress

/-- The outer loop for at most `fuel` pages; `select` answers the statement of the audit. -/
def auditFrom (keys : Snapshot) (select : Option Int → List (Int × Option UserRow)) :
    Nat → Option Int × Nat → Option (Except AppError Nat)
  | 0, _ => none
  | fuel + 1, progress =>
    match select progress.1 with
    | [] => some (.ok progress.2)
    | row :: rows =>
      match auditPage prim app keys (row :: rows) progress with
      | .error e => some (.error e)
      | .ok progress => auditFrom keys select fuel progress

def auditCurrent (keys : Snapshot) (select : Option Int → List (Int × Option UserRow))
    (fuel : Nat) : Option (Except AppError Nat) :=
  auditFrom prim app keys select fuel (none, 0)

/-- What the audit establishes of a row. -/
def Audited (keys : Snapshot) (stored : Option UserRow) : Prop :=
  ∃ row value index, stored = some row ∧ openRow prim app keys.encryption row = .ok value ∧
    app.validate value = true ∧
    BlindIndex.derive prim app.spec value (.keyring keys.indexes) = .ok index ∧
    index.asBytes = row.emailLookup

end

variable {prim : Primitives} {app : Application} {keys : Snapshot}

theorem auditRow_eq_ok {stored : Option UserRow} :
    auditRow prim app keys stored = .ok () ↔ Audited prim app keys stored := by
  cases stored with
  | none =>
    constructor
    · rintro ⟨⟩
    · rintro ⟨_, _, _, ⟨⟩, _⟩
  | some row =>
    unfold auditRow
    dsimp only
    rw [bind_eq_ok]
    constructor
    · rintro ⟨value, hOpen, h⟩
      split at h
      · next hValid =>
        obtain ⟨index, hDerive, h⟩ := bind_eq_ok.mp h
        split at h
        · next hSame => exact ⟨row, value, index, rfl, hOpen, hValid, crypt_eq_ok.mp hDerive, hSame⟩
        · cases h
      · cases h
    · rintro ⟨_, value, index, ⟨⟩, hOpen, hValid, hDerive, hSame⟩
      refine ⟨value, hOpen, ?_⟩
      rw [if_pos hValid]
      refine bind_eq_ok.mpr ⟨index, crypt_eq_ok.mpr hDerive, ?_⟩
      rw [if_pos hSame]
      rfl

/-- A page whose rows all pass is counted, and its last ID is kept; the first row that does not
pass ends the audit. -/
theorem auditPage_eq (page : List (Int × Option UserRow)) (progress : Option Int × Nat) :
    auditPage prim app keys page progress =
      (forM page fun row => auditRow prim app keys row.2) >>= fun _ =>
        .ok ((page.getLast?.map Prod.fst).or progress.1, progress.2 + page.length) := by
  induction page generalizing progress with
  | nil => rfl
  | cons row page ih =>
    unfold auditPage at ih ⊢
    rw [List.foldlM_cons, List.forM_cons]
    cases hRow : auditRow prim app keys row.2 with
    | error e => rfl
    | ok _ =>
      rw [ok_bind, ok_bind]
      refine (ih (some row.1, progress.2 + 1)).trans ?_
      cases page with
      | nil => rfl
      | cons next rest =>
        rw [List.getLast?_cons_cons, List.getLast?_eq_some_getLast (List.cons_ne_nil next rest)]
        simp only [List.length_cons, Nat.add_assoc, Nat.add_comm 1]
        rfl

variable {users : Users} {entries : List (Int × Option UserRow)}
  {select : Option Int → List (Int × Option UserRow)}

/-- **Page after page, the audit is one pass over the rows that remain.** -/
theorem auditFrom_eq (hEntries : Enumerates users entries)
    (hSelect : ∀ after, Page users after 2 (select after)) {fuel : Nat}
    (progress : Option Int × Nat) (hFuel : (remaining entries progress.1).length < fuel) :
    auditFrom prim app keys select fuel progress =
      some ((forM (remaining entries progress.1) fun row => auditRow prim app keys row.2) >>=
        fun _ => .ok (progress.2 + (remaining entries progress.1).length)) := by
  induction fuel generalizing progress with
  | zero => omega
  | succ fuel ih =>
    have hPage := hSelect progress.1
    unfold auditFrom
    split
    · next hEmpty =>
      rw [hEmpty] at hPage
      rw [hEntries.page_nil hPage (by omega)]
      rfl
    · next row rows hRows =>
      rw [hRows] at hPage
      obtain ⟨last, hLast⟩ : ∃ last, (row :: rows).getLast? = some last :=
        ⟨_, List.getLast?_eq_some_getLast (List.cons_ne_nil row rows)⟩
      have hRemaining := hEntries.page_append hPage (by omega) hLast
      rw [auditPage_eq, hLast, hRemaining, List.forM_append]
      cases hForM : forM (row :: rows) fun row => auditRow prim app keys row.2 with
      | error e => rfl
      | ok _ =>
        rw [ok_bind, ok_bind]
        refine (ih _ ?_).trans ?_
        · rw [hRemaining, List.length_append, List.length_cons] at hFuel
          show (remaining entries (some last.1)).length < fuel
          omega
        · show some _ = some _
          rw [List.length_append, ← Nat.add_assoc]
          rfl

/-- A pass over rows ends with the first row that does not pass. -/
theorem forM_eq_error {rows : List (Int × Option UserRow)} {e : AppError}
    (h : (forM rows fun row => auditRow prim app keys row.2) = .error e) :
    ∃ before row after, rows = before ++ row :: after ∧ auditRow prim app keys row.2 = .error e ∧
      ∀ row ∈ before, auditRow prim app keys row.2 = .ok () := by
  induction rows with
  | nil => cases h
  | cons row rows ih =>
    rw [List.forM_cons] at h
    rcases bind_eq_error.mp h with hRow | ⟨_, hRow, h⟩
    · exact ⟨[], row, rows, rfl, hRow, fun _ hMem => nomatch hMem⟩
    · obtain ⟨before, first, after, rfl, hFirst, hBefore⟩ := ih h
      refine ⟨row :: before, first, after, rfl, hFirst, fun row' hMem => ?_⟩
      rcases List.mem_cons.mp hMem with rfl | hMem
      · exact hRow
      · exact hBefore row' hMem

theorem forM_eq_ok {rows : List (Int × Option UserRow)} :
    (forM rows fun row => auditRow prim app keys row.2) = .ok () ↔
      ∀ row ∈ rows, auditRow prim app keys row.2 = .ok () := by
  induction rows with
  | nil => simp [pure, Except.pure]
  | cons row rows ih =>
    rw [List.forM_cons, bind_eq_ok, List.forall_mem_cons, ← ih]
    constructor
    · rintro ⟨_, hRow, h⟩
      exact ⟨hRow, h⟩
    · rintro ⟨hRow, h⟩
      exact ⟨(), hRow, h⟩

/-- **The audit is one pass over the table.** -/
theorem auditCurrent_eq (hEntries : Enumerates users entries)
    (hSelect : ∀ after, Page users after 2 (select after)) {fuel : Nat}
    (hFuel : entries.length < fuel) :
    auditCurrent prim app keys select fuel =
      some ((forM entries fun row => auditRow prim app keys row.2) >>=
        fun _ => .ok entries.length) := by
  unfold auditCurrent
  rw [auditFrom_eq hEntries hSelect (none, 0) (by simpa using hFuel)]
  simp only [remaining_none, Nat.zero_add]

/-- After an audit that passed, a search misses no row: it finds exactly the rows whose value has
the normalized bytes of the query, in the order of their IDs. -/
theorem search_audited (hTotal : prim.Total)
    (hAudited : ∀ id stored, users id = some stored → Audited prim app keys stored)
    {query : app.spec.Query} {normalized : Vec}
    (hQuery : app.spec.normalizeQuery query = .ok normalized)
    {select : List Bytes → List (Int × UserRow)}
    (hSelect : ∀ tokens, Selects users tokens (select tokens)) :
    ∃ ids rejected, search prim app query keys select = .ok (ids, rejected) ∧
      ids.Pairwise (· < ·) ∧ ∀ id, id ∈ ids ↔
        ∃ value, get prim app users id keys.encryption = .ok (some value) ∧
          app.spec.normalizeValue value = .ok normalized := by
  obtain ⟨probes, hProbes⟩ :
      ∃ probes, BlindIndex.probes prim app.spec query (.keyring keys.indexes) = .ok probes :=
    BlindIndex.exists_probesIn hTotal hQuery rfl _
  have hRows := hSelect (probes.map BlindIndex.asBytes)
  let origin (id : Int) : Option (Option app.F.Value) :=
    match get prim app users id keys.encryption with
    | .ok value => some value
    | .error _ => none
  have hOrigin (id : Int) (value : app.F.Value) : origin id = some (some value) ↔
      get prim app users id keys.encryption = .ok (some value) := by
    show (match get prim app users id keys.encryption with
      | .ok value => some value
      | .error _ => none) = _ ↔ _
    cases get prim app users id keys.encryption <;> simp
  have hGet {id : Int} {row : UserRow} {value : app.F.Value} (hRow : users id = some (some row))
      (hOpen : openRow prim app keys.encryption row = .ok value) :
      get prim app users id keys.encryption = .ok (some value) := by
    unfold get
    rw [hRow]
    exact congrArg (some <$> ·) hOpen
  have hEach (row : Int × UserRow) (hMem : row ∈ select (probes.map BlindIndex.asBytes)) :
      ∃ value normalized', origin row.1 = some (some value) ∧
        openRow prim app keys.encryption row.2 = .ok value ∧
        app.spec.normalizeValue value = .ok normalized' := by
    obtain ⟨hRow, -⟩ := (hRows.mem row.1 row.2).mp hMem
    obtain ⟨_, value, index, ⟨⟩, hOpen, -, hDerive, -⟩ := hAudited row.1 _ hRow
    obtain ⟨keyring, -, hDerive⟩ := BlindIndex.deriveValue_eq_ok.mp hDerive
    obtain ⟨normalized', hNormalized, -⟩ := BlindIndex.deriveValueWithKey_eq_ok.mp hDerive
    exact ⟨value, normalized', (hOrigin row.1 value).mpr (hGet hRow hOpen), hOpen, hNormalized⟩
  obtain ⟨ids, rejected, hMatch, hAscending, hFound⟩ :=
    matchRows_exact hQuery hRows.ascending hEach
  refine ⟨ids, rejected, bind_eq_ok.mpr ⟨probes, crypt_eq_ok.mpr hProbes, hMatch⟩, hAscending,
    fun id => (hFound id).trans ?_⟩
  constructor
  · rintro ⟨-, value, hValue, hNormalized⟩
    exact ⟨value, (hOrigin id value).mp hValue, hNormalized⟩
  · rintro ⟨value, hValue, hNormalized⟩
    refine ⟨?_, value, (hOrigin id value).mpr hValue, hNormalized⟩
    -- The index of the row is the probe of the current pair.
    cases hRow : users id with
    | none =>
      unfold get at hValue
      rw [hRow] at hValue
      cases hValue
    | some stored =>
      obtain ⟨row, value', index, rfl, hOpen, -, hDerive, hSame⟩ := hAudited id stored hRow
      cases (hGet hRow hOpen).symm.trans hValue
      obtain ⟨_, hKeyring, hDerive⟩ := BlindIndex.deriveValue_eq_ok.mp hDerive
      cases hKeyring
      obtain ⟨normalized', hNormalized', hDerive⟩ :=
        BlindIndex.deriveValueWithKey_eq_ok.mp hDerive
      cases hNormalized.symm.trans hNormalized'
      have hProbe : index ∈ probes :=
        BlindIndex.mem_probesIn hProbes hQuery rfl (Ring.get_current _) hDerive
      exact List.mem_map.mpr ⟨(id, row), (hRows.mem id row).mpr
        ⟨hRow, hSame ▸ List.mem_map_of_mem hProbe⟩, rfl⟩

/-- **The audit is exact.** It ends; it passes exactly when it establishes every row, and counts
them; otherwise it ends with the first row that fails. When it passes, searches miss no row. -/
theorem audit_exact (hTotal : prim.Total) (hEntries : Enumerates users entries)
    (hSelect : ∀ after, Page users after 2 (select after)) {fuel : Nat}
    (hFuel : entries.length < fuel) :
    ∃ result, auditCurrent prim app keys select fuel = some result ∧
      (∀ count, result = .ok count ↔ count = entries.length ∧
        ∀ id stored, users id = some stored → Audited prim app keys stored) ∧
      (∀ e, result = .error e → ∃ id stored, users id = some stored ∧
        auditRow prim app keys stored = .error e ∧
        ∀ id' stored', id' < id → users id' = some stored' → Audited prim app keys stored') ∧
      ∀ count, result = .ok count → ∀ query normalized found,
        app.spec.normalizeQuery query = .ok normalized →
        (∀ tokens, Selects users tokens (found tokens)) →
        ∃ ids rejected, search prim app query keys found = .ok (ids, rejected) ∧
          ids.Pairwise (· < ·) ∧ ∀ id, id ∈ ids ↔
            ∃ value, get prim app users id keys.encryption = .ok (some value) ∧
              app.spec.normalizeValue value = .ok normalized := by
  have hRows : (∀ row ∈ entries, auditRow prim app keys row.2 = .ok ()) ↔
      ∀ id stored, users id = some stored → Audited prim app keys stored := by
    constructor
    · intro h id stored hRow
      exact auditRow_eq_ok.mp (h (id, stored) ((hEntries.mem_iff _).mpr hRow))
    · intro h row hMem
      exact auditRow_eq_ok.mpr (h row.1 row.2 ((hEntries.mem_iff row).mp hMem))
  have hPasses (count : Nat) : ((forM entries fun row => auditRow prim app keys row.2) >>=
      fun _ => .ok entries.length) = .ok count ↔ count = entries.length ∧
        ∀ id stored, users id = some stored → Audited prim app keys stored := by
    rw [bind_eq_ok, ← hRows, ← forM_eq_ok]
    constructor
    · rintro ⟨_, hForM, hCount⟩
      exact ⟨(Except.ok.inj hCount).symm, hForM⟩
    · rintro ⟨rfl, hForM⟩
      exact ⟨(), hForM, rfl⟩
  refine ⟨_, auditCurrent_eq hEntries hSelect hFuel, hPasses, fun e hError => ?_,
    fun count hOk query normalized found hQuery hFound => ?_⟩
  · rcases bind_eq_error.mp hError with hForM | ⟨_, _, ⟨⟩⟩
    obtain ⟨before, row, after, rfl, hRow, hBefore⟩ := forM_eq_error hForM
    refine ⟨row.1, row.2, (hEntries.mem_iff row).mp (by simp), hRow,
      fun id stored hLess hStored => auditRow_eq_ok.mp ?_⟩
    have hMem : (id, stored) ∈ before ++ row :: after := (hEntries.mem_iff _).mpr hStored
    rcases List.mem_append.mp hMem with hMem | hMem
    · exact hBefore _ hMem
    · -- The rows after the failing one have greater IDs.
      have hAscending := (List.pairwise_append.mp hEntries.ascending).2.1
      rcases List.mem_cons.mp hMem with rfl | hMem
      · exact absurd hLess (lt_irrefl _)
      · exact absurd hLess (lt_asymm ((List.pairwise_cons.mp hAscending).1 _ hMem))
  · exact search_audited hTotal ((hPasses count).mp hOk).2 hQuery hFound

/-- What the database finds in a table with these rows. -/
def found (rows : List (Int × UserRow)) (tokens : List Bytes) : List (Int × UserRow) :=
  rows.filter fun row => decide (row.2.emailLookup ∈ tokens)

theorem selects_found {rows : List (Int × UserRow)} (hAscending : Ascending rows)
    (tokens : List Bytes) :
    Selects (tableOf (rows.map fun row => (row.1, some row.2))) tokens (found rows tokens) := by
  have hEntries : Ascending (rows.map fun row => (row.1, some row.2)) :=
    List.pairwise_map.mpr hAscending
  refine ⟨hAscending.filter _, fun id row => ?_⟩
  rw [found, List.mem_filter, decide_eq_true_eq, ← hEntries.enumerates.mem_iff (id, some row)]
  simp

namespace Vectors

open Cryptbox.Vectors

def laterNonce : Nonce := ⟨(List.range' 24 24).map UInt8.ofNat, rfl⟩

def collisionHead : Bytes := standaloneHead.take 31 ++ laterNonce.val

def collisionEnvelope : Bytes :=
  collisionHead ++ be 35 0x8f93e7c49c1d079e8e6d27761ee2518de6d8b57f895d9efc1dc6e4bd7c7eb6fc6fafdf

def knownAudit : KnownAnswers where
  hashes := known.hashes
  macs := knownDigests
  aead := {
    key := operationalKey standaloneContext
    nonce := laterNonce
    aad := envelopeAadLabel ++ collisionHead ++ standaloneContext
    plaintext := collision.val
    ciphertext := ⟨be 19 0x8f93e7c49c1d079e8e6d27761ee2518de6d8b5, rfl⟩
    tag := beBlock 16 0x7f895d9efc1dc6e4bd7c7eb6fc6fafdf } :: (knownRotation.aead ++ known.aead)
  unambiguous := by decide

def auditPrim : Primitives := .answering knownAudit

/-- The keys after a rotation of both pairs. -/
def auditKeys : Snapshot := ⟨rotatedKeyring, rotatedIndexes⟩

/-- The plaintext under the earlier encryption key and under the current one, and another value
with the same index. -/
def soundRows : List (Int × UserRow) :=
  [(3, ⟨previousEnvelope, Cryptbox.Vectors.index⟩), (5, ⟨envelope, Cryptbox.Vectors.index⟩),
    (8, ⟨collisionEnvelope, Cryptbox.Vectors.index⟩)]

/-- A row whose index is still that of the earlier pair. -/
def behindRow : Int × UserRow := (11, ⟨envelope, previousIndex⟩)

/-- What the database returns for the statement of the audit. -/
def pages (rows : List (Int × UserRow)) (after : Option Int) : List (Int × Option UserRow) :=
  (remaining (rows.map fun row => (row.1, some row.2)) after).take 2

theorem auditRow_sound : ∀ row ∈ soundRows,
    auditRow auditPrim application auditKeys (some row.2) = .ok () := by
  decide +kernel

theorem auditRow_behind : auditRow auditPrim application auditKeys (some behindRow.2)
    = .error (.failed "index consistency check failed") := by
  decide +kernel

theorem search_sound : search auditPrim application plaintext auditKeys (found soundRows)
    = .ok ([3, 5], 1) := by
  decide +kernel

end Vectors

open Searchable.Vectors Cryptbox.Vectors in
/-- Over rows of both generations of encryption keys the audit passes, in two pages, and the
search for the plaintext finds its two rows. A fourth row fails it, whose index is of the earlier
generation. -/
theorem audit_exact_vector :
    auditCurrent auditPrim application auditKeys (pages soundRows) 4 = some (.ok 3) ∧
    (∀ id : Int, id ∈ [3, 5] ↔
      ∃ value, get auditPrim application (tableOf (soundRows.map fun row => (row.1, some row.2))) id
        rotatedKeyring = .ok (some value) ∧ vectorIndex.normalizeValue value = .ok plaintext) ∧
    auditCurrent auditPrim application auditKeys (pages (soundRows ++ [behindRow])) 5
      = some (.error (.failed "index consistency check failed")) := by
  have hTotal : auditPrim.Total := KnownAnswers.primitives_total _
  have hSound : Ascending (soundRows.map fun row => (row.1, some row.2)) := by decide
  have hBehind : Ascending ((soundRows ++ [behindRow]).map fun row => (row.1, some row.2)) := by
    decide
  obtain ⟨result, hResult, hPasses, -, hSearches⟩ :=
    @audit_exact auditPrim application auditKeys _ _ _ hTotal hSound.enumerates
      (fun after => hSound.enumerates.page_take after 2) 4 (by decide)
  obtain ⟨result', hResult', hPasses', hFails, -⟩ :=
    @audit_exact auditPrim application auditKeys _ _ _ hTotal hBehind.enumerates
      (fun after => hBehind.enumerates.page_take after 2) 5 (by decide)
  have hPassed : result = .ok 3 := by
    refine (hPasses 3).mpr ⟨rfl, fun id stored hStored => auditRow_eq_ok.mp ?_⟩
    obtain ⟨row, hRow, hEntry⟩ :=
      List.mem_map.mp ((hSound.enumerates.mem_iff (id, stored)).mpr hStored)
    cases hEntry
    exact auditRow_sound row hRow
  refine ⟨hResult.trans (congrArg some hPassed), ?_, hResult'.trans (congrArg some ?_)⟩
  · obtain ⟨ids, rejected, hFound, -, hIds⟩ := hSearches 3 hPassed plaintext plaintext _ rfl
      (selects_found (by decide))
    cases search_sound.symm.trans hFound
    exact hIds
  · cases result' with
    | ok count =>
      have hAudited := ((hPasses' count).mp rfl).2 11 (some behindRow.2) rfl
      cases auditRow_behind.symm.trans (auditRow_eq_ok.mpr hAudited)
    | error e =>
      obtain ⟨id, stored, hStored, hRow, -⟩ := hFails e rfl
      obtain ⟨row, hMem, hEntry⟩ :=
        List.mem_map.mp ((hBehind.enumerates.mem_iff (id, stored)).mpr hStored)
      cases hEntry
      rcases List.mem_append.mp hMem with hMem | hMem
      · cases hRow.symm.trans (auditRow_sound row hMem)
      · rw [List.mem_singleton.mp hMem] at hRow
        exact congrArg Except.error (Except.error.inj (hRow.symm.trans auditRow_behind))

end Cryptbox.Searchable

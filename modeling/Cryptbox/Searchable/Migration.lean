import Cryptbox.Migrate.Sweep
import Cryptbox.Searchable.Audit
import Cryptbox.Searchable.Rows

/-!
# Adopting encryption over legacy rows

`examples/searchable/migration.rs`. While the table holds envelopes and legacy values, reads
recover either; an empty index is the marker of a missing one, and lookups select it beside the
probes. Legacy bytes that start like an envelope are told apart by a table of formats. Rows that
cannot be recovered are moved to a quarantine, which blocks lookups and the end of the migration.

* `Tables`: the tables of the migration.
* `recover`, `lookup`, `migrationGet`, `repair`, `quarantine`, `restore`, `close`: the commands.
* `repair_eq_ok`, `quarantine_eq_ok`, `restore_eq_ok`, `close_eq_ok`: when they succeed.
-/

namespace Cryptbox

open Base Envelope

/-- `MaybeSealed::from_legacy_bytes`. -/
def MaybeSealed.fromLegacyBytes (F : Seal) (bytes : Bytes) : MaybeSealed F := .legacy bytes

namespace Searchable

/-- The format of legacy bytes that start like an envelope. -/
def legacyCollision : String := "legacy-collision"

/-- A row of `migration_quarantine`. -/
structure QuarantineCase where
  id : Int
  row : UserRow
  resolved : Bool
  deriving DecidableEq

/-- `users`, `migration_formats` and `migration_quarantine`. -/
structure Tables where
  users : Users
  formats : List (Int × String)
  quarantine : List QuarantineCase

/-- Whether the row is joined with the format of colliding bytes. -/
def Tables.collision (db : Tables) (id : Int) : Bool := db.formats.lookup id == some legacyCollision

/-- `SELECT COUNT(*) FROM migration_quarantine WHERE resolved = 0`. -/
def Tables.pending (db : Tables) : Nat := db.quarantine.countP fun c => !c.resolved

def message {α : Type} (text : String) : Except AppError α := .error (.failed text)

section

variable (prim : Primitives) (app : Application)

def recover (bytes : Bytes) (collision : Bool) (keys : EncryptionKeyring)
    (legacy : LegacyFormat) : Except AppError app.F.Value := do
  let stored ← (if collision then .ok (MaybeSealed.fromLegacyBytes app.F bytes)
    else crypt (MaybeSealed.fromBytes app.F bytes))
  let value ← crypt (stored.openLegacy prim (.keyring keys) legacy)
  if app.validate value = true then .ok value
  else message "application email validation failed"

def quarantineGate (db : Tables) : Except AppError Unit :=
  if db.pending ≠ 0 then message "unresolved quarantine: lookup and closure blocked"
  else .ok ()

/-- A search of rows in any format, under one snapshot; `select` answers
`WHERE email IS NOT NULL AND email_lookup IN (..) ORDER BY id`, where the marker is one of the
values. -/
def lookup (db : Tables) (query : app.spec.Query) (keys : Snapshot) (legacy : LegacyFormat)
    (select : List Bytes → List (Int × UserRow)) : Except AppError (List Int × Nat) := do
  quarantineGate db
  let probes ← crypt (BlindIndex.probes prim app.spec query (.keyring keys.indexes))
  matchRows app
    (fun row => recover prim app row.2.email (db.collision row.1) keys.encryption legacy) query
    (select ([] :: probes.map BlindIndex.asBytes))

/-- A row whose columns are not `NULL`. -/
def fetchRow (users : Users) (id : Int) : Except AppError UserRow :=
  match users id with
  | none => .error .rowNotFound
  | some none => .error .unexpectedNull
  | some (some row) => .ok row

/-- Repairs an exceptional row in one transaction. It reads `read` and writes `db`, which may have
changed meanwhile. -/
def repair (read db : Tables) (id : Int) (collision : Bool) (keys : Snapshot)
    (legacy : LegacyFormat) (draw : Option Nonce) : Except AppError Tables := do
  let row ← fetchRow read.users id
  if collision = true ∧ read.formats.lookup id ≠ some legacyCollision then
    message "trusted legacy discriminator required"
  else if collision = false ∧ row.emailLookup ≠ [] then
    message "missing projection required"
  else do
    let value ← recover prim app row.email collision keys.encryption legacy
    let sealed ← crypt (Sealed.seal prim value (.keyring keys.encryption) draw)
    let index ← crypt (BlindIndex.derive prim app.spec value (.keyring keys.indexes))
    let users := Function.update db.users id (some (some ⟨sealed.asBytes, index.asBytes⟩))
    if db.users id ≠ some (some row) then
      message "guarded repair conflict: reload and investigate"
    else if collision = true then
      if (db.formats.countP fun f => f = (id, legacyCollision)) ≠ 1 then
        message "discriminator changed: repair rolled back"
      else .ok { db with users, formats := db.formats.filter fun f => f ≠ (id, legacyCollision) }
    else .ok { db with users }

/-- The command `migration-quarantine` for the row of `id`, which it read in `read`. -/
def quarantine (read db : Tables) (id : Int) : Except AppError Tables := do
  let row ← fetchRow read.users id
  if db.users id ≠ some (some row) then message "quarantine conflict: rolled back"
  else .ok { db with
    users := Function.update db.users id none
    quarantine := db.quarantine ++ [⟨id, row, false⟩] }

/-- The command `migration-restore` with an approved value. -/
def restore (db : Tables) (id : Int) (value : app.F.Value) (keys : Snapshot)
    (draw : Option Nonce) : Except AppError Tables := do
  let sealed ← crypt (Sealed.seal prim value (.keyring keys.encryption) draw)
  let index ← crypt (BlindIndex.derive prim app.spec value (.keyring keys.indexes))
  if db.users id ≠ none then .error .uniqueViolation
  else if (db.quarantine.countP fun c => c.id = id ∧ c.resolved = false) ≠ 1 then
    message "one unresolved case required"
  else .ok { db with
    users := Function.update db.users id (some (some ⟨sealed.asBytes, index.asBytes⟩))
    quarantine := db.quarantine.map fun c => if c.id = id then { c with resolved := true } else c }

end

/-! ## What the commands do -/

section

variable {prim : Primitives} {app : Application} {keys : Snapshot} {legacy : LegacyFormat}
  {draw : Option Nonce} {id : Int}

theorem fetchRow_eq_ok {users : Users} {row : UserRow} :
    fetchRow users id = .ok row ↔ users id = some (some row) := by
  unfold fetchRow
  split <;> simp_all

theorem recover_eq_ok {bytes : Bytes} {collision : Bool} {ring : EncryptionKeyring}
    {value : app.F.Value} :
    recover prim app bytes collision ring legacy = .ok value ↔
      ∃ stored : MaybeSealed app.F,
        (if collision = true then stored = .legacy bytes
          else MaybeSealed.fromBytes app.F bytes = .ok stored) ∧
        stored.openLegacy prim (.keyring ring) legacy = .ok value ∧ app.validate value = true := by
  have hTail (stored : MaybeSealed app.F) :
      (crypt (stored.openLegacy prim (.keyring ring) legacy) >>= fun value =>
        if app.validate value = true then .ok value
        else message "application email validation failed") = .ok value ↔
      stored.openLegacy prim (.keyring ring) legacy = .ok value ∧ app.validate value = true := by
    rw [bind_eq_ok]
    constructor
    · rintro ⟨value', hOpen, h⟩
      split at h
      · next hValid =>
        obtain rfl := Except.ok.inj h
        exact ⟨crypt_eq_ok.mp hOpen, hValid⟩
      · cases h
    · rintro ⟨hOpen, hValid⟩
      exact ⟨value, crypt_eq_ok.mpr hOpen, if_pos hValid⟩
  unfold recover
  rw [bind_eq_ok]
  cases collision with
  | true =>
    constructor
    · rintro ⟨stored, hStored, h⟩
      exact ⟨stored, (Except.ok.inj hStored).symm, (hTail stored).mp h⟩
    · rintro ⟨stored, rfl, h⟩
      exact ⟨_, rfl, (hTail _).mpr h⟩
  | false =>
    constructor
    · rintro ⟨stored, hStored, h⟩
      exact ⟨stored, crypt_eq_ok.mp hStored, (hTail stored).mp h⟩
    · rintro ⟨stored, hStored, h⟩
      exact ⟨stored, crypt_eq_ok.mpr hStored, (hTail stored).mpr h⟩

theorem quarantineGate_eq_ok {db : Tables} : quarantineGate db = .ok () ↔ db.pending = 0 := by
  unfold quarantineGate message
  split <;> simp_all

/-- A repair seals what it recovered and derives its index, and clears the format of colliding
bytes, if the row is still as it was read. -/
theorem repair_eq_ok {read db db' : Tables} {collision : Bool} :
    repair prim app read db id collision keys legacy draw = .ok db' ↔
      ∃ (row : UserRow) (value : app.F.Value) (sealed : Sealed app.F none)
        (index : BlindIndex app.spec), read.users id = some (some row) ∧
        (collision = true → read.formats.lookup id = some legacyCollision) ∧
        (collision = false → row.emailLookup = []) ∧
        recover prim app row.email collision keys.encryption legacy = .ok value ∧
        Sealed.seal prim value (.keyring keys.encryption) draw = .ok sealed ∧
        BlindIndex.derive prim app.spec value (.keyring keys.indexes) = .ok index ∧
        db.users id = some (some row) ∧
        (collision = true → (db.formats.countP fun f => f = (id, legacyCollision)) = 1) ∧
        db' = { db with
          users := Function.update db.users id (some (some ⟨sealed.asBytes, index.asBytes⟩))
          formats := if collision = true then db.formats.filter fun f => f ≠ (id, legacyCollision)
            else db.formats } := by
  unfold repair
  rw [bind_eq_ok]
  constructor
  · rintro ⟨row, hFetch, h⟩
    split at h
    · cases h
    · next hDiscriminator =>
      split at h
      · cases h
      · next hProjection =>
        obtain ⟨value, hRecover, h⟩ := bind_eq_ok.mp h
        obtain ⟨sealed, hSeal, h⟩ := bind_eq_ok.mp h
        obtain ⟨index, hDerive, h⟩ := bind_eq_ok.mp h
        refine ⟨row, value, sealed, index, fetchRow_eq_ok.mp hFetch, by tauto, by tauto, hRecover,
          crypt_eq_ok.mp hSeal, crypt_eq_ok.mp hDerive, ?_⟩
        dsimp only at h
        split at h
        · cases h
        · next hSame =>
          refine ⟨not_not.mp hSame, ?_⟩
          split at h
          · next hCollision =>
            split at h
            · cases h
            · next hOne =>
              refine ⟨fun _ => not_not.mp hOne, ?_⟩
              rw [if_pos hCollision]
              exact (Except.ok.inj h).symm
          · next hCollision =>
            refine ⟨fun h => absurd h hCollision, ?_⟩
            rw [if_neg hCollision]
            exact (Except.ok.inj h).symm
  · rintro ⟨row, value, sealed, index, hFetch, hDiscriminator, hProjection, hRecover, hSeal,
      hDerive, hSame, hOne, rfl⟩
    refine ⟨row, fetchRow_eq_ok.mpr hFetch, ?_⟩
    rw [if_neg (fun h => h.2 (hDiscriminator h.1)), if_neg (fun h => h.2 (hProjection h.1))]
    refine bind_eq_ok.mpr ⟨value, hRecover, bind_eq_ok.mpr ⟨sealed, crypt_eq_ok.mpr hSeal,
      bind_eq_ok.mpr ⟨index, crypt_eq_ok.mpr hDerive, ?_⟩⟩⟩
    dsimp only
    rw [if_neg (not_not_intro hSame)]
    split
    · next hCollision => rw [if_neg (not_not_intro (hOne hCollision))]
    · rfl

theorem quarantine_eq_ok {read db db' : Tables} :
    quarantine read db id = .ok db' ↔
      ∃ row, read.users id = some (some row) ∧ db.users id = some (some row) ∧
        db' = { db with
          users := Function.update db.users id none
          quarantine := db.quarantine ++ [⟨id, row, false⟩] } := by
  unfold quarantine
  rw [bind_eq_ok]
  constructor
  · rintro ⟨row, hFetch, h⟩
    split at h
    · cases h
    · next hSame =>
      exact ⟨row, fetchRow_eq_ok.mp hFetch, not_not.mp hSame, (Except.ok.inj h).symm⟩
  · rintro ⟨row, hFetch, hSame, rfl⟩
    exact ⟨row, fetchRow_eq_ok.mpr hFetch, if_neg (not_not_intro hSame)⟩

theorem restore_eq_ok {db db' : Tables} {value : app.F.Value} :
    restore prim app db id value keys draw = .ok db' ↔
      ∃ (sealed : Sealed app.F none) (index : BlindIndex app.spec),
        Sealed.seal prim value (.keyring keys.encryption) draw = .ok sealed ∧
        BlindIndex.derive prim app.spec value (.keyring keys.indexes) = .ok index ∧
        db.users id = none ∧
        (db.quarantine.countP fun c => c.id = id ∧ c.resolved = false) = 1 ∧
        db' = { db with
          users := Function.update db.users id (some (some ⟨sealed.asBytes, index.asBytes⟩))
          quarantine := db.quarantine.map fun c =>
            if c.id = id then { c with resolved := true } else c } := by
  unfold restore
  simp only [bind_eq_ok, crypt_eq_ok]
  constructor
  · rintro ⟨sealed, hSeal, index, hDerive, h⟩
    refine ⟨sealed, index, hSeal, hDerive, ?_⟩
    split at h
    · cases h
    · next hAbsent =>
      split at h
      · cases h
      · next hOne => exact ⟨not_not.mp hAbsent, not_not.mp hOne, (Except.ok.inj h).symm⟩
  · rintro ⟨sealed, index, hSeal, hDerive, hAbsent, hOne, rfl⟩
    refine ⟨sealed, hSeal, index, hDerive, ?_⟩
    rw [if_neg (not_not_intro hAbsent), if_neg (not_not_intro hOne)]

end

end Searchable

end Cryptbox

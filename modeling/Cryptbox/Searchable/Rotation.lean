import Cryptbox.Base.Rollout
import Cryptbox.Ideal
import Cryptbox.Searchable.Rows

/-!
# Rotating keys in a running deployment

`docs/operations.md`, "The promotion gate" and "Procedure". Processes share the table of the
searchable application, and each works with the keyrings it loaded when it started. Before a
generation is promoted, a canary of the target configuration is made and every process that runs
has to be ready for it; a process starts only when it is ready for every canary so far, and
writes with generations of accepted canaries. Encryption and index keys rotate independently,
forwards and back. Beside the writers, processes rewrite stale rows, and what no process writes
and no row names any more retires.

* `rotationReady_iff`: a process is ready for a canary exactly when it holds both its pairs.
* `Rollout.simulation`: for each of the two roles, the deployment is a fleet behind a gate.
* `Rollout.rotation_safe`: every process reads and finds every row, at every moment.
-/

namespace Cryptbox.Searchable

open Base Envelope

variable {prim : Primitives} {app : Application} {P : Type}

/-! ## Canaries -/

/-- Two keys of one ID with the same index of the canary are one key. Indexes are truncated, so
this says that the material in use has no collision on the canary. -/
def Distinguishes (prim : Primitives) (app : Application) (Known : BlindIndexKey → Prop) : Prop :=
  ∀ key key' stored, Known key → Known key' → key.id = key'.id →
    deriveValueWithKey prim app.spec app.canary (indexContext prim app.F) key = .ok stored →
    deriveValueWithKey prim app.spec app.canary (indexContext prim app.F) key' = .ok stored →
      key = key'

/-- **A process is ready for a canary** exactly when it holds both current pairs of the
configuration that the canary was made under. -/
theorem rotationReady_iff (hIdeal : prim.Ideal) (hTotal : prim.Total)
    (hCodec : app.F.codec.RoundTrips) {Known : BlindIndexKey → Prop}
    (hDistinct : Distinguishes prim app Known) {keys target : Snapshot} {draw : Option Nonce}
    {canary : Canary} (hMade : rotationCanary prim app target draw = .ok canary)
    (hTarget : Known target.indexes.current)
    (hKnown : ∀ key, keys.indexes.get key.id = some key → Known key) :
    rotationReady prim app keys canary = .ok () ↔ keys.Holds target := by
  obtain ⟨sealed, index, hSeal, hDerive, rfl⟩ := rotationCanary_eq_ok.mp hMade
  obtain ⟨encoded, hEncode, hBound⟩ := Sealed.sealUnder_eq_ok.mp hSeal
  obtain ⟨keyring, hKeyring, hDerive⟩ := BlindIndex.deriveValue_eq_ok.mp hDerive
  cases hKeyring
  obtain ⟨normalized, hValue, hNormalized⟩ := BlindIndex.deriveValueWithKey_eq_ok.mp hDerive
  have hQuery : app.spec.normalizeQuery app.query = .ok normalized :=
    app.canary_query.trans hValue
  rw [rotationReady_eq_ok]
  constructor
  · rintro ⟨sealed', probes, hSame, hOpen, hProbes, probe, hMem, hToken⟩
    obtain rfl := Sealed.ext_bytes hSame
    obtain ⟨plaintext, hOpen, -⟩ := Sealed.openUnder_eq_ok.mp hOpen
    obtain rfl : probe = index := BlindIndex.ext_bytes hToken
    refine ⟨((Bound.open_seal_iff hIdeal hBound).mp hOpen).2.2.1, ?_⟩
    obtain ⟨normalized', keyring, hQuery', hKeyring, hRel⟩ := BlindIndex.probesIn_eq_ok.mp hProbes
    cases hKeyring
    cases hQuery.symm.trans hQuery'
    obtain ⟨key, hReadable, hProbe⟩ := forall₂_exists hRel.flip hMem
    have hGet : keys.indexes.get key.id = some key := Ring.mem_readable.mp hReadable
    have hId : key.id = target.indexes.current.id := Except.ok.inj
      ((BlindIndex.deriveNormalized_bytes hProbe).2.symm.trans
        (BlindIndex.deriveNormalized_bytes hNormalized).2)
    have hSameKey : key = target.indexes.current :=
      hDistinct key _ probe (hKnown key hGet) hTarget hId
        (BlindIndex.deriveValueWithKey_eq_ok.mpr ⟨normalized, hValue, hProbe⟩) hDerive
    exact hSameKey ▸ hGet
  · rintro ⟨hEncryption, hIndexes⟩
    have hOpen : sealed.open prim (.keyring keys.encryption) = .ok app.canary :=
      Sealed.openUnder_sealUnder hIdeal.decryptsEncrypted hCodec hSeal hEncryption
    obtain ⟨probes, hProbes⟩ :
        ∃ probes, BlindIndex.probes prim app.spec app.query (.keyring keys.indexes) = .ok probes :=
      BlindIndex.exists_probesIn hTotal hQuery rfl _
    exact ⟨sealed, probes, rfl, hOpen, hProbes, index,
      BlindIndex.mem_probesIn hProbes hQuery rfl hIndexes hNormalized, rfl⟩

/-! ## The deployment -/

/-- The table, what every running process loaded, and the canaries that every process was ready
for, each with the configuration it was made under. -/
structure Rollout (app : Application) (P : Type) where
  users : Users
  serving : P → Option Snapshot
  accepted : List (Snapshot × Canary)
  /-- What was put last under an ID. -/
  origin : Int → Option (Option app.F.Value)

/-- Nothing runs, and the table is empty. -/
def Rollout.init : Rollout app P := ⟨fun _ => none, fun _ => none, [], fun _ => none⟩

variable [DecidableEq P]

/-- One step of the deployment; `Known` are the index keys in use. -/
inductive Rollout.Step (prim : Primitives) (Known : BlindIndexKey → Prop) :
    Rollout app P → Rollout app P → Prop
  /-- The canary of a configuration passes the gate. -/
  | accept (s : Rollout app P) (target : Snapshot) (draw : Option Nonce) (canary : Canary)
      (hKnown : Known target.indexes.current)
      (hMade : rotationCanary prim app target draw = .ok canary)
      (hReady : ∀ p keys, s.serving p = some keys → rotationReady prim app keys canary = .ok ()) :
      Step prim Known s ⟨s.users, s.serving, (target, canary) :: s.accepted, s.origin⟩
  /-- A process starts, or starts again with other keyrings. -/
  | deploy (s : Rollout app P) (p : P) (keys : Snapshot)
      (hKnown : ∀ key, keys.indexes.get key.id = some key → Known key)
      (hReady : ∀ a ∈ s.accepted, rotationReady prim app keys a.2 = .ok ())
      (hEncryption : ∃ a ∈ s.accepted, a.1.encryption.current.id = keys.encryption.current.id)
      (hIndexes : ∃ a ∈ s.accepted, a.1.indexes.current.id = keys.indexes.current.id) :
      Step prim Known s
        ⟨s.users, Function.update s.serving p (some keys), s.accepted, s.origin⟩
  | stop (s : Rollout app P) (p : P) :
      Step prim Known s ⟨s.users, Function.update s.serving p none, s.accepted, s.origin⟩
  | put (s : Rollout app P) (p : P) (keys : Snapshot) (id : Int) (email : Option app.F.Value)
      (draw : Option Nonce) (row : Option UserRow) (hServing : s.serving p = some keys)
      (hPut : put prim app email keys draw = .ok row) :
      Step prim Known s ⟨Function.update s.users id (some row), s.serving, s.accepted,
        Function.update s.origin id (some email)⟩
  /-- A sweep replaces a row that is still as it was read. -/
  | rewrite (s : Rollout app P) (p : P) (keys : Snapshot) (id : Int) (row : UserRow)
      (draw : Option Nonce) (outcome : RowOutcome) (write : RowWrite) (token : Bytes)
      (hServing : s.serving p = some keys) (hRow : s.users id = some (some row))
      (hPlan : (planner prim app keys none).planRow () row.email [row.emailLookup] draw = .ok outcome)
      (hWrite : outcome.write = some write) (hToken : write.indexes = [token]) :
      Step prim Known s ⟨Function.update s.users id (some (some ⟨write.ciphertext, token⟩)),
        s.serving, s.accepted, s.origin⟩
  /-- A process takes stock: every process writes with generations of `kept`, and every row names
  such generations. The other canaries no longer count. -/
  | retire (s : Rollout app P) (p : P) (keys : Snapshot) (kept : List (Snapshot × Canary))
      (hServing : s.serving p = some keys) (hKept : ∀ a ∈ kept, a ∈ s.accepted)
      (hWriters : ∀ q keys, s.serving q = some keys →
        (∃ a ∈ kept, a.1.encryption.current.id = keys.encryption.current.id) ∧
        ∃ a ∈ kept, a.1.indexes.current.id = keys.indexes.current.id)
      (hRows : ∀ id row, s.users id = some (some row) → ∀ named,
        generations app s.users id = .ok named →
          (∃ a ∈ kept, a.1.encryption.current.id = named.1) ∧
          ∃ a ∈ kept, a.1.indexes.current.id = named.2) :
      Step prim Known s ⟨s.users, s.serving, kept, s.origin⟩

abbrev Rollout.Run (prim : Primitives) (Known : BlindIndexKey → Prop) :
    Rollout app P → Rollout app P → Prop :=
  Relation.ReflTransGen (Rollout.Step prim Known)

/-- A process in the role of one of its keyrings. -/
def roleAgent {tag : IdTag} (ring : Ring tag) : Agent (KeyMaterial tag) :=
  ⟨fun key => ring.get key.id = some key, ring.current⟩

/-- **A fleet in one role**: its agents are the processes that run, and the generations that passed
its gate are the current ones of the accepted configurations. -/
structure InRole {tag : IdTag} (ring : Snapshot → Ring tag) (serving : P → Option Snapshot)
    (canaries : List (Snapshot × Canary)) (f : Fleet P (KeyMaterial tag) Int) : Prop where
  agents : ∀ p, f.agents p = (serving p).map fun keys => roleAgent (ring keys)
  accepted : ∀ key, f.accepted key ↔ ∃ a ∈ canaries, (ring a.1).current = key

/-- **The deployment as two fleets**, one for each role. -/
structure Simulates (prim : Primitives) (Known : BlindIndexKey → Prop) (s : Rollout app P)
    (e : Fleet P EncryptionKey Int) (i : Fleet P BlindIndexKey Int) : Prop where
  made : ∀ a ∈ s.accepted, Known a.1.indexes.current ∧
    ∃ draw, rotationCanary prim app a.1 draw = .ok a.2
  known : ∀ p keys, s.serving p = some keys → ∀ key, keys.indexes.get key.id = some key → Known key
  encryption : InRole Snapshot.encryption s.serving s.accepted e
  indexes : InRole Snapshot.indexes s.serving s.accepted i
  rows : ∀ id, StoredFor prim app (s.users id) (s.origin id) (e.items id) (i.items id)

/-! ## One role -/

/-- A configuration whose current pair has the ID of one that is held shares it. -/
theorem current_of_id {tag : IdTag} {ring target : Ring tag}
    (hHolds : ring.get target.current.id = some target.current)
    (hId : target.current.id = ring.current.id) : target.current = ring.current := by
  rw [hId, Ring.get_current] at hHolds
  exact (Option.some.inj hHolds).symm

/-- Two pairs of one ID in one keyring are the same. -/
theorem same_of_id {tag : IdTag} {ring : Ring tag} {key key' : KeyMaterial tag}
    (h : ring.get key.id = some key) (h' : ring.get key'.id = some key') (hId : key.id = key'.id) :
    key = key' := by
  rw [hId, h'] at h
  exact (Option.some.inj h).symm

namespace InRole

variable {tag : IdTag} {ring : Snapshot → Ring tag} {serving : P → Option Snapshot}
  {canaries : List (Snapshot × Canary)} {f : Fleet P (KeyMaterial tag) Int}

omit [DecidableEq P] in
theorem init : InRole ring (fun _ : P => none) [] .init where
  agents _ := rfl
  accepted _ := by simp [Fleet.init]

omit [DecidableEq P] in
/-- A process that runs is an agent. -/
theorem agent (h : InRole ring serving canaries f) {p : P} {keys : Snapshot}
    (hServing : serving p = some keys) : f.agents p = some (roleAgent (ring keys)) := by
  rw [h.agents, hServing, Option.map_some]

omit [DecidableEq P] in
/-- An agent is a process that runs. -/
theorem exists_serving (h : InRole ring serving canaries f) {p : P}
    {agent : Agent (KeyMaterial tag)} (hAgent : f.agents p = some agent) :
    ∃ keys, serving p = some keys ∧ roleAgent (ring keys) = agent :=
  Option.map_eq_some_iff.mp ((h.agents p).symm.trans hAgent)

omit [DecidableEq P] in
/-- A process that runs holds what was accepted. -/
theorem holds (h : InRole ring serving canaries f) (hSafe : f.Safe) {p : P} {keys : Snapshot}
    (hServing : serving p = some keys) {a : Snapshot × Canary} (hAccepted : a ∈ canaries) :
    (ring keys).get (ring a.1).current.id = some (ring a.1).current :=
  hSafe.holds p _ (h.agent hServing) _ ((h.accepted _).mpr ⟨a, hAccepted, rfl⟩)

/-- The agents follow the processes. -/
theorem agents_update (h : InRole ring serving canaries f) (p : P) (keys : Option Snapshot)
    (q : P) : Function.update f.agents p (keys.map fun keys => roleAgent (ring keys)) q
      = (Function.update serving p keys q).map fun keys => roleAgent (ring keys) := by
  rw [Function.update_apply, Function.update_apply]
  split
  · rfl
  · exact h.agents q

theorem accept (h : InRole ring serving canaries f) (target : Snapshot) (canary : Canary)
    (hHolds : ∀ p keys, serving p = some keys →
      (ring keys).get (ring target).current.id = some (ring target).current) :
    ∃ f', Fleet.Step f f' ∧ InRole ring serving ((target, canary) :: canaries) f' ∧
      f'.items = f.items := by
  refine ⟨_, .accept f (ring target).current fun p agent hAgent => ?_, ⟨h.agents, fun key => ?_⟩,
    rfl⟩
  · obtain ⟨keys, hServing, rfl⟩ := h.exists_serving hAgent
    exact hHolds p keys hServing
  · simp only [List.mem_cons, exists_eq_or_imp, h.accepted, eq_comm]

theorem deploy (h : InRole ring serving canaries f) (p : P) (keys : Snapshot)
    (hHolds : ∀ a ∈ canaries,
      (ring keys).get (ring a.1).current.id = some (ring a.1).current)
    (hWrites : ∃ a ∈ canaries, (ring a.1).current.id = (ring keys).current.id) :
    ∃ f', Fleet.Step f f' ∧ InRole ring (Function.update serving p (some keys)) canaries f' ∧
      f'.items = f.items := by
  refine ⟨_, .deploy f p (roleAgent (ring keys)) (fun key hKey => ?_) ?_,
    ⟨h.agents_update p (some keys), h.accepted⟩, rfl⟩
  · obtain ⟨a, hAccepted, rfl⟩ := (h.accepted key).mp hKey
    exact hHolds a hAccepted
  · obtain ⟨a, hAccepted, hId⟩ := hWrites
    exact (h.accepted _).mpr ⟨a, hAccepted, current_of_id (hHolds a hAccepted) hId⟩

theorem stop (h : InRole ring serving canaries f) (p : P) :
    ∃ f', Fleet.Step f f' ∧ InRole ring (Function.update serving p none) canaries f' ∧
      f'.items = f.items :=
  ⟨_, .stop f p, ⟨h.agents_update p none, h.accepted⟩, rfl⟩

theorem write (h : InRole ring serving canaries f) {p : P} {keys : Snapshot}
    (hServing : serving p = some keys) (id : Int) :
    ∃ f', Fleet.Step f f' ∧ InRole ring serving canaries f' ∧
      f'.items = Function.update f.items id (some (ring keys).current) :=
  ⟨_, .write f p _ id (h.agent hServing), ⟨h.agents, h.accepted⟩, rfl⟩

theorem erase (h : InRole ring serving canaries f) (id : Int) :
    ∃ f', Fleet.Step f f' ∧ InRole ring serving canaries f' ∧
      f'.items = Function.update f.items id none :=
  ⟨_, .erase f id, ⟨h.agents, h.accepted⟩, rfl⟩

/-- What no process writes with and no item is left under retires. -/
theorem retire (h : InRole ring serving canaries f) (hSafe : f.Safe) {p : P} {keys : Snapshot}
    (hServing : serving p = some keys) {kept : List (Snapshot × Canary)}
    (hKept : ∀ a ∈ kept, a ∈ canaries)
    (hWriters : ∀ q keys, serving q = some keys →
      ∃ a ∈ kept, (ring a.1).current.id = (ring keys).current.id)
    (hItems : ∀ id key, f.items id = some key → ∃ a ∈ kept, (ring a.1).current.id = key.id) :
    ∃ f', Fleet.Step f f' ∧ InRole ring serving kept f' ∧ f'.items = f.items := by
  refine ⟨_, .retire f (fun key => ∃ a ∈ kept, (ring a.1).current = key) ?_ ?_ ?_,
    ⟨h.agents, fun _ => Iff.rfl⟩, rfl⟩
  · rintro key ⟨a, hMem, hCurrent⟩
    exact (h.accepted key).mpr ⟨a, hKept a hMem, hCurrent⟩
  · intro q agent hAgent
    obtain ⟨keys', hServing', rfl⟩ := h.exists_serving hAgent
    obtain ⟨a, hMem, hId⟩ := hWriters q keys' hServing'
    exact ⟨a, hMem, current_of_id (h.holds hSafe hServing' (hKept a hMem)) hId⟩
  · intro id key hItem
    obtain ⟨a, hMem, hId⟩ := hItems id key hItem
    have hReads : (ring keys).get key.id = some key := hSafe.reads (h.agent hServing) hItem
    exact ⟨a, hMem, same_of_id (h.holds hSafe hServing (hKept a hMem)) hReads hId⟩

end InRole

/-! ## The gate -/

section

variable {Known : BlindIndexKey → Prop} {s t : Rollout app P} {e : Fleet P EncryptionKey Int}
  {i : Fleet P BlindIndexKey Int}

omit [DecidableEq P] in
theorem simulates_init : Simulates prim Known (Rollout.init : Rollout app P) .init .init where
  made := by simp [Rollout.init]
  known := by simp [Rollout.init]
  encryption := .init
  indexes := .init
  rows _ := .absent

omit [DecidableEq P] in
/-- What changes under one ID. -/
theorem rows_update (h : ∀ id, StoredFor prim app (s.users id) (s.origin id) (e.items id)
      (i.items id)) (id : Int) {row : Option (Option UserRow)}
    {email : Option (Option app.F.Value)} {sealedKey : Option EncryptionKey}
    {indexKey : Option BlindIndexKey} (hNew : StoredFor prim app row email sealedKey indexKey) :
    ∀ id', StoredFor prim app (Function.update s.users id row id')
      (Function.update s.origin id email id') (Function.update e.items id sealedKey id')
      (Function.update i.items id indexKey id') := by
  intro id'
  by_cases hSame : id' = id
  · subst hSame
    simpa using hNew
  · simpa [hSame] using h id'

omit [DecidableEq P] in
/-- A process that runs holds what was accepted. -/
theorem Simulates.holds_serving (h : Simulates prim Known s e i) (hSafe : e.Safe)
    (hSafeIndex : i.Safe) {p : P} {keys : Snapshot} (hServing : s.serving p = some keys)
    {a : Snapshot × Canary} (hAccepted : a ∈ s.accepted) : keys.Holds a.1 :=
  ⟨h.encryption.holds hSafe hServing hAccepted, h.indexes.holds hSafeIndex hServing hAccepted⟩

omit [DecidableEq P] in
/-- What the fleets have under an ID is what the row names; without it, the row names nothing. -/
theorem Simulates.item (h : Simulates prim Known s e i) (id : Int) :
    (e.items id = none ∧ i.items id = none ∧ ∀ named, generations app s.users id ≠ .ok named) ∨
      ∃ row sealedKey indexKey, s.users id = some (some row) ∧ e.items id = some sealedKey ∧
        i.items id = some indexKey ∧
        generations app s.users id = .ok (sealedKey.id, indexKey.id) := by
  have hNone (user : Option (Option UserRow)) (hUser : s.users id = user)
      (hRow : user = none ∨ user = some none) (named : KeyId × IndexKeyId) :
      generations app s.users id ≠ .ok named := by
    unfold generations
    rw [hUser]
    rcases hRow with rfl | rfl <;> rintro ⟨⟩
  have hStored := h.rows id
  generalize hUser : s.users id = user at hStored
  generalize hSealedKey : e.items id = sealedKey at hStored
  generalize hIndexKey : i.items id = indexKey at hStored
  generalize s.origin id = email at hStored
  cases hStored with
  | absent => exact Or.inl ⟨rfl, rfl, hNone _ hUser (Or.inl rfl)⟩
  | null => exact Or.inl ⟨rfl, rfl, hNone _ hUser (Or.inr rfl)⟩
  | value hSealed hIndexed =>
    exact Or.inr ⟨_, _, _, rfl, rfl, rfl, hSealed.generations hIndexed hUser⟩

variable (hIdeal : prim.Ideal) (hTotal : prim.Total) (hCodec : app.F.codec.RoundTrips)
  (hDistinct : Distinguishes prim app Known)

include hIdeal hTotal hCodec hDistinct

omit [DecidableEq P] in
/-- A process that is ready for the accepted canaries holds what was accepted. -/
theorem Simulates.holds (h : Simulates prim Known s e i) {keys : Snapshot}
    (hKnown : ∀ key, keys.indexes.get key.id = some key → Known key)
    {a : Snapshot × Canary} (hAccepted : a ∈ s.accepted)
    (hReady : rotationReady prim app keys a.2 = .ok ()) : keys.Holds a.1 := by
  obtain ⟨hTarget, draw, hMade⟩ := h.made a hAccepted
  exact (rotationReady_iff hIdeal hTotal hCodec hDistinct hMade hTarget hKnown).mp hReady

/-- **Each role of the deployment is a fleet behind a gate.** -/
theorem Simulates.step (h : Simulates prim Known s e i) (hSafe : e.Safe) (hSafeIndex : i.Safe)
    (hStep : Rollout.Step prim Known s t) :
    ∃ e' i', Fleet.Step e e' ∧ Fleet.Step i i' ∧ Simulates prim Known t e' i' := by
  have hAead := hIdeal.decryptsEncrypted
  cases hStep with
  | accept target draw canary hKnown hMade hReady =>
    have hHolds (p : P) (keys : Snapshot) (hServing : s.serving p = some keys) :
        keys.Holds target :=
      (rotationReady_iff hIdeal hTotal hCodec hDistinct hMade hKnown (h.known p keys hServing)).mp
        (hReady p keys hServing)
    obtain ⟨e', hStep, hEncryption, hItems⟩ :=
      h.encryption.accept target canary fun p keys hServing => (hHolds p keys hServing).1
    obtain ⟨i', hStepIndex, hIndexes, hIndexItems⟩ :=
      h.indexes.accept target canary fun p keys hServing => (hHolds p keys hServing).2
    refine ⟨e', i', hStep, hStepIndex, ?_, h.known, hEncryption, hIndexes, ?_⟩
    · exact List.forall_mem_cons.mpr ⟨⟨hKnown, draw, hMade⟩, h.made⟩
    · rw [hItems, hIndexItems]
      exact h.rows
  | deploy p keys hKnown hReady hEncryptionId hIndexId =>
    have hHolds (a : Snapshot × Canary) (hAccepted : a ∈ s.accepted) : keys.Holds a.1 :=
      h.holds hIdeal hTotal hCodec hDistinct hKnown hAccepted (hReady a hAccepted)
    obtain ⟨e', hStep, hEncryption, hItems⟩ := h.encryption.deploy p keys
      (fun a hAccepted => (hHolds a hAccepted).1) hEncryptionId
    obtain ⟨i', hStepIndex, hIndexes, hIndexItems⟩ := h.indexes.deploy p keys
      (fun a hAccepted => (hHolds a hAccepted).2) hIndexId
    refine ⟨e', i', hStep, hStepIndex, h.made, ?_, hEncryption, hIndexes, ?_⟩
    · apply forall_update h.known
      rintro _ ⟨⟩
      exact hKnown
    · rw [hItems, hIndexItems]
      exact h.rows
  | stop p =>
    obtain ⟨e', hStep, hEncryption, hItems⟩ := h.encryption.stop p
    obtain ⟨i', hStepIndex, hIndexes, hIndexItems⟩ := h.indexes.stop p
    refine ⟨e', i', hStep, hStepIndex, h.made, ?_, hEncryption, hIndexes, ?_⟩
    · apply forall_update h.known
      rintro _ ⟨⟩
    · rw [hItems, hIndexItems]
      exact h.rows
  | put p keys id email draw row hServing hPut =>
    cases email with
    | none =>
      obtain rfl := Except.ok.inj hPut
      obtain ⟨e', hStep, hEncryption, hItems⟩ := h.encryption.erase id
      obtain ⟨i', hStepIndex, hIndexes, hIndexItems⟩ := h.indexes.erase id
      refine ⟨e', i', hStep, hStepIndex, h.made, h.known, hEncryption, hIndexes, ?_⟩
      rw [hItems, hIndexItems]
      exact rows_update h.rows id .null
    | some email =>
      obtain ⟨-, sealed, index, hSeal, hDerive, rfl⟩ := put_eq_ok.mp hPut
      obtain ⟨e', hStep, hEncryption, hItems⟩ := h.encryption.write hServing id
      obtain ⟨i', hStepIndex, hIndexes, hIndexItems⟩ := h.indexes.write hServing id
      refine ⟨e', i', hStep, hStepIndex, h.made, h.known, hEncryption, hIndexes, ?_⟩
      rw [hItems, hIndexItems]
      exact rows_update h.rows id
        (.value (sealedBy_of_seal hAead hSeal) (indexedBy_of_derive hDerive))
  | rewrite p keys id row draw outcome write token hServing hRow hPlan hWrite hToken =>
    have hStored := h.rows id
    rw [hRow] at hStored
    generalize hOrigin : s.origin id = email at hStored
    generalize hSealedKey : e.items id = sealedKey at hStored
    generalize hIndexKey : i.items id = indexKey at hStored
    cases hStored with
    | value hSealed hIndexed =>
      obtain ⟨hSealed', hIndexed'⟩ := rewrite_row hAead hCodec hSealed hIndexed
        (hSafe.reads (h.encryption.agent hServing) hSealedKey)
        (hSafeIndex.reads (h.indexes.agent hServing) hIndexKey) hPlan hWrite hToken
      obtain ⟨e', hStep, hEncryption, hItems⟩ := h.encryption.write hServing id
      obtain ⟨i', hStepIndex, hIndexes, hIndexItems⟩ := h.indexes.write hServing id
      refine ⟨e', i', hStep, hStepIndex, h.made, h.known, hEncryption, hIndexes, ?_⟩
      have hNew : StoredFor prim app (some (some ⟨write.ciphertext, token⟩)) _ _ _ :=
        .value hSealed' hIndexed'
      have hRows := rows_update h.rows id hNew
      rw [← hOrigin, Function.update_eq_self] at hRows
      rw [hItems, hIndexItems]
      exact hRows
  | retire p keys kept hServing hKept hWriters hRows =>
    obtain ⟨e', hStep, hEncryption, hItems⟩ := h.encryption.retire hSafe hServing hKept
      (fun q keys hServing => (hWriters q keys hServing).1) fun id key hItem => by
        obtain ⟨hNone, -⟩ | ⟨row, sealedKey, indexKey, hUser, hSealedKey, -, hGenerations⟩ :=
          h.item id
        · cases hNone.symm.trans hItem
        · cases hSealedKey.symm.trans hItem
          exact (hRows id row hUser _ hGenerations).1
    obtain ⟨i', hStepIndex, hIndexes, hIndexItems⟩ := h.indexes.retire hSafeIndex hServing hKept
      (fun q keys hServing => (hWriters q keys hServing).2) fun id key hItem => by
        obtain ⟨-, hNone, -⟩ | ⟨row, sealedKey, indexKey, hUser, -, hIndexKey, hGenerations⟩ :=
          h.item id
        · cases hNone.symm.trans hItem
        · cases hIndexKey.symm.trans hItem
          exact (hRows id row hUser _ hGenerations).2
    refine ⟨e', i', hStep, hStepIndex, fun a hMem => h.made a (hKept a hMem), h.known,
      hEncryption, hIndexes, ?_⟩
    rw [hItems, hIndexItems]
    exact h.rows

end

/-! ## Every run -/

section

variable {Known : BlindIndexKey → Prop} {s : Rollout app P}

/-- **A deployment is two fleets behind a gate**, one for each role, after every run. -/
theorem Rollout.simulation (hIdeal : prim.Ideal) (hTotal : prim.Total)
    (hCodec : app.F.codec.RoundTrips) (hDistinct : Distinguishes prim app Known)
    (hRun : Rollout.Run prim Known .init s) :
    ∃ e i, Fleet.Run .init e ∧ Fleet.Run .init i ∧ Simulates prim Known s e i := by
  induction hRun with
  | refl => exact ⟨.init, .init, .refl, .refl, simulates_init⟩
  | tail _ hStep ih =>
    obtain ⟨e, i, hEncryption, hIndexes, h⟩ := ih
    obtain ⟨e', i', hStepEncryption, hStepIndexes, h'⟩ := h.step hIdeal hTotal hCodec hDistinct
      (Fleet.safe_init.run hEncryption) (Fleet.safe_init.run hIndexes) hStep
    exact ⟨e', i', hEncryption.tail hStepEncryption, hIndexes.tail hStepIndexes, h'⟩

/-- What the accepted configurations have is all that the rows were written with. -/
theorem Rollout.agrees (hIdeal : prim.Ideal) (hTotal : prim.Total)
    (hCodec : app.F.codec.RoundTrips) (hDistinct : Distinguishes prim app Known)
    (hRun : Rollout.Run prim Known .init s) {keys : Snapshot}
    (hEncryption : ∀ a ∈ s.accepted, ∀ key,
      keys.encryption.get a.1.encryption.current.id = some key → key = a.1.encryption.current)
    (hIndexes : ∀ a ∈ s.accepted, ∀ key,
      keys.indexes.get a.1.indexes.current.id = some key → key = a.1.indexes.current) :
    keys.Agrees prim s.users s.origin := by
  obtain ⟨e, i, hFleet, hFleetIndexes, h⟩ :=
    Rollout.simulation hIdeal hTotal hCodec hDistinct hRun
  refine fun id => ⟨e.items id, i.items id, h.rows id, fun key hKey => ?_, fun key hKey => ?_⟩
  · obtain ⟨a, hAccepted, rfl⟩ :=
      (h.encryption.accepted key).mp ((Fleet.safe_init.run hFleet).items id key hKey)
    exact hEncryption a hAccepted
  · obtain ⟨a, hAccepted, rfl⟩ :=
      (h.indexes.accepted key).mp ((Fleet.safe_init.run hFleetIndexes).items id key hKey)
    exact hIndexes a hAccepted

/-- Every process holds the pairs of every accepted configuration. -/
theorem Rollout.holds (hIdeal : prim.Ideal) (hTotal : prim.Total)
    (hCodec : app.F.codec.RoundTrips) (hDistinct : Distinguishes prim app Known)
    (hRun : Rollout.Run prim Known .init s) {p : P} {keys : Snapshot}
    (hServing : s.serving p = some keys) {a : Snapshot × Canary} (hAccepted : a ∈ s.accepted) :
    keys.Holds a.1 := by
  obtain ⟨e, i, hFleet, hFleetIndexes, h⟩ :=
    Rollout.simulation hIdeal hTotal hCodec hDistinct hRun
  exact h.holds_serving (Fleet.safe_init.run hFleet) (Fleet.safe_init.run hFleetIndexes) hServing
    hAccepted

/-- Every row names pairs of accepted configurations. -/
theorem Rollout.named (hIdeal : prim.Ideal) (hTotal : prim.Total)
    (hCodec : app.F.codec.RoundTrips) (hDistinct : Distinguishes prim app Known)
    (hRun : Rollout.Run prim Known .init s) {id : Int} {named : KeyId × IndexKeyId}
    (hNamed : generations app s.users id = .ok named) :
    (∃ a ∈ s.accepted, a.1.encryption.current.id = named.1) ∧
      ∃ a ∈ s.accepted, a.1.indexes.current.id = named.2 := by
  obtain ⟨e, i, hFleet, hFleetIndexes, h⟩ :=
    Rollout.simulation hIdeal hTotal hCodec hDistinct hRun
  obtain ⟨-, -, hNone⟩ | ⟨row, sealedKey, indexKey, -, hSealedKey, hIndexKey, hGenerations⟩ :=
    h.item id
  · exact absurd hNamed (hNone named)
  · cases hGenerations.symm.trans hNamed
    obtain ⟨a, hAccepted, rfl⟩ :=
      (h.encryption.accepted _).mp ((Fleet.safe_init.run hFleet).items id _ hSealedKey)
    obtain ⟨b, hAcceptedIndex, rfl⟩ :=
      (h.indexes.accepted _).mp ((Fleet.safe_init.run hFleetIndexes).items id _ hIndexKey)
    exact ⟨⟨a, hAccepted, rfl⟩, b, hAcceptedIndex, rfl⟩

/-- **Rotating both roles behind the gate is invisible**: at every moment of every run, every
process reads what was put, and a search of every process finds exactly the rows whose value has
the normalized bytes of the query. -/
theorem Rollout.rotation_safe (hIdeal : prim.Ideal) (hTotal : prim.Total)
    (hCodec : app.F.codec.RoundTrips) (hDistinct : Distinguishes prim app Known)
    (hRun : Rollout.Run prim Known .init s) {p : P} {keys : Snapshot}
    (hServing : s.serving p = some keys) :
    (∀ id, get prim app s.users id keys.encryption =
        (s.origin id).elim (.error .rowNotFound) .ok) ∧
      ∀ query normalized select, app.spec.normalizeQuery query = .ok normalized →
        (∀ tokens, Selects s.users tokens (select tokens)) →
        ∃ ids rejected, search prim app query keys select = .ok (ids, rejected) ∧
          ids.Pairwise (· < ·) ∧ ∀ id, id ∈ ids ↔ ∃ value, s.origin id = some (some value) ∧
            app.spec.normalizeValue value = .ok normalized := by
  have hHolds (a : Snapshot × Canary) (hAccepted : a ∈ s.accepted) : keys.Holds a.1 :=
    Rollout.holds hIdeal hTotal hCodec hDistinct hRun hServing hAccepted
  have hAgrees : keys.Agrees prim s.users s.origin := by
    apply Rollout.agrees hIdeal hTotal hCodec hDistinct hRun
    · intro a hAccepted key hKey
      exact Option.some.inj (hKey.symm.trans (hHolds a hAccepted).1)
    · intro a hAccepted key hKey
      exact Option.some.inj (hKey.symm.trans (hHolds a hAccepted).2)
  have hNames (id : Int) (named : KeyId × IndexKeyId)
      (hNamed : generations app s.users id = .ok named) :
      (keys.encryption.get named.1).isSome ∧ (keys.indexes.get named.2).isSome := by
    obtain ⟨⟨a, hAccepted, hId⟩, b, hAcceptedIndex, hIndexId⟩ :=
      Rollout.named hIdeal hTotal hCodec hDistinct hRun hNamed
    rw [← hId, ← hIndexId, (hHolds a hAccepted).1, (hHolds b hAcceptedIndex).2]
    exact ⟨rfl, rfl⟩
  exact hAgrees.exact hTotal hCodec hNames

/-- **What a configuration that skips the gate costs**, after every run: with pairs of its own
that contradict no accepted one, a process cannot read exactly the rows whose encryption pair it
lacks, and if it lacks none, its searches omit exactly the rows whose index pair it lacks. -/
theorem Rollout.rollback_exact (hIdeal : prim.Ideal) (hTotal : prim.Total)
    (hCodec : app.F.codec.RoundTrips) (hDistinct : Distinguishes prim app Known)
    (hRun : Rollout.Run prim Known .init s) {keys : Snapshot}
    (hEncryption : ∀ a ∈ s.accepted, ∀ key,
      keys.encryption.get a.1.encryption.current.id = some key → key = a.1.encryption.current)
    (hIndexes : ∀ a ∈ s.accepted, ∀ key,
      keys.indexes.get a.1.indexes.current.id = some key → key = a.1.indexes.current) :
    (∀ id value, s.origin id = some (some value) → ∃ named,
      generations app s.users id = .ok named ∧
        get prim app s.users id keys.encryption =
          if (keys.encryption.get named.1).isSome then .ok (some value)
          else .error (.cryptbox (.err (.unknownEncryptionKey named.1)))) ∧
      ((∀ id named, generations app s.users id = .ok named →
          (keys.encryption.get named.1).isSome) →
        ∀ query normalized select, app.spec.normalizeQuery query = .ok normalized →
          (∀ tokens, Selects s.users tokens (select tokens)) →
          ∃ ids rejected, search prim app query keys select = .ok (ids, rejected) ∧
            ids.Pairwise (· < ·) ∧ ∀ id, id ∈ ids ↔ ∃ value named,
              s.origin id = some (some value) ∧ app.spec.normalizeValue value = .ok normalized ∧
                generations app s.users id = .ok named ∧
                (keys.indexes.get named.2).isSome) := by
  have hAgrees := Rollout.agrees hIdeal hTotal hCodec hDistinct hRun hEncryption hIndexes
  constructor
  · intro id value hOrigin
    exact hAgrees.get hCodec hOrigin
  · intro hOpens query normalized select hQuery hSelect
    exact hAgrees.search hTotal hCodec hOpens hQuery hSelect

end

/-! ## A run

One process puts the plaintext of the vectors, both roles are rotated, and the first generations
retire. -/

namespace Vectors

open Cryptbox.Vectors

/-- Known answers for both generations. -/
def knownGenerations : KnownAnswers where
  hashes := known.hashes
  macs := known.macs
  aead := knownRotation.aead ++ known.aead
  unambiguous := by decide

def generationsPrim : Primitives := .answering knownGenerations

/-- An index key of a later generation. -/
def nextIndexKey : BlindIndexKey :=
  ⟨⟨beBlock 16 0xbbbbbbbbbbbb4ccc8dddeeeeeeeeeeee⟩, ⟨List.replicate 32 0x66, List.length_replicate⟩⟩

def rotatedIndexKeyring : BlindIndexKeyring :=
  (BlindIndexKeyring.new nextIndexKey [indexKey]).toOption.getD indexKeyring

def stagedKeyring : EncryptionKeyring :=
  (EncryptionKeyring.new previousKey [encryptionKey]).toOption.getD encryptionKeyring

def stagedIndexKeyring : BlindIndexKeyring :=
  (BlindIndexKeyring.new indexKey [nextIndexKey]).toOption.getD indexKeyring

def nextIndex : Bytes := be 19 0x02bbbbbbbbbbbb4ccc8dddeeeeeeeeeeee000d ++ [0, 0]

/-- The first generations. -/
def baseline : Snapshot := ⟨.single previousKey, indexKeyring⟩

/-- The first generations write, and the next ones are readable. -/
def staged : Snapshot := ⟨stagedKeyring, stagedIndexKeyring⟩

def rotated : Snapshot := ⟨rotatedKeyring, rotatedIndexKeyring⟩

/-- The first generations are gone. -/
def reduced : Snapshot := ⟨encryptionKeyring, .single nextIndexKey⟩

/-- The next index pair was dropped. -/
def indexDropped : Snapshot := ⟨rotatedKeyring, indexKeyring⟩

/-- The index keys in use. -/
def Known (key : BlindIndexKey) : Prop := key = indexKey ∨ key = nextIndexKey

instance : DecidablePred Known := fun _ => inferInstanceAs (Decidable (_ ∨ _))

theorem distinguishes : Distinguishes generationsPrim application Known := by
  rintro key key' stored (rfl | rfl) (rfl | rfl) hId - -
  · rfl
  · exact absurd hId (by decide)
  · exact absurd hId (by decide)
  · rfl

def baselineCanary : Snapshot × Canary := (baseline, ⟨previousEnvelope, Cryptbox.Vectors.index⟩)

def rotatedCanary : Snapshot × Canary := (rotated, ⟨envelope, nextIndex⟩)

/-- One process, and one row. -/
def rollout (row : Option (Option UserRow)) (email : Option (Option application.F.Value))
    (serving : Option Snapshot) (accepted : List (Snapshot × Canary)) : Rollout application Unit :=
  ⟨atSeven row, fun _ => serving, accepted, atSeven email⟩

def firstRow : UserRow := ⟨previousEnvelope, Cryptbox.Vectors.index⟩

def nextRow : UserRow := ⟨envelope, nextIndex⟩

variable {row : Option (Option UserRow)} {email : Option (Option application.F.Value)}
  {serving : Option Snapshot} {accepted : List (Snapshot × Canary)}

theorem rollout_deploy (keys : Snapshot) (hKnown : ∀ key ∈ keys.indexes.readable, Known key)
    (hReady : ∀ a ∈ accepted, rotationReady generationsPrim application keys a.2 = .ok ())
    (hEncryption : ∃ a ∈ accepted, a.1.encryption.current.id = keys.encryption.current.id)
    (hIndexes : ∃ a ∈ accepted, a.1.indexes.current.id = keys.indexes.current.id) :
    Rollout.Step generationsPrim Known (rollout row email serving accepted)
      (rollout row email (some keys) accepted) :=
  .deploy (rollout row email serving accepted) () keys
    (fun key hKey => hKnown key (Ring.mem_readable.mpr hKey)) hReady hEncryption hIndexes

theorem rollout_accept (a : Snapshot × Canary) (hKnown : Known a.1.indexes.current)
    (hMade : rotationCanary generationsPrim application a.1 (some nonce) = .ok a.2)
    (hReady : ∀ keys ∈ serving, rotationReady generationsPrim application keys a.2 = .ok ()) :
    Rollout.Step generationsPrim Known (rollout row email serving accepted)
      (rollout row email serving (a :: accepted)) :=
  .accept (rollout row email serving accepted) a.1 _ a.2 hKnown hMade
    fun _ keys hServing => hReady keys hServing

theorem rollout_put {keys : Snapshot} {stored : UserRow}
    (hPut : put generationsPrim application (some plaintext) keys (some nonce)
      = .ok (some stored)) :
    Rollout.Step generationsPrim Known (rollout row email (some keys) accepted)
      (rollout (some (some stored)) (some (some plaintext)) (some keys) accepted) := by
  have h : Rollout.Step generationsPrim Known (rollout row email (some keys) accepted) _ :=
    .put (rollout row email (some keys) accepted) () keys 7 (some plaintext) (some nonce)
      (some stored) rfl hPut
  unfold rollout at h ⊢
  rwa [update_atSeven, update_atSeven] at h

theorem rollout_rewrite {keys : Snapshot} {stored : UserRow} {outcome : RowOutcome}
    {write : RowWrite} {token : Bytes}
    (hPlan : (planner generationsPrim application keys none).planRow () stored.email
      [stored.emailLookup] (some nonce) = .ok outcome)
    (hWrite : outcome.write = some write) (hToken : write.indexes = [token]) :
    Rollout.Step generationsPrim Known (rollout (some (some stored)) email (some keys) accepted)
      (rollout (some (some ⟨write.ciphertext, token⟩)) email (some keys) accepted) := by
  have h : Rollout.Step generationsPrim Known
      (rollout (some (some stored)) email (some keys) accepted) _ :=
    .rewrite (rollout (some (some stored)) email (some keys) accepted) () keys 7 stored (some nonce)
      outcome write token rfl rfl hPlan hWrite hToken
  unfold rollout at h ⊢
  rwa [update_atSeven] at h

theorem rollout_retire {keys : Snapshot} {stored : UserRow} {kept : List (Snapshot × Canary)}
    {named : KeyId × IndexKeyId} (hKept : ∀ a ∈ kept, a ∈ accepted)
    (hNamed : generations application (atSeven (some (some stored))) 7 = .ok named)
    (hEncryption : ∀ id ∈ [keys.encryption.current.id, named.1],
      ∃ a ∈ kept, a.1.encryption.current.id = id)
    (hIndexes : ∀ id ∈ [keys.indexes.current.id, named.2],
      ∃ a ∈ kept, a.1.indexes.current.id = id) :
    Rollout.Step generationsPrim Known (rollout (some (some stored)) email (some keys) accepted)
      (rollout (some (some stored)) email (some keys) kept) := by
  refine .retire (rollout (some (some stored)) email (some keys) accepted) () keys kept rfl hKept
    ?_ ?_
  · rintro _ _ ⟨⟩
    exact ⟨hEncryption _ (.head _), hIndexes _ (.head _)⟩
  · intro id row hRow named' hNamed'
    obtain rfl : id = 7 := by
      by_contra hOther
      cases (if_neg hOther).symm.trans hRow
    cases hNamed.symm.trans hNamed'
    exact ⟨hEncryption _ (.tail _ (.head _)), hIndexes _ (.tail _ (.head _))⟩

/-- A value is put, both roles are rotated, the row is rewritten, and the first generations
retire. -/
theorem rollout_run : Rollout.Run generationsPrim Known (Rollout.init : Rollout application Unit)
    (rollout (some (some nextRow)) (some (some plaintext)) (some reduced) [rotatedCanary]) := by
  have hInit : (Rollout.init : Rollout application Unit) = rollout none none none [] := by
    have hNone {α : Type} : (fun _ => none : Int → Option α) = atSeven none :=
      funext fun _ => (ite_self _).symm
    unfold Rollout.init rollout
    rw [hNone, hNone]
  have hPlan : (planner generationsPrim application rotated none).planRow () firstRow.email
      [firstRow.emailLookup] (some nonce) = .ok ⟨.stale, some ⟨envelope, [nextIndex]⟩⟩ := by
    decide +kernel
  have hPut : put generationsPrim application (some plaintext) baseline (some nonce)
      = .ok (some firstRow) := by decide +kernel
  have hNamed : generations application (atSeven (some (some nextRow))) 7
      = .ok (encryptionKey.id, nextIndexKey.id) := by decide +kernel
  have hKept : ∀ a ∈ [rotatedCanary], a ∈ [rotatedCanary, baselineCanary] :=
    fun a hMem => List.mem_append_left _ hMem
  rw [hInit]
  exact Relation.ReflTransGen.refl
    |>.tail (rollout_accept baselineCanary (by decide) (by decide +kernel) (by simp))
    |>.tail (rollout_deploy baseline (by decide) (by decide +kernel) (by decide) (by decide))
    |>.tail (rollout_put hPut)
    |>.tail (rollout_deploy staged (by decide) (by decide +kernel) (by decide) (by decide))
    |>.tail (rollout_accept rotatedCanary (by decide) (by decide +kernel) (by decide +kernel))
    |>.tail (rollout_deploy rotated (by decide) (by decide +kernel) (by decide) (by decide))
    |>.tail (rollout_rewrite hPlan rfl rfl)
    |>.tail (rollout_retire hKept hNamed (by decide) (by decide))
    |>.tail (rollout_deploy reduced (by decide) (by decide +kernel) (by decide) (by decide))

end Vectors

open Cryptbox.Vectors in
theorem Rollout.rotation_safe_vector :
    get Vectors.generationsPrim Vectors.application
        (Vectors.atSeven (some (some Vectors.nextRow))) 7 Vectors.reduced.encryption
      = .ok (some plaintext) ∧
    ∃ ids rejected,
      search Vectors.generationsPrim Vectors.application plaintext Vectors.reduced
        (fun tokens => if Vectors.nextRow.emailLookup ∈ tokens then [(7, Vectors.nextRow)] else [])
          = .ok (ids, rejected) ∧ 7 ∈ ids := by
  obtain ⟨hGet, hSearch⟩ := Rollout.rotation_safe (KnownAnswers.ideal (by decide))
    (KnownAnswers.primitives_total _) Codec.raw_roundTrips Vectors.distinguishes
    Vectors.rollout_run (show (Vectors.rollout _ _ _ _).serving () = _ from rfl)
  refine ⟨hGet 7, ?_⟩
  obtain ⟨ids, rejected, hFound, -, hIds⟩ := hSearch plaintext plaintext _ rfl
    (Vectors.selects_seven Vectors.nextRow)
  exact ⟨ids, rejected, hFound, (hIds 7).mpr ⟨plaintext, rfl, rfl⟩⟩

open Cryptbox.Vectors in
/-- Without its index pair, the row is read and not found. -/
theorem Rollout.rollback_exact_vector :
    get Vectors.generationsPrim Vectors.application
        (Vectors.atSeven (some (some Vectors.nextRow))) 7 Vectors.indexDropped.encryption
      = .ok (some plaintext) ∧
    ∃ ids rejected,
      search Vectors.generationsPrim Vectors.application plaintext Vectors.indexDropped
        (fun tokens => if Vectors.nextRow.emailLookup ∈ tokens then [(7, Vectors.nextRow)] else [])
          = .ok (ids, rejected) ∧ 7 ∉ ids := by
  have hNamed : generations Vectors.application (Vectors.atSeven (some (some Vectors.nextRow))) 7
      = .ok (encryptionKey.id, Vectors.nextIndexKey.id) := by decide +kernel
  have hHeld : Vectors.indexDropped.encryption.get encryptionKey.id = some encryptionKey := by
    decide +kernel
  have hDropped : Vectors.indexDropped.indexes.get Vectors.nextIndexKey.id = none := by
    decide +kernel
  have hEncryption (a : Snapshot × Canary) (hAccepted : a ∈ [Vectors.rotatedCanary])
      (key : EncryptionKey) (hKey : Vectors.indexDropped.encryption.get
        a.1.encryption.current.id = some key) : key = a.1.encryption.current := by
    cases List.mem_singleton.mp hAccepted
    exact Option.some.inj (hKey.symm.trans hHeld)
  have hIndexes (a : Snapshot × Canary) (hAccepted : a ∈ [Vectors.rotatedCanary])
      (key : BlindIndexKey) (hKey : Vectors.indexDropped.indexes.get
        a.1.indexes.current.id = some key) : key = a.1.indexes.current := by
    cases List.mem_singleton.mp hAccepted
    cases hDropped.symm.trans hKey
  obtain ⟨hGet, hSearch⟩ := Rollout.rollback_exact (KnownAnswers.ideal (by decide))
    (KnownAnswers.primitives_total _) Codec.raw_roundTrips Vectors.distinguishes
    Vectors.rollout_run hEncryption hIndexes
  have hNames (id : Int) (named : KeyId × IndexKeyId)
      (h : generations Vectors.application (Vectors.atSeven (some (some Vectors.nextRow))) id
        = .ok named) : named = (encryptionKey.id, Vectors.nextIndexKey.id) := by
    by_cases hId : id = 7
    · subst hId
      exact Except.ok.inj (h.symm.trans hNamed)
    · unfold generations Vectors.atSeven at h
      rw [if_neg hId] at h
      cases h
  constructor
  · obtain ⟨named, hRow, hValue⟩ := hGet 7 plaintext rfl
    obtain rfl := hNames 7 named hRow
    exact hValue.trans (if_pos (by rw [hHeld]; rfl))
  · obtain ⟨ids, rejected, hFound, -, hIds⟩ := hSearch
      (fun id named h => by rw [hNames id named h, hHeld]; rfl) plaintext plaintext _ rfl
      (Vectors.selects_seven Vectors.nextRow)
    refine ⟨ids, rejected, hFound, fun hMem => ?_⟩
    obtain ⟨value, named, -, -, hRow, hReadable⟩ := (hIds 7).mp hMem
    obtain rfl := hNames 7 named hRow
    rw [hDropped] at hReadable
    cases hReadable

end Cryptbox.Searchable

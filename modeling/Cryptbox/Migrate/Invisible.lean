import Cryptbox.History
import Cryptbox.Migrate.System

/-!
# Sweeps are invisible to readers

What stored bytes mean to a reader is the value their envelope opens to, or the value legacy
bytes are recovered as (`meaning`). A permissive read returns just that; a strict read does for
envelopes. A plan writes what means the same to everyone who reads at least the planner's keys,
so readers see what writers stored, at every moment of every run of any number of workers, whose
keyrings need not agree.

* `Ring.Extends`, `Bound.open_extends`: what opens, opens with more keys.
* `readMaybe_eq`, `readSealed_eq`: the two ways to read, in terms of `meaning`.
* `RowPlanner.sameMeaning_planRow`: a plan keeps the meaning, errors included.
* `System.refines_run`: workers that do not share a planner refine the abstract store too.
* `System.sweep_invisible`: readers see what writers stored.
-/

namespace Cryptbox

open Base Envelope

/-! ## More keys -/

/-- Every key of `writer` is one of `reader`, with the same material. -/
def Ring.Extends {tag : IdTag} (reader writer : Ring tag) : Prop :=
  ∀ id key, writer.get id = some key → reader.get id = some key

theorem Ring.Extends.refl {tag : IdTag} (ring : Ring tag) : ring.Extends ring :=
  fun _ _ h => h

variable {prim : Primitives} {F : Seal} {R C E W : Type}

/-- What opens, opens with more keys. -/
theorem Bound.open_extends {context : SealContext} {bytes plaintext : Bytes}
    {reader writer : EncryptionKeyring} (hExtends : reader.Extends writer)
    (h : Bound.open prim context bytes writer = .ok plaintext) :
    Bound.open prim context bytes reader = .ok plaintext := by
  obtain ⟨l, key, operationalKey, decrypted, hFits, hBytes, hFingerprint, hGet, h⟩ :=
    Bound.open_eq_ok.mp h
  exact Bound.open_eq_ok.mpr
    ⟨l, key, operationalKey, decrypted, hFits, hBytes, hFingerprint, hExtends _ _ hGet, h⟩

/-! ## Reading stored bytes -/

section

variable (prim F)

/-- `MaybeSealed::from_bytes`, then `open_legacy`, or `open` without a handler. -/
def readMaybe (keys : EncryptionKeys) (legacy : Option LegacyFormat) (bytes : Bytes) :
    Result F.Value := do
  let stored ← MaybeSealed.fromBytes F bytes
  stored.openWith prim keys legacy

/-- `Sealed::from_bytes`, then `open` or `open_in`. -/
def readSealed (place : Place) (keys : EncryptionKeys) (bytes : Bytes) : Result F.Value := do
  let stored : Sealed F place.kind ← Sealed.fromBytes bytes
  stored.openAt prim place keys

/-- What stored bytes mean in a context: the value of their envelope, or of the legacy bytes. -/
def meaning (context : SealContext) (keyring : EncryptionKeyring) (legacy : Option LegacyFormat)
    (bytes : Bytes) : Result F.Value :=
  if isCiphertext bytes = true then do
    let plaintext ← Bound.open prim context bytes keyring
    mapErr (F.codec.decode plaintext) .codecFailed
  else decodeLegacy F bytes legacy

end

/-- Malformed envelopes do not open, for the reason that inspection gives. -/
theorem Bound.open_malformed {context : SealContext} {bytes : Bytes} {keyring : EncryptionKeyring}
    {f : Failure} (h : inspectCiphertext bytes = .error f) :
    Bound.open prim context bytes keyring = .error f := by
  have hParse : parseSupported bytes = .error f := map_eq_error.mp h
  unfold Bound.open check
  rw [hParse]
  rfl

theorem meaning_envelope {context : SealContext} {keyring : EncryptionKeyring}
    {legacy : Option LegacyFormat} {bytes plaintext : Bytes}
    (h : Bound.open prim context bytes keyring = .ok plaintext) :
    meaning prim F context keyring legacy bytes
      = mapErr (F.codec.decode plaintext) .codecFailed := by
  unfold meaning
  rw [if_pos (Bound.isCiphertext_of_open h), h, ok_bind]

theorem meaning_legacy {context : SealContext} {keyring : EncryptionKeyring}
    {legacy : Option LegacyFormat} {bytes : Bytes} (h : isCiphertext bytes = false) :
    meaning prim F context keyring legacy bytes = decodeLegacy F bytes legacy := by
  unfold meaning
  rw [if_neg (by rw [h]; exact Bool.false_ne_true)]

/-- `after` means what `before` means, and is an envelope if that is one. -/
structure SameMeaning (prim : Primitives) (F : Seal) (context : SealContext)
    (keyring : EncryptionKeyring) (legacy : Option LegacyFormat) (before after : Bytes) : Prop where
  meaning : meaning prim F context keyring legacy after
    = meaning prim F context keyring legacy before
  envelope : isCiphertext before = true → isCiphertext after = true

theorem SameMeaning.refl {context : SealContext} {keyring : EncryptionKeyring}
    {legacy : Option LegacyFormat} (bytes : Bytes) :
    SameMeaning prim F context keyring legacy bytes bytes :=
  ⟨rfl, id⟩

theorem SameMeaning.trans {context : SealContext} {keyring : EncryptionKeyring}
    {legacy : Option LegacyFormat} {a b c : Bytes}
    (hab : SameMeaning prim F context keyring legacy a b)
    (hbc : SameMeaning prim F context keyring legacy b c) :
    SameMeaning prim F context keyring legacy a c :=
  ⟨hbc.meaning.trans hab.meaning, fun h => hbc.envelope (hab.envelope h)⟩

/-- **A permissive read** returns what the bytes mean. -/
theorem readMaybe_eq (keys : EncryptionKeys) (legacy : Option LegacyFormat) (bytes : Bytes) :
    readMaybe prim F keys legacy bytes
      = meaning prim F (.standalone prim F) keys.encryptionKeyring legacy bytes := by
  unfold readMaybe
  rcases inspectCiphertext_cases bytes with ⟨hMagic, l, -, -, hInspect⟩ | ⟨hMagic, -⟩ |
    ⟨hMagic, e, hBad, hInspect⟩
  · have hRead : MaybeSealed.fromBytes F bytes = .ok (.sealed ⟨bytes, _, hInspect⟩) :=
      MaybeSealed.fromBytes_sealed ⟨bytes, _, hInspect⟩
    rw [hRead, ok_bind, meaning, if_pos hMagic]
    rfl
  · rw [MaybeSealed.fromBytes_legacy hMagic, ok_bind, meaning_legacy hMagic]
    rfl
  · have hAttach : attach (inspectCiphertext bytes) = err e := attach_eq_error.mpr hInspect
    have hRead : MaybeSealed.fromBytes F bytes = err e := by
      unfold MaybeSealed.fromBytes
      rw [hAttach]
      cases e <;> first | exact hBad.elim | rfl
    rw [hRead, meaning, if_pos hMagic, Bound.open_malformed hInspect]
    rfl

/-- **A strict read** returns what an envelope means, and refuses legacy bytes. -/
theorem readSealed_eq (place : Place) (keys : EncryptionKeys) (legacy : Option LegacyFormat)
    (bytes : Bytes) :
    readSealed prim F place keys bytes =
      if isCiphertext bytes = true then
        meaning prim F (place.context prim F) keys.encryptionKeyring legacy bytes
      else err .notCiphertext := by
  unfold readSealed
  rcases inspectCiphertext_cases bytes with ⟨hMagic, l, -, -, hInspect⟩ | ⟨hMagic, hInspect⟩ |
    ⟨hMagic, e, -, hInspect⟩
  · have hRead : Sealed.fromBytes bytes = .ok (⟨bytes, _, hInspect⟩ : Sealed F place.kind) :=
      Sealed.fromBytes_eq_ok.mpr rfl
    rw [hRead, ok_bind, if_pos hMagic, Sealed.openAt_eq, meaning, if_pos hMagic]
    rfl
  · have hRead : (Sealed.fromBytes bytes : Result (Sealed F place.kind)) = err .notCiphertext :=
      Sealed.fromBytes_eq_error.mpr (map_eq_error.mp hInspect)
    rw [hRead, if_neg (by rw [hMagic]; exact Bool.false_ne_true)]
    rfl
  · have hRead : (Sealed.fromBytes bytes : Result (Sealed F place.kind)) = err e :=
      Sealed.fromBytes_eq_error.mpr (map_eq_error.mp hInspect)
    rw [hRead, if_pos hMagic, meaning, if_pos hMagic, Bound.open_malformed hInspect]
    rfl

/-! ## Plans keep the meaning -/

namespace RowPlanner

variable {planner : RowPlanner prim F R} {row : R} {ciphertext : Bytes} {indexes : List Bytes}
  {draw : Option Nonce} {outcome : RowOutcome} {write : RowWrite}

/-- **A plan keeps the meaning** for everyone who reads the planner's keys, whether or not the
old bytes could be read. -/
theorem sameMeaning_planRow (hAead : prim.DecryptsEncrypted) (hCodec : F.codec.RoundTrips)
    {reader : EncryptionKeyring} (hReader : reader.Extends planner.keys)
    (h : planner.planRow row ciphertext indexes draw = .ok outcome)
    (hWrite : outcome.write = some write) :
    SameMeaning prim F (planner.context row) reader planner.legacy ciphertext
      write.ciphertext := by
  obtain ⟨-, ⟨rfl, -⟩ | ⟨write', plaintext, rfl, hRewrite⟩ |
    ⟨write', recovered, value, encoded, rfl, hRewrite⟩⟩ := planRow_cases h
  · cases hWrite
  · obtain rfl := Option.some.inj hWrite
    have hNew := open_envelopeRewrite hAead hRewrite
    refine ⟨?_, fun _ => Bound.isCiphertext_of_open hNew⟩
    rw [meaning_envelope (Bound.open_extends hReader hNew),
      meaning_envelope (Bound.open_extends hReader hRewrite.opens)]
  · obtain rfl := Option.some.inj hWrite
    have hNew := Bound.open_seal hAead hRewrite.sealed planner.keys.get_current
    have hOld : decodeLegacy F ciphertext planner.legacy = .ok value :=
      bind_eq_ok.mpr ⟨recovered, mapErr_eq_ok.mpr hRewrite.recovered,
        mapErr_eq_ok.mpr hRewrite.decoded⟩
    refine ⟨?_, fun _ => Bound.isCiphertext_of_open hNew⟩
    rw [meaning_envelope (Bound.open_extends hReader hNew), meaning_legacy hRewrite.legacy, hOld]
    exact mapErr_eq_ok.mpr (hCodec _ _ hRewrite.encodes)

end RowPlanner

/-! ## Runs -/

namespace System

variable [LinearOrder C] [DecidableEq W] {sweeps : W → Sweep prim F R} {columns : C → R → Prop}
  {Allowed : C → StoredRow R → Prop} {s t : System C R E W}

/-- Writers store what is allowed, and every worker rewrites by the plans of its own planner. -/
def rulesOf (sweeps : W → Sweep prim F R) (columns : C → R → Prop)
    (Allowed : C → StoredRow R → Prop) : RewriteRules C (StoredRow R) :=
  ⟨Allowed, fun x v v' => ∃ w, PlannedRewrite (sweeps w).planner columns x v v'⟩

theorem refines_step (h : Holds sweeps columns s) (hStep : Step sweeps Allowed s t) :
    t.shared = s.shared ∨ (rulesOf sweeps columns Allowed).Step s.shared t.shared := by
  cases hStep with
  | writer hWriter =>
    cases hWriter with
    | put x v hAllowed => exact Or.inr (.put _ x v hAllowed)
    | erase x => exact Or.inr (.erase _ x)
  | worker w hWorker =>
    have hOrigin : t.origin = s.origin := hWorker.inversion.1
    unfold shared
    rw [hOrigin]
    rcases effects_of_workerStep hWorker with hDb | ⟨state, hState, hEffects⟩
    · rw [hDb]
      exact Or.inl rfl
    · rcases hEffects.table (h.workers w state hState) with hTable | ⟨x, v, v', hOld, hPlan, hTable⟩
      · rw [hTable]
        exact Or.inl rfl
      · rw [hTable]
        exact Or.inr (.rewrite ⟨s.db.table, s.origin⟩ x v v' hOld ⟨w, hPlan⟩)

/-- **Workers that do not share a planner** refine the abstract store too. -/
theorem refines_run (hAllowed : ∀ x v, Allowed x v → columns x v.columns)
    (h : Holds sweeps columns s) (hRun : Run sweeps Allowed s t) :
    Holds sweeps columns t ∧ (rulesOf sweeps columns Allowed).Run s.shared t.shared := by
  induction hRun with
  | refl => exact ⟨h, .refl⟩
  | tail _ hLast ih =>
    obtain ⟨hHolds, hShared⟩ := ih
    refine ⟨hHolds.step hAllowed hLast, ?_⟩
    rcases refines_step hHolds hLast with hSame | hStep
    · rw [hSame]
      exact hShared
    · exact hShared.tail hStep

/-- What writers stored along a run, the writers alone store. -/
theorem writers_run {table : C → Option (StoredRow R)} (hRun : Run sweeps Allowed (init table) s) :
    Relation.ReflTransGen (WriterStep Allowed) (init table : System C R E W) (init s.origin) := by
  induction hRun with
  | refl => exact .refl
  | @tail a b _ hLast ih =>
    cases hLast with
    | writer hWriter =>
      cases hWriter with
      | put x v hAllowed => exact ih.tail (.put (init a.origin) x v hAllowed)
      | erase x => exact ih.tail (.erase (init a.origin) x)
    | worker w hWorker =>
      rw [hWorker.inversion.1]
      exact ih

omit [LinearOrder C] [DecidableEq W] in
/-- Whatever worker rewrites a row, it means what it meant. -/
theorem sameMeaning_rewrite (hAead : prim.DecryptsEncrypted) (hCodec : F.codec.RoundTrips)
    {legacy : Option LegacyFormat} (hLegacy : ∀ w, (sweeps w).planner.legacy = legacy)
    {place : C → Place}
    (hColumns : ∀ x r, columns x r → ∀ w, (sweeps w).planner.recordId r = (place x).recordId)
    {reader : EncryptionKeyring} (hReader : ∀ w, reader.Extends (sweeps w).planner.keys)
    (x : C) (v v' : StoredRow R) (h : (rulesOf sweeps columns Allowed).Rewrite x v v') :
    SameMeaning prim F ((place x).context prim F) reader legacy v.ciphertext v'.ciphertext := by
  obtain ⟨w, read, draw, state, write, hRead, hPlan, rfl⟩ := h
  have hContext : (sweeps w).planner.context read = (place x).context prim F :=
    congrArg (SealContext.new prim F.id) (hColumns x read hRead w)
  have hSame := RowPlanner.sameMeaning_planRow hAead hCodec (hReader w) hPlan rfl
  rw [hContext, hLegacy w] at hSame
  exact hSame

/-- **Sweeps are invisible to readers.** Any number of workers, each with keyrings of its own,
run beside writers and crash and start again. For every state reached there is a run of the
writers alone to a store with the same keys, and whoever reads the workers' keys reads the same
from both: a permissive reader everywhere, with the same errors; a strict reader wherever a
writer stored an envelope; and where a writer stored legacy bytes, a strict reader is refused or
gets the value they are recovered as. -/
theorem sweep_invisible (hAead : prim.DecryptsEncrypted) (hCodec : F.codec.RoundTrips)
    (planner : W → RowPlanner prim F R) (batchSizes : W → Nat) (legacy : Option LegacyFormat)
    (hLegacy : ∀ w, (planner w).legacy = legacy) (place : C → Place)
    (table : C → Option (StoredRow R))
    (hTable : ∀ x v, table x = some v → ∀ w, (planner w).recordId v.columns = (place x).recordId)
    {s : System C R E W}
    (hRun : Run (fun w => (Sweep.new (planner w)).withBatchSize (batchSizes w))
      (fun x v => ∀ w, (planner w).recordId v.columns = (place x).recordId) (init table) s)
    (reader : EncryptionKeys) (hReader : ∀ w, reader.encryptionKeyring.Extends (planner w).keys) :
    ∃ u : System C R E W,
      Relation.ReflTransGen
        (WriterStep fun x v => ∀ w, (planner w).recordId v.columns = (place x).recordId)
        (init table) u ∧
      (∀ x, s.db.table x = none ↔ u.db.table x = none) ∧
      ∀ x v o, s.db.table x = some v → u.db.table x = some o →
        (place x = .standalone →
          readMaybe prim F reader legacy v.ciphertext
            = readMaybe prim F reader legacy o.ciphertext) ∧
        (isCiphertext o.ciphertext = true →
          readSealed prim F (place x) reader v.ciphertext
            = readSealed prim F (place x) reader o.ciphertext) ∧
        (isCiphertext o.ciphertext = false →
          readSealed prim F (place x) reader v.ciphertext = err .notCiphertext ∨
            readSealed prim F (place x) reader v.ciphertext
              = decodeLegacy F o.ciphertext legacy) := by
  have hInit : Holds (fun w => (Sweep.new (planner w)).withBatchSize (batchSizes w))
      (fun x r => ∀ w, (planner w).recordId r = (place x).recordId)
      (init table : System C R E W) := holds_init hTable
  obtain ⟨-, hShared⟩ := refines_run (fun _ _ h => h) hInit hRun
  have hTraced := (Traced.init table).run hShared
  refine ⟨init s.origin, writers_run hRun, hTraced.absent, fun x v o hStored hOrigin => ?_⟩
  obtain ⟨hMeaning, hMagic⟩ := hTraced.related
    (r := fun x a b => SameMeaning prim F ((place x).context prim F) reader.encryptionKeyring
      legacy a.ciphertext b.ciphertext)
    (fun _ v => .refl v.ciphertext) (fun _ _ _ _ => .trans)
    (fun x v v' h => sameMeaning_rewrite hAead hCodec hLegacy (fun _ _ h => h) hReader x v v' h)
    hOrigin hStored
  refine ⟨fun hPlace => ?_, fun hEnvelope => ?_, fun hBytes => ?_⟩
  · rw [hPlace] at hMeaning
    rw [readMaybe_eq, readMaybe_eq]
    exact hMeaning
  · rw [readSealed_eq _ _ legacy, readSealed_eq _ _ legacy, if_pos hEnvelope,
      if_pos (hMagic hEnvelope), hMeaning]
  · rw [readSealed_eq _ _ legacy]
    split
    · exact Or.inr (hMeaning.trans (meaning_legacy hBytes))
    · exact Or.inl rfl

end System

open Vectors in
/-- The swept store reads as some store that the writers alone leave: the row that the writer
sealed, and the row that the sweep did. -/
theorem System.sweep_invisible_vector :
    ∃ u : System Nat Unit Empty Bool,
      Relation.ReflTransGen
        (WriterStep fun _ v => ∀ _ : Bool, Vectors.planner.recordId v.columns = none)
        (System.init (twoRows legacyRow legacyRow)) u ∧
      ∀ x v o, swept.db.table x = some v → u.db.table x = some o →
        readMaybe Vectors.prim vectorSeal (.keyring encryptionKeyring) none v.ciphertext
          = readMaybe Vectors.prim vectorSeal (.keyring encryptionKeyring) none o.ciphertext := by
  obtain ⟨u, hWriters, -, hReads⟩ := System.sweep_invisible Vectors.decryptsEncrypted
    Vectors.roundTrips (fun _ => Vectors.planner) (fun _ => 2) none (fun _ => rfl)
    (fun _ => .standalone) (twoRows legacyRow legacyRow) (fun _ _ _ _ => rfl)
    (sweep_run fun _ => rfl) (.keyring encryptionKeyring) (fun _ => Ring.Extends.refl _)
  exact ⟨u, hWriters, fun x v o hStored hOrigin => (hReads x v o hStored hOrigin).1 rfl⟩

end Cryptbox

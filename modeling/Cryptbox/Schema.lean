import Cryptbox.Base.Grouping
import Cryptbox.Id.Text
import Cryptbox.SealContext

/-!
# The schema manifest

`schema.rs`. An application registers its seals, blind indexes and records, and the manifest
lists their persistent schema. A registration names a Rust type; `Schema` says what the types
of the application declare. Entries are told apart by the type they were made for, so that
registering a type twice makes one entry.

* `Manifest.register`: the four registrations.
* `Manifest.duplicates`: the IDs that several markers, contexts or record fields share.
* `Manifest.lines`: the manifest as text.
-/

namespace Cryptbox

open Base

/-! ## What the types declare -/

/-- The constants of `Seal` and the ID of its codec. -/
structure SealConsts where
  id : SealId
  codec : String
  padding : Padding

/-- The constants of `BlindIndexSpec` and its seal. -/
structure IndexConsts (TypeId : Type) where
  id : IndexId
  sealType : TypeId
  bits : UInt16
  normalizer : String

/-- The constants of `Record` and the kind of its context. -/
structure RecordConsts where
  seals : List SealId
  recordId : String
  context : Option RecordKind
  plaintext : List String

/-- The types of an application: their names, and what those that implement a trait declare. -/
structure Schema (TypeId : Type) where
  typeName : TypeId → String
  sealConsts : TypeId → SealConsts
  indexConsts : TypeId → IndexConsts TypeId
  recordConsts : TypeId → RecordConsts

/-! ## Entries -/

structure SealEntry (TypeId : Type) where
  marker : TypeId
  name : String
  id : SealId
  codec : String
  padding : Padding

structure IndexEntry (TypeId : Type) where
  marker : TypeId
  name : String
  id : IndexId
  sealId : SealId
  bits : UInt16
  normalizer : String

structure RecordEntry (TypeId : Type) where
  marker : TypeId
  name : String
  seals : List SealId
  recordId : String
  recordKind : Option RecordKind
  plaintext : List String

/-- A context a seal ID is registered in: by `sealed`, which names the seal's marker, or by a
record, which names only its seals' IDs. -/
structure ContextEntry (TypeId : Type) where
  sealId : SealId
  marker : Option TypeId
  recordKind : Option RecordKind
  deriving DecidableEq

@[ext] structure Manifest (TypeId : Type) where
  seals : List (SealEntry TypeId) := []
  indexes : List (IndexEntry TypeId) := []
  records : List (RecordEntry TypeId) := []
  contexts : List (ContextEntry TypeId) := []

section

variable {TypeId : Type} [DecidableEq TypeId] (schema : Schema TypeId)

namespace Schema

def sealEntry (F : TypeId) : SealEntry TypeId where
  marker := F
  name := schema.typeName F
  id := (schema.sealConsts F).id
  codec := (schema.sealConsts F).codec
  padding := (schema.sealConsts F).padding

def indexEntry (I : TypeId) : IndexEntry TypeId where
  marker := I
  name := schema.typeName I
  id := (schema.indexConsts I).id
  sealId := (schema.sealConsts (schema.indexConsts I).sealType).id
  bits := (schema.indexConsts I).bits
  normalizer := (schema.indexConsts I).normalizer

def recordEntry (R : TypeId) : RecordEntry TypeId where
  marker := R
  name := schema.typeName R
  seals := (schema.recordConsts R).seals
  recordId := (schema.recordConsts R).recordId
  recordKind := (schema.recordConsts R).context
  plaintext := (schema.recordConsts R).plaintext

/-- The context that `sealed` registers a seal in. -/
def sealedContext (F : TypeId) (C : Option RecordKind) : ContextEntry TypeId :=
  ⟨(schema.sealConsts F).id, some F, C⟩

/-- The contexts of a record's seals. -/
def recordContexts (R : TypeId) : List (ContextEntry TypeId) :=
  (schema.recordConsts R).seals.map fun id => ⟨id, none, (schema.recordConsts R).context⟩

end Schema

/-! ## Registrations -/

inductive Registration (TypeId : Type) where
  | «seal» (F : TypeId)
  | sealed (F : TypeId) (C : Option RecordKind)
  | index (I : TypeId)
  | record (R : TypeId)
  deriving DecidableEq

/-- Registers a seal, unless its marker is registered. -/
def Manifest.seal (m : Manifest TypeId) (F : TypeId) : Manifest TypeId :=
  { m with seals := pushBy SealEntry.marker m.seals (schema.sealEntry F) }

namespace Manifest

/-- Registers a seal and a context its values are stored in. -/
def sealed (m : Manifest TypeId) (F : TypeId) (C : Option RecordKind) : Manifest TypeId :=
  Manifest.seal schema { m with contexts := pushNew m.contexts (schema.sealedContext F C) } F

def index (m : Manifest TypeId) (I : TypeId) : Manifest TypeId :=
  { m with indexes := pushBy IndexEntry.marker m.indexes (schema.indexEntry I) }

/-- Registers a record, and its seals in its context, unless its marker is registered. -/
def record (m : Manifest TypeId) (R : TypeId) : Manifest TypeId :=
  if m.records.all fun record => record.marker ≠ R then
    { m with
      records := m.records ++ [schema.recordEntry R]
      contexts := m.contexts ++ schema.recordContexts R }
  else m

def register (m : Manifest TypeId) : Registration TypeId → Manifest TypeId
  | .seal F => m.seal schema F
  | .sealed F C => m.sealed schema F C
  | .index I => m.index schema I
  | .record R => m.record schema R

/-- The manifest after registrations, in order. -/
def registered (registrations : List (Registration TypeId)) : Manifest TypeId :=
  registrations.foldl (register schema) {}

end Manifest

end

/-! ## Duplicates -/

/-- An ID that more than one registered marker, context or record field declares. -/
inductive Duplicate where
  | «seal» (id : SealId) (markers : List String)
  | index (id : IndexId) (markers : List String)
  | context (id : SealId) (contexts : List (Block 8))
  | recordField (id : SealId) (records : List String)
  deriving DecidableEq

/-- Groups marker names by ID, in order of first appearance, keeping only shared IDs. -/
def sharedIds {Id : Type} [DecidableEq Id] (entries : List (Id × String)) :
    List (Id × List String) :=
  shared (fun markers marker => markers ++ [marker]) entries

namespace Manifest

variable {TypeId : Type} (m : Manifest TypeId) (prim : Primitives)

/-- Groups the kinds of context of each seal ID, in order of first appearance, keeping only seal
IDs in more than one. -/
def sharedContexts : List (SealId × List (Option RecordKind)) :=
  shared pushNew (m.contexts.map fun context => (context.sealId, context.recordKind))

def duplicates : List Duplicate :=
  (sharedIds (m.seals.map fun entry => (entry.id, entry.name))).map
      (fun shared => .seal shared.1 shared.2)
    ++ (sharedIds (m.indexes.map fun entry => (entry.id, entry.name))).map
      (fun shared => .index shared.1 shared.2)
    ++ m.sharedContexts.map
      (fun shared => .context shared.1 (shared.2.map (fingerprint prim)))
    ++ (sharedIds (m.records.flatMap fun record =>
        record.seals.map fun id => (id, record.name))).map
      (fun shared => .recordField shared.1 shared.2)

end Manifest

/-! ## The manifest as text -/

def Padding.display (padding : Padding) : String :=
  match padding.policy with
  | .none => "none"
  | .block size => s!"block({size})"
  | .length len => s!"length({len})"

/-- Manifest spellings are snapshot text. -/
def RecordKind.kindName : RecordKind → String
  | .uuid => "uuid"
  | .i64 => "i64"

/-- The line of a duplicate names the ID only. -/
def Duplicate.line : Duplicate → String
  | .seal id _ => s!"duplicate seal ID {id.display}"
  | .index id _ => s!"duplicate index ID {id.display}"
  | .context id _ => s!"seal ID {id.display} in several contexts"
  | .recordField id _ => s!"seal ID {id.display} in several record fields"

section

variable {TypeId : Type} [DecidableEq TypeId] (prim : Primitives)

def contextLine (kind : Option RecordKind) : String :=
  s!"  context: {hexEncode (fingerprint prim kind).val}"

/-- The lines of a seal end with the contexts that `sealed` registered it in. -/
def SealEntry.lines (contexts : List (ContextEntry TypeId)) (entry : SealEntry TypeId) :
    List String :=
  [s!"seal {entry.id.display}", s!"  codec: {entry.codec}", s!"  padding: {entry.padding.display}"]
    ++ (contexts.filter fun context => context.marker = some entry.marker).map
      fun context => contextLine prim context.recordKind

omit [DecidableEq TypeId] in
def IndexEntry.lines (entry : IndexEntry TypeId) : List String :=
  [s!"index {entry.id.display}", s!"  seal: {entry.sealId.display}", s!"  bits: {entry.bits}",
    s!"  normalizer: {entry.normalizer}"]

omit [DecidableEq TypeId] in
def RecordEntry.lines (record : RecordEntry TypeId) : List String :=
  let kind := (record.recordKind.map RecordKind.kindName).getD "none"
  let plaintext := match record.plaintext with
    | [] => "none"
    | fields => ", ".intercalate fields
  let seals := record.seals.zipIdx.map fun (id, position) =>
    (if position = 0 then " " else ", ") ++ id.display
  ["record", "  seals:" ++ String.join seals, s!"  record id: {record.recordId}",
    s!"  record kind: {kind}", contextLine prim record.recordKind, s!"  plaintext: {plaintext}"]

def Manifest.lines (m : Manifest TypeId) : List String :=
  m.seals.flatMap (SealEntry.lines prim m.contexts)
    ++ m.indexes.flatMap IndexEntry.lines
    ++ m.records.flatMap (RecordEntry.lines prim)
    ++ (m.duplicates prim).map Duplicate.line

/-- `Display`. -/
def Manifest.display (m : Manifest TypeId) : String :=
  String.join ((m.lines prim).map fun line => line ++ "\n")

end

end Cryptbox

import Mathlib.Data.UInt
import Cryptbox.Envelope

/-!
# Seal contexts

`seal_context.rs`. A value is sealed under its seal ID and, for a record's field, the
record ID. The context's bytes enter key derivation and the AAD and are never stored; the
stored fingerprint names only which kind of record ID the context holds.

* `contextBytes_append_inj`: the encoding is prefix-free, so whatever follows a context
  cannot make two contexts look alike.
* `contextBytes_injective`: one seal ID and record ID for each context.
* `SealContext.new_fingerprint`: the fingerprint depends on the kind of record ID alone.
-/

namespace Cryptbox

open Base

/-- `FINGERPRINT_LABEL`. -/
def fingerprintLabel : Bytes := byteString "cryptbox/context-fingerprint/v1\x00"

/-- The canonical kind of a record ID. -/
inductive RecordKind where
  | uuid
  | i64
  deriving DecidableEq, Repr

/-- The persistent byte of a kind. -/
def RecordKind.code : RecordKind → UInt8
  | .uuid => 1
  | .i64 => 2

/-- The value of a record ID, tagged with its kind. -/
inductive RecordValue where
  | uuid (bytes : Block 16)
  | i64 (value : Int64)
  deriving DecidableEq

def RecordValue.kind : RecordValue → RecordKind
  | .uuid _ => .uuid
  | .i64 _ => .i64

/-- The Rust type of a record ID of a kind: `[u8; 16]` or `Uuid`, or `i64`. -/
abbrev RecordKind.Id : RecordKind → Type
  | .uuid => Block 16
  | .i64 => Int64

/-- `record_value`. -/
def RecordKind.recordValue : (kind : RecordKind) → kind.Id → RecordValue
  | .uuid, id => .uuid id
  | .i64, id => .i64 id

@[simp] theorem RecordKind.kind_recordValue (kind : RecordKind) (id : kind.Id) :
    (kind.recordValue id).kind = kind := by
  cases kind <;> rfl

/-- The canonical bytes of a record ID: its 16 bytes, or the integer big-endian. -/
def RecordValue.bytes : RecordValue → Bytes
  | .uuid bytes => bytes.val
  | .i64 value => be 8 value.toUInt64.toNat

/-- The part a record ID adds to a context: `kind ‖ len ‖ value`. -/
def RecordValue.part (record : RecordValue) : Bytes :=
  record.kind.code :: (be 4 record.bytes.length ++ record.bytes)

/-- `seal_id ‖ count ‖ (kind ‖ len ‖ value)?`. -/
def contextBytes (id : SealId) (record : Option RecordValue) : Bytes :=
  id.asBytes.val ++ (be 2 record.isSome.toNat ++ (record.map RecordValue.part).getD [])

/-- The context fingerprint of a seal whose fields bind a record ID of kind `record`, or
none. -/
def fingerprint (prim : Primitives) (record : Option RecordKind) : Block 8 :=
  ⟨(prim.sha256 (fingerprintLabel ++ be 2 record.isSome.toNat
    ++ (record.map fun kind => [kind.code]).getD [])).val.take 8, by simp⟩

/-- The context a value of a seal is sealed under, and its fingerprint. -/
structure SealContext where
  bytes : Bytes
  fingerprint : Block 8
  deriving DecidableEq

namespace SealContext

/-- The context of seal `id`, with the record ID `record` for a record's field. -/
def new (prim : Primitives) (id : SealId) (record : Option RecordValue) : SealContext where
  bytes := contextBytes id record
  fingerprint := Cryptbox.fingerprint prim (record.map RecordValue.kind)

/-- `SealContext::seal_id`: the context of standalone values and of every blind index. -/
def sealId (prim : Primitives) (id : SealId) : SealContext := new prim id none

/-- The envelope's view of this context. -/
def envelope (context : SealContext) : Context := ⟨context.bytes, context.fingerprint⟩

theorem new_fingerprint (prim : Primitives) {id id' : SealId} {record record' : Option RecordValue}
    (h : record.map RecordValue.kind = record'.map RecordValue.kind) :
    (new prim id record).fingerprint = (new prim id' record').fingerprint :=
  congrArg (Cryptbox.fingerprint prim) h

end SealContext

/-! ## The encoding is prefix-free -/

theorem RecordValue.part_append_inj {a b : RecordValue} {x y : Bytes}
    (h : a.part ++ x = b.part ++ y) : a = b ∧ x = y := by
  obtain ⟨hCode, hRest⟩ := List.cons.inj h
  cases a with
  | uuid a =>
    cases b with
    | uuid b =>
      have hRest := List.append_inj hRest (by simp [RecordValue.bytes])
      have hValue := List.append_inj hRest.1 (by simp)
      exact ⟨congrArg _ (Subtype.ext hValue.2), hRest.2⟩
    | i64 b => exact absurd hCode (show (1 : UInt8) ≠ 2 by decide)
  | i64 a =>
    cases b with
    | uuid b => exact absurd hCode (show (2 : UInt8) ≠ 1 by decide)
    | i64 b =>
      have hRest := List.append_inj hRest (by simp [RecordValue.bytes])
      have hValue := List.append_inj hRest.1 (by simp)
      have hNat : a.toUInt64.toNat = b.toUInt64.toNat :=
        be_injective a.toUInt64.toNat_lt b.toUInt64.toNat_lt hValue.2
      exact ⟨congrArg (RecordValue.i64 ∘ Int64.ofUInt64) (UInt64.toNat_inj.mp hNat), hRest.2⟩

/-- **A context is read in one way only**, whatever follows it. -/
theorem contextBytes_append_inj {id id' : SealId} {record record' : Option RecordValue}
    {x y : Bytes} (h : contextBytes id record ++ x = contextBytes id' record' ++ y) :
    id = id' ∧ record = record' ∧ x = y := by
  unfold contextBytes at h
  rw [List.append_assoc, List.append_assoc, List.append_assoc, List.append_assoc] at h
  obtain ⟨hId, hRest⟩ := Block.append_inj h
  obtain ⟨hCount, hRest⟩ := List.append_inj hRest (by simp)
  have hCount : record.isSome.toNat = record'.isSome.toNat := by
    refine be_injective ?_ ?_ hCount
    · exact lt_of_le_of_lt (Bool.toNat_le _) (by decide)
    · exact lt_of_le_of_lt (Bool.toNat_le _) (by decide)
  refine ⟨Identifier.asBytes_injective (congrArg Subtype.val hId), ?_⟩
  cases record with
  | none =>
    cases record' with
    | none => exact ⟨rfl, hRest⟩
    | some b => cases hCount
  | some a =>
    cases record' with
    | none => cases hCount
    | some b =>
      obtain ⟨hRecord, hRest⟩ := RecordValue.part_append_inj hRest
      exact ⟨congrArg some hRecord, hRest⟩

/-- One seal ID and one record ID for each context's bytes. -/
theorem contextBytes_injective {id id' : SealId} {record record' : Option RecordValue}
    (h : contextBytes id record = contextBytes id' record') : id = id' ∧ record = record' := by
  have hNil : contextBytes id record ++ [] = contextBytes id' record' ++ [] := congrArg (· ++ []) h
  obtain ⟨hId, hRecord, -⟩ := contextBytes_append_inj hNil
  exact ⟨hId, hRecord⟩

end Cryptbox

import Std.Data.TreeMap
import Cryptbox.Base.Bytes

/-!
# Identifiers

`id.rs`: the `identifier!` macro declares four newtypes of a 16-byte UUID, `SealId`,
`IndexId`, `KeyId` and `IndexKeyId`. They are one definition here, tagged by what they
identify, so that IDs of different kinds never mix. Key IDs are ordered by their bytes,
as the derived `Ord` orders them; keyrings are maps in that order.
-/

namespace Cryptbox

open Base

/-- What an identifier identifies. -/
inductive IdTag where
  | sealId
  | indexId
  | keyId
  | indexKeyId
  deriving DecidableEq, Repr

/-- An identifier: its canonical 16-byte representation (`identifier!`). -/
structure Identifier (tag : IdTag) where
  asBytes : Block 16
  deriving DecidableEq, Repr

abbrev SealId := Identifier .sealId
abbrev IndexId := Identifier .indexId
abbrev KeyId := Identifier .keyId
abbrev IndexKeyId := Identifier .indexKeyId

namespace Identifier

variable {tag : IdTag}

/-- `from_bytes`: the bytes are not checked. -/
def fromBytes (bytes : Block 16) : Identifier tag := ⟨bytes⟩

theorem asBytes_injective {a b : Identifier tag} (h : a.asBytes.val = b.asBytes.val) :
    a = b := by
  cases a
  cases b
  exact congrArg _ (Subtype.ext h)

instance : Ord (Identifier tag) := ⟨compareOn fun a => a.asBytes.val⟩

instance : Std.TransOrd (Identifier tag) :=
  inferInstanceAs (Std.TransCmp (compareOn fun a : Identifier tag => a.asBytes.val))

instance : Std.LawfulEqOrd (Identifier tag) where
  eq_of_compare := fun {a b} h =>
    asBytes_injective (Std.LawfulEqOrd.eq_of_compare (a := a.asBytes.val) (b := b.asBytes.val) h)

end Identifier

end Cryptbox

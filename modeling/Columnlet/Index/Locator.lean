import Columnlet.Bytes
import Columnlet.Format

/-!
Value slots of the index, and the locators that a lookup makes of them. A locator says where the
payload of a key is in the content file; in the legacy layout it also says when the key was
inserted and where in the index its accesses are counted.
-/

namespace Columnlet

/-- What a slot of the legacy layout holds besides offset and length. -/
structure LegacySlot where
  insertedAt : UInt64
  accessCount : UInt32
  /-- Where the count of accesses stands, counted from the start of the trie. -/
  counterAt : Nat
  deriving DecidableEq, Repr

/-- The last instant of the calendar, in milliseconds since the start of 1970. -/
def lastInstant : Nat := 8210266876799999

/-- The time of insertion, if it is one of the calendar. -/
def LegacySlot.insertedAt? (s : LegacySlot) : Option UInt64 :=
  if s.insertedAt.toNat ≤ lastInstant then some s.insertedAt else none

/-- Where the payload of a key is. -/
structure Locator where
  offset : UInt64
  length : UInt32
  legacy : Option LegacySlot := none
  deriving DecidableEq, Repr

/-- The count of accesses that a lookup found in the index. -/
def Locator.accessCount? (l : Locator) : Option UInt32 := l.legacy.map (·.accessCount)

/-- What a builder stores for a key. -/
structure Slot where
  offset : UInt64
  length : UInt32
  insertedAt : UInt64
  deriving DecidableEq, Repr

namespace Slot

/-- A slot as it is written: in the legacy layout with its time, and no accesses yet. -/
def toBytes (s : Slot) : Format → Bytes
  | .current => Bytes.bigEndian 8 s.offset.toNat ++ Bytes.bigEndian 4 s.length.toNat
  | .legacy =>
    Bytes.bigEndian 8 s.offset.toNat ++ Bytes.bigEndian 8 s.insertedAt.toNat ++
      Bytes.bigEndian 4 s.length.toNat ++ Bytes.littleEndian 4 0

@[simp] theorem length_toBytes (s : Slot) (format : Format) :
    (s.toBytes format).length = format.slotSize := by
  cases format <;> simp [toBytes, Format.slotSize]

end Slot

end Columnlet

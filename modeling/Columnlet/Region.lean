import Columnlet.Memory

/-!
Regions of shared memory: what a window of a fixed count of bytes shows of a memory. Reads and
writes name a range; a range that leaves the region yields nothing and changes nothing.
-/

namespace Columnlet

/-- A memory seen through a window of `n` bytes, from address zero on. -/
structure Region (n : Nat) where
  memory : Memory
  deriving DecidableEq

namespace Region

variable {n : Nat}

/-- The byte at an offset. -/
def get (r : Region n) (offset : Nat) : UInt8 := r.memory.get offset

/-! ## Byte ranges -/

/-- The bytes of a range, if the range lies inside the region. -/
def read? (r : Region n) (offset width : Nat) : Option Bytes :=
  if offset + width ≤ n then some (r.memory.read offset width) else none

/-- The region with `data` at `offset`, if the range of the data lies inside the region. -/
@[inline] def write? (r : Region n) (offset : Nat) (data : Bytes) : Option (Region n) :=
  if offset + data.length ≤ n then some ⟨r.memory.write offset data⟩ else none

/-- The region with zeros in a range, if the range lies inside the region. -/
def zero? (r : Region n) (offset width : Nat) : Option (Region n) :=
  if offset + width ≤ n then some ⟨r.memory.clear offset (offset + width)⟩ else none

/-- Whether a range lies inside the region. -/
def contains (_ : Region n) (offset width : Nat) : Bool := offset + width ≤ n

theorem read?_isSome_iff (r : Region n) (offset width : Nat) :
    (r.read? offset width).isSome ↔ offset + width ≤ n := by
  simp [read?]

theorem length_of_read? {r : Region n} {offset width : Nat} {bs : Bytes}
    (h : r.read? offset width = some bs) : bs.length = width := by
  unfold read? at h
  split at h
  · obtain rfl := Option.some.inj h
    exact Memory.length_read ..
  · simp at h

theorem write?_isSome_iff (r : Region n) (offset : Nat) (data : Bytes) :
    (r.write? offset data).isSome ↔ offset + data.length ≤ n := by
  simp [write?]

theorem get_of_write? {r after : Region n} {offset : Nat} {data : Bytes}
    (h : r.write? offset data = some after) (i : Nat) :
    after.get i =
      if hi : offset ≤ i ∧ i < offset + data.length then data[i - offset] else r.get i := by
  unfold write? at h
  split at h
  · obtain rfl := Option.some.inj h
    exact Memory.get_write ..
  · simp at h

/-! ## Numbers -/

/-- The number written at `offset`, most significant byte first. -/
def big? (r : Region n) (width offset : Nat) : Option Nat := (r.read? offset width).map Bytes.bigNat

/-- The number written at `offset`, least significant byte first. -/
def little? (r : Region n) (width offset : Nat) : Option Nat :=
  (r.read? offset width).map Bytes.littleNat

/-- The number at an offset that is a multiple of its width, least significant byte first. -/
def aligned? (r : Region n) (width offset : Nat) : Option Nat :=
  if offset % width = 0 then r.little? width offset else none

end Region

end Columnlet

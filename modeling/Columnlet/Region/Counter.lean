import Columnlet.Region

/-!
Access counters: 32-bit numbers, least significant byte first, at any offset of a region. A bump
replaces a counter at a multiple of four by itself, one inside an aligned word of eight bytes
together with that word, and any other one byte range by byte range.
-/

namespace Columnlet.Region

variable {n : Nat}

/-- The counter at an offset. -/
def counter? (r : Region n) (offset : Nat) : Option UInt32 :=
  (r.little? 4 offset).map UInt32.ofNat

/-- Bump a counter that stands at a multiple of its width. -/
def bumpAligned? (r : Region n) (offset : Nat) : Option (UInt32 × Region n) := do
  let count ← r.aligned? 4 offset
  let next := UInt32.ofNat count + 1
  let r ← r.write? offset (Bytes.littleEndian 4 next.toNat)
  return (next, r)

/-- The bits of a word that hold the counter at byte `within` of it. -/
def counterMask (within : Nat) : UInt64 := 0xFFFFFFFF <<< UInt64.ofNat (8 * within)

/-- A word with the counter at byte `within` bumped, and the new count. -/
def bumpWord (word : UInt64) (within : Nat) : UInt32 × UInt64 :=
  let shift := UInt64.ofNat (8 * within)
  let mask := counterMask within
  let next := ((word &&& mask) >>> shift).toUInt32 + 1
  (next, (word &&& ~~~mask) ||| (next.toUInt64 <<< shift))

/-- Bump a counter that lies inside an aligned word of eight bytes. -/
def bumpInWord? (r : Region n) (offset : Nat) : Option (UInt32 × Region n) := do
  let within := offset % 8
  if within ≤ 4 then
    let word ← r.aligned? 8 (offset - within)
    let (next, word) := bumpWord (UInt64.ofNat word) within
    let r ← r.write? (offset - within) (Bytes.littleEndian 8 word.toNat)
    return (next, r)
  else none

/-- Bump a counter wherever it stands. -/
def bumpSplit? (r : Region n) (offset : Nat) : Option (UInt32 × Region n) := do
  let count ← r.counter? offset
  let next := count + 1
  let r ← r.write? offset (Bytes.littleEndian 4 next.toNat)
  return (next, r)

/-- Add one to the counter at an offset, modulo 2 to the 32; the new count and the new region. -/
def bump? (r : Region n) (offset : Nat) : Option (UInt32 × Region n) :=
  match r.bumpAligned? offset with
  | some bumped => some bumped
  | none =>
    match r.bumpInWord? offset with
    | some bumped => some bumped
    | none => r.bumpSplit? offset

end Columnlet.Region

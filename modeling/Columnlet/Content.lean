import Columnlet.Files
import Columnlet.Index.Locator
import Columnlet.Region.Counter

/-!
Content files: payloads without framing of their own, found by offset and length. In the current
layout four bytes in front of a payload count its accesses; a copy adds one to them and a new
payload starts them at zero.
-/

namespace Columnlet

/-- A content file: a window that holds payloads, and the layout of an entry. -/
structure Content where
  mapping : Mapping
  format : Format
  deriving DecidableEq, Repr

namespace Content

variable {n : Nat}

/-- The refusal of a place outside a region. -/
def outOfBounds (n : Nat) (l : Locator) : Error := .contentOutOfBounds l.offset l.length n

/-- Where the payload of an entry begins, if all of it lies inside a region of `n` bytes. -/
def payloadAt (format : Format) (n : Nat) (l : Locator) : Except Error Nat :=
  let start := l.offset.toNat + format.counterSize
  if start + l.length.toNat ≤ n then .ok start else .error (outOfBounds n l)

/-- Count an access of an entry and copy its payload. -/
def readIn (format : Format) (l : Locator) : Attempt (Region n) Bytes := do
  let start ← Attempt.ofExcept (payloadAt format n l)
  if 0 < format.counterSize then
    Attempt.changes (fun r => (r.bump? l.offset.toNat).map (·.2)) (outOfBounds n l)
  Attempt.asks (·.read? start l.length.toNat) (outOfBounds n l)

/-- Store a payload, not accessed yet. Its place is checked for a length of 32 bits. -/
def putIn (format : Format) (offset : UInt64) (payload : Bytes) : Attempt (Region n) Unit := do
  let l : Locator := { offset, length := .ofNat payload.length }
  let start ← Attempt.ofExcept (payloadAt format n l)
  if 0 < format.counterSize then
    Attempt.changes (·.write? offset.toNat (Bytes.littleEndian format.counterSize 0))
      (outOfBounds n l)
  Attempt.changes (·.write? start payload) (outOfBounds n l)

/-- The count of accesses of the entry at an offset, if the layout keeps it there. -/
def accessCountIn? (format : Format) (r : Region n) (offset : UInt64) : Option UInt32 :=
  match format with
  | .current => r.counter? offset.toNat
  | .legacy => none

/-! ## Through a window -/

/-- Count an access of an entry and copy its payload. -/
def read (c : Content) (l : Locator) : Attempt Files Bytes := c.mapping.attempt (readIn c.format l)

/-- Store a payload. -/
def put (c : Content) (offset : UInt64) (payload : Bytes) : Attempt Files Unit :=
  c.mapping.attempt (putIn c.format offset payload)

/-- The count of accesses of the entry at an offset. -/
def accessCount? (c : Content) (files : Files) (offset : UInt64) : Option UInt32 :=
  accessCountIn? c.format (files.view c.mapping) offset

end Content

end Columnlet

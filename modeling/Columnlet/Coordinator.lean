import Columnlet.Files

/-!
The handshake between readers and the writer of an index, kept in the first four bytes of the
index: a flag that the writer raises while it rebuilds, and a count of reads under way. The count
is only a hint for the writer's wait; it never grows past a ceiling and never falls below zero.
-/

namespace Columnlet

/-- Why a read is not admitted. -/
inductive Refusal where
  | writerActive
  | saturated
  deriving DecidableEq, Repr

/-- Why a read is not admitted, in words. -/
def Refusal.message : Refusal → String
  | writerActive => "writer active"
  | saturated => "reader count saturated"

/-- The writer's flag and the count of reads under way. -/
structure Header where
  writerFlag : UInt16
  readers : UInt16
  deriving DecidableEq, Repr

namespace Header

/-- The offset of the writer's flag. -/
def flagOffset : Nat := 0

/-- The offset of the count of reads. -/
def readersOffset : Nat := 2

/-- The bytes of a header. -/
def width : Nat := 4

/-- The highest count of reads, which a signed number of sixteen bits can tell. -/
def ceiling : UInt16 := 32767

/-- Admit one more read. -/
def enter (h : Header) : Except Refusal Header :=
  if h.writerFlag ≠ 0 then .error .writerActive
  else if ceiling ≤ h.readers then .error .saturated
  else .ok { h with readers := h.readers + 1 }

/-- One read less; a count of zero stays. -/
def leave (h : Header) : Header :=
  { h with readers := if h.readers = 0 then 0 else h.readers - 1 }

/-- Raise the writer's flag, so that reads are refused. -/
def beginRebuild (h : Header) : Header := { h with writerFlag := 1 }

/-- Start afresh: no reads under way, and no writer. -/
def finishRebuild (_ : Header) : Header := ⟨0, 0⟩

/-- Whether no read is counted. -/
def drained (h : Header) : Bool := h.readers = 0

/-- Look at the count until no read is counted or the clock, read after each look, has come to the
deadline. When nothing else runs, waiting longer changes nothing. -/
def awaitDrain (h : Header) (deadline : Nat) : List Nat → Bool
  | [] => h.drained
  | now :: later => h.drained || (now < deadline && h.awaitDrain deadline later)

/-- The header at the start of a region, least significant bytes first. -/
def ofRegion {n : Nat} (r : Region n) : Header where
  writerFlag := .ofNat ((r.little? 2 flagOffset).getD 0)
  readers := .ofNat ((r.little? 2 readersOffset).getD 0)

/-- The bytes of a header. -/
def toBytes (h : Header) : Bytes :=
  Bytes.littleEndian 2 h.writerFlag.toNat ++ Bytes.littleEndian 2 h.readers.toNat

/-- A region with its header replaced; a region without room for one stays as it is. -/
def store {n : Nat} (r : Region n) (h : Header) : Region n := (r.write? flagOffset h.toBytes).getD r

end Header

/-- A coordinator: a window that starts with a header. -/
structure Coordinator where
  mapping : Mapping
  deriving DecidableEq, Repr

namespace Coordinator

/-- The coordinator at the start of a window, which has to hold a header. -/
def ofMapping (mapping : Mapping) : Except Error Coordinator := do
  mapping.require Header.width
  mapping.requireWord 2 Header.flagOffset (.headerMisaligned mapping.path)
  mapping.requireWord 2 Header.readersOffset (.headerMisaligned mapping.path)
  return ⟨mapping⟩

/-- The header as it is. -/
def state (c : Coordinator) (files : Files) : Header := Header.ofRegion (files.view c.mapping)

/-- Change the header. -/
def update (c : Coordinator) (f : Header → Header) (files : Files) : Files :=
  c.mapping.modify (fun r => Header.store r (f (Header.ofRegion r))) files

/-- Admit one more read; a refusal changes nothing. -/
def enter (c : Coordinator) (files : Files) : Except Refusal Files :=
  match (c.state files).enter with
  | .error reason => .error reason
  | .ok h => .ok (c.update (fun _ => h) files)

/-- One read less. -/
def leave (c : Coordinator) : Files → Files := c.update Header.leave

end Coordinator

end Columnlet

import Columnlet.Index.Encoding
import Columnlet.Index.Lookup

/-!
Building an index: keys are collected one at a time, the last insertion of a key counting, and
are then written into a window all at once, behind the header and without touching it.
-/

namespace Columnlet

/-- The entries with a key given a slot, in place of an earlier one if there is one. -/
def Entries.insert (key : Bytes) (slot : Slot) : Entries → Entries
  | [] => [(key, slot)]
  | entry :: rest =>
    match compare key entry.1 with
    | .lt => (key, slot) :: entry :: rest
    | .eq => (key, slot) :: rest
    | .gt => entry :: insert key slot rest

/-- The keys collected for an index, in increasing order. -/
structure IndexBuilder where
  format : Format
  entries : Entries
  deriving DecidableEq, Repr

namespace IndexBuilder

/-- A builder without keys. -/
def empty (format : Format) : IndexBuilder := ⟨format, []⟩

/-- Give a key a place in the content file, and a time of insertion in milliseconds. -/
def insert (b : IndexBuilder) (key : Bytes) (offset : UInt64) (length : UInt32)
    (insertedAt : UInt64) : IndexBuilder :=
  { b with entries := b.entries.insert key ⟨offset, length, insertedAt⟩ }

/-- The number of keys. -/
def size (b : IndexBuilder) : Nat := b.entries.length

/-- The bytes of the trie of the keys. -/
def encode (b : IndexBuilder) : Except Error Bytes :=
  match Trie.ofEntries b.entries >>= Trie.encode b.format with
  | .ok bytes => .ok bytes
  | .error cause => .error (.indexBuild cause)

/-- Write the trie into the region of a window; the answer is the count of its bytes. -/
def publishIn (b : IndexBuilder) (m : Mapping) : Attempt (Region m.size) Nat := do
  let bytes ← Attempt.ofExcept b.encode
  Attempt.ofExcept (m.require (Index.headerSize + bytes.length))
  Attempt.changes (·.write? Index.headerSize bytes) (.indexBuild .noRoom)
  return bytes.length

/-- Write the trie through a window. -/
def publish (b : IndexBuilder) (m : Mapping) : Attempt Files Nat := m.attempt (b.publishIn m)

end IndexBuilder

end Columnlet

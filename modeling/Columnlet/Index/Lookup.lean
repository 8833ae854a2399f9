import Columnlet.Files
import Columnlet.Index.Locator
import Columnlet.Index.Node
import Columnlet.Region.Counter

/-!
Looking a key up in an index. A walk starts at the root; each visit compares the edge of a node
with the rest of the key and then either ends or goes on, one byte further, at a child. Every
visit that goes on shortens the rest of the key, so a walk ends on any bytes whatever.
-/

namespace Columnlet

/-- An index: a window that holds a trie, and the layout of its value slots. -/
structure Index where
  mapping : Mapping
  format : Format
  deriving DecidableEq, Repr

namespace Index

variable {n : Nat}

/-- The bytes in front of the trie, of which the first four are the coordinator's. -/
def headerSize : Nat := 16

/-- The least bytes of an index: those in front of the trie, and a root node. -/
def minSize : Nat := headerSize + NodeHeader.width

/-! ## Reading the trie -/

/-- The bytes of a range of the trie. -/
def read (r : Region n) (offset width : Nat) : Except Error Bytes :=
  match r.read? (headerSize + offset) width with
  | some bs => .ok bs
  | none => .error (.malformedIndex offset (.pastEnd width))

/-- A number in the trie, most significant byte first. -/
def number (r : Region n) (width offset : Nat) : Except Error Nat :=
  (read r offset width).map Bytes.bigNat

/-- The header of the node at an offset. -/
def header (r : Region n) (node : Nat) : Except Error NodeHeader :=
  (number r NodeHeader.width node).map NodeHeader.ofNat

/-- The offset in the first of `count` child slots that carries a branch byte. -/
def findChild (r : Region n) (offset count : Nat) (branch : UInt8) : Except Error (Option Nat) :=
  match count with
  | 0 => .ok none
  | count + 1 => do
    let slot := ChildSlot.ofNat (← number r ChildSlot.width offset)
    if slot.branch = branch then return some slot.offset
    findChild r (offset + ChildSlot.width) count branch

/-- Whether a key goes on with the edge of a given length. A key too short for the edge is told
apart before the edge is read, and an edge without bytes is not read at all. -/
def edgeMatches (r : Region n) (offset length : Nat) (key : Bytes) : Except Error Bool :=
  if key.length < length then .ok false
  else if length = 0 then .ok true
  else (read r offset length).map fun edge => edge == key.take length

/-- The locator in the value slot at an offset. -/
def locator (format : Format) (r : Region n) (slot : Nat) : Except Error Locator := do
  let offset ← number r 8 slot
  match format with
  | .current =>
    let length ← number r 4 (slot + 8)
    return { offset := .ofNat offset, length := .ofNat length }
  | .legacy =>
    let insertedAt ← number r 8 (slot + 8)
    let length ← number r 4 (slot + 16)
    let counterAt := slot + 20
    match r.counter? (headerSize + counterAt) with
    | none => throw (.malformedIndex counterAt .counterPastEnd)
    | some accessCount =>
      return {
        offset := .ofNat offset
        length := .ofNat length
        legacy := some { insertedAt := .ofNat insertedAt, accessCount, counterAt }
      }

/-! ## Walking -/

/-- What a visit to a node comes to. -/
inductive Visit where
  | finish (found : Option Locator)
  | descend (child : Nat) (rest : Bytes)
  deriving DecidableEq, Repr

/-- Visit a node with what is left of a key. -/
def visit (format : Format) (r : Region n) (node : Nat) (key : Bytes) : Except Error Visit := do
  let h ← header r node
  let edge := node + NodeHeader.width + ChildSlot.width * h.children
  if !(← edgeMatches r edge h.edgeLength key) then return .finish none
  match key.drop h.edgeLength with
  | [] =>
    if h.hasValue then return .finish (some (← locator format r (edge + h.edgeLength)))
    else return .finish none
  | branch :: rest =>
    match ← findChild r (node + NodeHeader.width) h.children branch with
    | none => return .finish none
    | some child => return .descend child rest

/-- A visit that goes on leaves less of the key. -/
theorem length_lt_of_visit {format : Format} {r : Region n} {node child : Nat} {key rest : Bytes}
    (h : visit format r node key = .ok (.descend child rest)) : rest.length < key.length := by
  simp only [visit, bind, Except.bind, pure, Except.pure] at h
  split at h
  · simp at h
  · rename_i header _
    split at h
    · simp at h
    · split at h
      · simp at h
      · split at h
        · split at h
          · split at h <;> simp at h
          · simp at h
        · rename_i branch tail heq
          split at h
          · simp at h
          · split at h
            · simp at h
            · simp only [Except.ok.injEq, Visit.descend.injEq] at h
              have hlen := congrArg List.length heq
              simp only [List.length_drop, List.length_cons] at hlen
              rw [← h.2]
              omega

/-- Walk on from a node with what is left of a key. -/
def lookupFrom (format : Format) (r : Region n) (node : Nat) (key : Bytes) :
    Except Error (Option Locator) :=
  match _h : visit format r node key with
  | .error e => .error e
  | .ok (.finish found) => .ok found
  | .ok (.descend child rest) => lookupFrom format r child rest
termination_by key.length
decreasing_by exact length_lt_of_visit _h

/-- The locator of a key, if the trie in a region has it. -/
def lookupIn (format : Format) (r : Region n) (key : Bytes) : Except Error (Option Locator) :=
  lookupFrom format r 0 key

/-- Count an access in the slot that a locator was read from; other layouts count elsewhere. -/
def bumpIn? (l : Locator) (r : Region n) : Option (UInt32 × Region n) :=
  match l.legacy with
  | none => none
  | some slot => r.bump? (headerSize + slot.counterAt)

/-! ## Through a window -/

/-- An index in a window, which has to hold the header and a root node. -/
def ofMapping (mapping : Mapping) (format : Format) : Except Error Index := do
  mapping.require minSize
  return { mapping, format }

/-- The locator of a key, if the index has it. -/
def tryLookup (index : Index) (files : Files) (key : Bytes) : Except Error (Option Locator) :=
  lookupIn index.format (files.view index.mapping) key

/-- The locator of a key; an index that cannot be walked has none. -/
def lookup? (index : Index) (files : Files) (key : Bytes) : Option Locator :=
  match index.tryLookup files key with
  | .ok found => found
  | .error _ => none

/-- Count an access through a locator: the new count, if the layout counts in the index. -/
def recordAccess (index : Index) (l : Locator) (files : Files) : Option UInt32 × Files :=
  match bumpIn? l (files.view index.mapping) with
  | none => (none, files)
  | some (count, r) => (some count, files.commit index.mapping r)

end Index

end Columnlet

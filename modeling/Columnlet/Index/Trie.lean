import Columnlet.Error
import Columnlet.Index.Locator
import Columnlet.Index.Node

/-!
Compressed tries: what an index is before it is bytes. A node carries the bytes that all keys
below it share, up to the length that a node header can tell; keys that go on are divided by
their next byte. `Trie.ofEntries` makes the trie of a list of keys in increasing order.
-/

namespace Columnlet

/-- Keys in increasing order, each with what is stored for it. -/
abbrev Entries := List (Bytes × Slot)

/-- The nodes below a node, in the order of the bytes that lead to them. -/
inductive Forest where
  | nil
  | cons (branch : UInt8) (edge : Bytes) (value : Option Slot) (children siblings : Forest)
  deriving DecidableEq, Repr

/-- A trie: the edge and the value of its root, and the nodes below it. -/
structure Trie where
  edge : Bytes
  value : Option Slot
  children : Forest
  deriving DecidableEq, Repr

/-- The number of nodes side by side. -/
def Forest.width : Forest → Nat
  | nil => 0
  | cons _ _ _ _ siblings => siblings.width + 1

/-! ## Dividing entries -/

namespace Entries

/-- The bytes with which both keys begin. -/
def commonPrefix : Bytes → Bytes → Bytes
  | a :: as, b :: bs => if a = b then a :: commonPrefix as bs else []
  | _, _ => []

/-- The edge of the node for some entries. In increasing order the first and the last key bound
what all of them share; one node takes no more of it than its header can tell. -/
def edge (entries : Entries) : Bytes :=
  match entries.head?, entries.getLast? with
  | some first, some last => (commonPrefix first.1 last.1).take NodeHeader.maxEdge
  | _, _ => []

/-- The entries with a count of bytes taken off each key. -/
def strip (count : Nat) (entries : Entries) : Entries :=
  entries.map fun entry => (entry.1.drop count, entry.2)

/-- What is stored for the key that has nothing left, and the entries that go on. -/
def splitValue : Entries → Option Slot × Entries
  | ([], slot) :: rest => (some slot, rest)
  | entries => (none, entries)

/-- Whether a key goes on with a byte. -/
def startsWith (branch : UInt8) (entry : Bytes × Slot) : Bool := entry.1.head? = some branch

/-- The bytes left in all keys together, and one for each key. -/
def weight : Entries → Nat
  | [] => 0
  | entry :: rest => entry.1.length + 1 + weight rest

@[simp] theorem weight_cons (entry : Bytes × Slot) (rest : Entries) :
    weight (entry :: rest) = entry.1.length + 1 + weight rest := rfl

theorem weight_strip_le (count : Nat) (entries : Entries) :
    weight (strip count entries) ≤ weight entries := by
  induction entries with
  | nil => exact Nat.le_refl _
  | cons entry rest ih =>
    simp only [strip, List.map_cons, weight_cons, List.length_drop] at ih ⊢
    omega

theorem weight_splitValue_le (entries : Entries) :
    weight (splitValue entries).2 ≤ weight entries := by
  unfold splitValue
  split
  · simp
  · exact Nat.le_refl _

theorem weight_takeWhile_add_dropWhile (p : Bytes × Slot → Bool) (entries : Entries) :
    weight (entries.takeWhile p) + weight (entries.dropWhile p) = weight entries := by
  induction entries with
  | nil => rfl
  | cons entry rest ih =>
    by_cases h : p entry
    · simp only [List.takeWhile_cons, List.dropWhile_cons, h, if_true, weight_cons]
      omega
    · simp only [List.takeWhile_cons, List.dropWhile_cons, h]
      simp [weight]

end Entries

/-! ## Tries of entries -/

/-- Refuse a node with more children than a header can tell. -/
def Forest.checkWidth (depth : Nat) (children : Forest) : Except BuildError Unit :=
  if NodeHeader.maxChildren < children.width then
    .error (.tooManyChildren depth children.width)
  else .ok ()

/-- The nodes below a node that ends `depth` bytes into its keys, for the entries that go on. -/
def Forest.ofEntries (depth : Nat) (entries : Entries) : Except BuildError Forest :=
  match entries with
  | [] => .ok .nil
  | ([], _) :: rest => Forest.ofEntries depth rest
  | (branch :: key, slot) :: rest => do
    let run : Entries := (key, slot) :: Entries.strip 1 (rest.takeWhile (Entries.startsWith branch))
    let edge := run.edge
    let split := (run.strip edge.length).splitValue
    let stop := depth + 1 + edge.length
    let children ← Forest.ofEntries stop split.2
    children.checkWidth stop
    let siblings ← Forest.ofEntries depth (rest.dropWhile (Entries.startsWith branch))
    return .cons branch edge split.1 children siblings
termination_by entries.weight
decreasing_by
  · simp
  · refine Nat.lt_of_le_of_lt
      (Nat.le_trans (Entries.weight_splitValue_le _) (Entries.weight_strip_le _ _)) ?_
    have others := Entries.weight_strip_le 1 (rest.takeWhile (Entries.startsWith branch))
    have both := Entries.weight_takeWhile_add_dropWhile (Entries.startsWith branch) rest
    simp only [Entries.weight_cons, List.length_cons]
    omega
  · have both := Entries.weight_takeWhile_add_dropWhile (Entries.startsWith branch) rest
    simp only [Entries.weight_cons, List.length_cons]
    omega

/-- The trie of some entries; it has only a root without edge and value if there are none. -/
def Trie.ofEntries (entries : Entries) : Except BuildError Trie := do
  let edge := entries.edge
  let split := (entries.strip edge.length).splitValue
  let children ← Forest.ofEntries edge.length split.2
  children.checkWidth edge.length
  return { edge, value := split.1, children }

end Columnlet

import Columnlet.Index.Trie

/-!
Tries as bytes. A node is written before the nodes below it, and those in the order of their
branch bytes; a child slot holds the offset at which its node is written.
-/

namespace Columnlet

namespace Trie

/-- The header of a node. -/
def nodeHeader (edge : Bytes) (value : Option Slot) (children : Forest) : NodeHeader :=
  .ofCounts value.isSome edge.length children.width

/-- The bytes of a node without those below it. -/
def nodeSize (format : Format) (edge : Bytes) (value : Option Slot) (children : Forest) : Nat :=
  (nodeHeader edge value children).nodeSize format

end Trie

namespace Forest

/-- The bytes of all nodes. -/
def size (format : Format) : Forest → Nat
  | nil => 0
  | cons _ edge value children siblings =>
    Trie.nodeSize format edge value children + children.size format + siblings.size format

/-- The slots that lead to nodes side by side, of which the first is written at an offset. -/
def slots (format : Format) (offset : Nat) : Forest → Except BuildError (List ChildSlot)
  | nil => .ok []
  | cons branch edge value children siblings =>
    match ChildSlot.of? branch offset with
    | none => .error (.childTooFar offset)
    | some slot => do
      let next := offset + Trie.nodeSize format edge value children + children.size format
      return slot :: (← siblings.slots format next)

end Forest

/-- The bytes of a node whose first child is written at an offset. -/
def Trie.nodeBytes (format : Format) (offset : Nat) (edge : Bytes) (value : Option Slot)
    (children : Forest) : Except BuildError Bytes := do
  let slots ← children.slots format offset
  return Bytes.bigEndian NodeHeader.width (nodeHeader edge value children).toNat ++
    slots.flatMap (fun slot => Bytes.bigEndian ChildSlot.width slot.toNat) ++ edge ++
    (value.map (·.toBytes format)).getD []

/-- The bytes of nodes side by side and all below them, written from an offset on. -/
def Forest.encode (format : Format) (offset : Nat) : Forest → Except BuildError Bytes
  | nil => .ok []
  | cons _ edge value children siblings => do
    let below := offset + Trie.nodeSize format edge value children
    let node ← Trie.nodeBytes format below edge value children
    let lower ← children.encode format below
    let after ← siblings.encode format (below + children.size format)
    return node ++ lower ++ after

/-- The bytes of a trie. -/
def Trie.encode (format : Format) (t : Trie) : Except BuildError Bytes := do
  let below := Trie.nodeSize format t.edge t.value t.children
  let root ← Trie.nodeBytes format below t.edge t.value t.children
  return root ++ (← t.children.encode format below)

end Columnlet

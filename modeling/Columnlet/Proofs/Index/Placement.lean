import Columnlet.Proofs.Index.Branching
import Columnlet.Proofs.Index.Frame
import Columnlet.Proofs.Index.RoundTrip

/-! # The nodes in the bytes of a trie

A trie is written node by node, each node in front of those below it. Read from the front, the
header of each node tells where the next one begins, up to the end of the bytes, and the child slots
of the nodes lead to each of them once, the root excepted. -/

namespace Columnlet

/-! ## Reading bytes as a trie -/

/-- The number that stands at an offset, most significant byte first. -/
def Bytes.numberAt (bs : Bytes) (width offset : Nat) : Nat := bigNat ((bs.drop offset).take width)

/-- The header at an offset. -/
def NodeHeader.readAt (bs : Bytes) (node : Nat) : NodeHeader := ofNat (bs.numberAt width node)

/-- A count of child slots, one after another from an offset on. -/
def ChildSlot.readAt (bs : Bytes) : (offset count : Nat) → List ChildSlot
  | _, 0 => []
  | offset, count + 1 => ofNat (bs.numberAt width offset) :: readAt bs (offset + width) count

/-- The child slots of the node at an offset. -/
def Trie.slotsIn (bs : Bytes) (node : Nat) : List ChildSlot :=
  ChildSlot.readAt bs (slotsAt node) (NodeHeader.readAt bs node).children

/-- The offsets to which the child slots of the node at an offset lead. -/
def Trie.childrenIn (bs : Bytes) (node : Nat) : List Nat :=
  (slotsIn bs node).map fun slot => slot.offset

/-- From an offset on, bytes are nodes side by side, each as long as its header says, the last of
which ends where the bytes end. -/
inductive Tiled (format : Format) (bs : Bytes) : Nat → List Nat → Prop
  | done : Tiled format bs bs.length []
  | node {start : Nat} {nodes : List Nat}
      (rest : Tiled format bs (start + (NodeHeader.readAt bs start).nodeSize format) nodes) :
      Tiled format bs start (start :: nodes)

theorem Bytes.numberAt_append (front : Bytes) {part : Bytes} (back : Bytes) {width : Nat}
    (h : part.length = width) :
    (front ++ part ++ back).numberAt width front.length = bigNat part := by
  rw [numberAt, List.append_assoc, List.drop_left, List.take_left' h]

theorem NodeHeader.readAt_append (front back : Bytes) (h : NodeHeader) :
    readAt (front ++ Bytes.bigEndian width h.toNat ++ back) front.length = h := by
  have hlt : h.toNat < 256 ^ width := h.toNat_lt
  rw [readAt, Bytes.numberAt_append _ _ (Bytes.length_bigEndian ..), Bytes.bigNat_bigEndian,
    Nat.mod_eq_of_lt hlt, ofNat_toNat]

theorem ChildSlot.readAt_append (front : Bytes) (slots : List ChildSlot) (back : Bytes) :
    readAt (front ++ bytes slots ++ back) front.length slots.length = slots := by
  induction slots generalizing front with
  | nil => rfl
  | cons slot slots ih =>
      have hlt : slot.toNat < 256 ^ width := slot.toNat_lt
      have hsplit : front ++ bytes (slot :: slots) ++ back =
          front ++ Bytes.bigEndian width slot.toNat ++ (bytes slots ++ back) := by
        simp [bytes]
      have hnext := ih (front ++ Bytes.bigEndian width slot.toNat)
      rw [List.append_assoc (front ++ _), List.length_append, Bytes.length_bigEndian] at hnext
      rw [hsplit, List.length_cons, readAt, hnext,
        Bytes.numberAt_append _ _ (Bytes.length_bigEndian ..), Bytes.bigNat_bigEndian,
        Nat.mod_eq_of_lt hlt, ofNat_toNat]

/-! ## Places of nodes -/

/-- A node of a trie, and the offset at which it is written. -/
structure PlacedNode where
  start : Nat
  edge : Bytes
  value : Option Slot
  children : Forest

namespace PlacedNode

/-- A node has an edge and a number of children that its header can tell. -/
structure Fits (p : PlacedNode) : Prop where
  edge : p.edge.length ≤ NodeHeader.maxEdge
  width : p.children.width ≤ NodeHeader.maxChildren

/-- The header of a node. -/
def header (p : PlacedNode) : NodeHeader := Trie.nodeHeader p.edge p.value p.children

/-- Where the nodes below a node begin. -/
def below (p : PlacedNode) (format : Format) : Nat :=
  p.start + Trie.nodeSize format p.edge p.value p.children

theorem header_edgeLength {p : PlacedNode} (h : p.Fits) :
    (p.header.edgeLength : Nat) = p.edge.length := by
  have hedge := h.edge
  rw [NodeHeader.maxEdge] at hedge
  exact Nat.mod_eq_of_lt (by omega)

theorem header_children {p : PlacedNode} (h : p.Fits) :
    (p.header.children : Nat) = p.children.width := by
  have hwidth := h.width
  rw [NodeHeader.maxChildren] at hwidth
  exact Nat.mod_eq_of_lt (by omega)

theorem start_lt_below (p : PlacedNode) (format : Format) : p.start < p.below format :=
  Nat.lt_add_of_pos_right (Trie.nodeSize_pos ..)

/-- Among bytes that are written from an offset on, a node has its bytes at its place: as many bytes
are in front of it as its place tells. -/
def Written (format : Format) (base : Nat) (bs : Bytes) (p : PlacedNode) : Prop :=
  ∃ front node back,
    Trie.nodeBytes format (p.below format) p.edge p.value p.children = .ok node ∧
    bs = front ++ node ++ back ∧ base + front.length = p.start

end PlacedNode

namespace Forest

/-- The nodes of a forest that is written from an offset on, each in front of those below it. -/
def placed (format : Format) : Forest → Nat → List PlacedNode
  | nil, _ => []
  | cons _ edge value children siblings, node =>
    ⟨node, edge, value, children⟩ ::
      (children.placed format (node + Trie.nodeSize format edge value children) ++
        siblings.placed format
          (node + Trie.nodeSize format edge value children + children.size format))

/-- Where the nodes of a forest are written. -/
def starts (format : Format) (forest : Forest) (base : Nat) : List Nat :=
  (forest.placed format base).map (·.start)

/-- The bytes that lead to nodes side by side. -/
def branches : Forest → List UInt8
  | nil => []
  | cons branch _ _ _ siblings => branch :: siblings.branches

/-- Where nodes side by side are written. -/
def roots (format : Format) : Forest → Nat → List Nat
  | nil, _ => []
  | cons _ edge value children siblings, node =>
    node :: siblings.roots format
      (node + Trie.nodeSize format edge value children + children.size format)

variable {format : Format} {forest : Forest} {base : Nat} {p : PlacedNode}

theorem mem_placed_cons {branch : UInt8} {edge : Bytes} {value : Option Slot}
    {children siblings : Forest} :
    p ∈ (cons branch edge value children siblings).placed format base ↔
      p = ⟨base, edge, value, children⟩ ∨
      p ∈ children.placed format (base + Trie.nodeSize format edge value children) ∨
      p ∈ siblings.placed format
        (base + Trie.nodeSize format edge value children + children.size format) := by
  simp [placed]

theorem starts_cons {branch : UInt8} {edge : Bytes} {value : Option Slot}
    {children siblings : Forest} :
    (cons branch edge value children siblings).starts format base =
      base :: (children.starts format (base + Trie.nodeSize format edge value children) ++
        siblings.starts format
          (base + Trie.nodeSize format edge value children + children.size format)) := by
  simp [starts, placed]

theorem start_bounds (hp : p ∈ forest.placed format base) :
    base ≤ p.start ∧ p.start < base + forest.size format := by
  induction forest generalizing base with
  | nil => cases hp
  | cons branch edge value children siblings ihc ihs =>
      have hpos := Trie.nodeSize_pos format edge value children
      rw [size]
      rcases mem_placed_cons.mp hp with rfl | hbelow | hlater
      · dsimp only
        omega
      · have hbounds := ihc hbelow
        omega
      · have hbounds := ihs hlater
        omega

/-- Nodes are placed one behind the other. -/
theorem pairwise_starts (format : Format) (forest : Forest) (base : Nat) :
    (forest.starts format base).Pairwise (· < ·) := by
  induction forest generalizing base with
  | nil => exact .nil
  | cons branch edge value children siblings ihc ihs =>
      have hpos := Trie.nodeSize_pos format edge value children
      rw [starts_cons, List.pairwise_cons, List.pairwise_append]
      refine ⟨?_, ihc _, ihs _, ?_⟩
      · intro start hstart
        rcases List.mem_append.mp hstart with hbelow | hlater
        · obtain ⟨p, hp, rfl⟩ := List.mem_map.mp hbelow
          have hbounds := start_bounds hp
          omega
        · obtain ⟨p, hp, rfl⟩ := List.mem_map.mp hlater
          have hbounds := start_bounds hp
          omega
      · intro start hstart later hlater
        obtain ⟨p, hp, rfl⟩ := List.mem_map.mp hstart
        obtain ⟨q, hq, rfl⟩ := List.mem_map.mp hlater
        have hbelow := start_bounds hp
        have hbehind := start_bounds hq
        omega

theorem roots_sublist (format : Format) (forest : Forest) (base : Nat) :
    (forest.roots format base).Sublist (forest.starts format base) := by
  induction forest generalizing base with
  | nil => exact .slnil
  | cons branch edge value children siblings _ ihs =>
      rw [starts_cons]
      exact ((ihs _).trans (List.sublist_append_right ..)).cons_cons base

/-- Every node of a forest is one of those side by side, or a child of one node. -/
theorem roots_perm (format : Format) (forest : Forest) (base : Nat) :
    (forest.roots format base ++ (forest.placed format base).flatMap fun p =>
      p.children.roots format (p.below format)).Perm (forest.starts format base) := by
  induction forest generalizing base with
  | nil => exact .nil
  | cons branch edge value children siblings ihc ihs =>
      have hboth := (ihc (base + Trie.nodeSize format edge value children)).append
        (ihs (base + Trie.nodeSize format edge value children + children.size format))
      rw [starts_cons, roots, placed, List.cons_append, List.flatMap_cons, List.flatMap_append]
      refine (List.Perm.trans ?_ hboth).cons base
      -- The children of the first node are named behind the later nodes, and counted in front.
      rw [PlacedNode.below]
      refine (List.perm_append_comm_assoc ..).trans ?_
      rw [List.append_assoc]
      exact ((List.perm_append_comm_assoc ..).append_left _)

/-! ## What is written -/

theorem slots_eq {slots : List ChildSlot} (h : forest.slots format base = .ok slots) :
    slots.map (·.branch) = forest.branches ∧
      (slots.map fun slot => (slot.offset : Nat)) = forest.roots format base := by
  induction forest generalizing base slots with
  | nil =>
      cases h
      exact ⟨rfl, rfl⟩
  | cons branch edge value children siblings _ ih =>
      rw [Forest.slots] at h
      split at h
      · cases h
      · rename_i slot hslot
        obtain ⟨later, hlater, h⟩ := except_bind_eq_ok_iff.mp h
        cases h
        obtain ⟨hbranch, hoffset⟩ := ChildSlot.of?_eq_some hslot
        obtain ⟨hbranches, hroots⟩ := ih hlater
        exact ⟨by rw [List.map_cons, hbranch, hbranches, branches],
          by rw [List.map_cons, hoffset, hroots, roots]⟩

theorem Fits.of_mem_placed (h : forest.Fits) (hp : p ∈ forest.placed format base) : p.Fits := by
  induction forest generalizing base with
  | nil => cases hp
  | cons branch edge value children siblings ihc ihs =>
      obtain ⟨hedge, hwidth, hchildren, hsiblings⟩ := h
      rcases mem_placed_cons.mp hp with rfl | hbelow | hlater
      · exact ⟨hedge, hwidth⟩
      · exact ihc hchildren hbelow
      · exact ihs hsiblings hlater

/-- Every node is written at its place. -/
theorem written_of_encode {bs : Bytes} (h : forest.encode format base = .ok bs)
    (hfits : forest.Fits) (hp : p ∈ forest.placed format base) : p.Written format base bs := by
  induction forest generalizing base bs with
  | nil => cases hp
  | cons branch edge value children siblings ihc ihs =>
      obtain ⟨hedge, hwidth, hchildren, hsiblings⟩ := hfits
      obtain ⟨first, lower, later, hfirst, hlower, hlater, rfl⟩ := encode_cons_eq_ok h
      have hfirstLength := Trie.length_nodeBytes hfirst hedge hwidth
      have hlowerLength := length_encode hlower hchildren
      rcases mem_placed_cons.mp hp with rfl | hbelow | hbehind
      · exact ⟨[], first, lower ++ later, hfirst, by simp, rfl⟩
      · obtain ⟨front, node, back, hnode, rfl, hstart⟩ := ihc hlower hchildren hbelow
        refine ⟨first ++ front, node, back ++ later, hnode, by simp, ?_⟩
        rw [List.length_append]
        omega
      · obtain ⟨front, node, back, hnode, rfl, hstart⟩ := ihs hlater hsiblings hbehind
        refine ⟨first ++ lower ++ front, node, back, hnode, by simp, ?_⟩
        rw [List.length_append, List.length_append]
        omega

end Forest

namespace PlacedNode

variable {format : Format} {bs : Bytes} {p : PlacedNode}

theorem Written.readAt (h : p.Written format 0 bs) : NodeHeader.readAt bs p.start = p.header := by
  obtain ⟨front, node, back, hnode, rfl, hstart⟩ := h
  obtain ⟨slots, -, rfl⟩ := Trie.nodeBytes_eq_ok hnode
  rw [Nat.zero_add] at hstart
  simp only [List.append_assoc]
  rw [← hstart, ← List.append_assoc]
  exact NodeHeader.readAt_append ..

/-- The child slots of a written node are those of its children. -/
theorem Written.slotsIn (h : p.Written format 0 bs) (hfits : p.Fits) :
    p.children.slots format (p.below format) = .ok (Trie.slotsIn bs p.start) := by
  have hheader := h.readAt
  obtain ⟨front, node, back, hnode, rfl, hstart⟩ := h
  obtain ⟨slots, hslots, rfl⟩ := Trie.nodeBytes_eq_ok hnode
  have hcount : (p.header.children : Nat) = slots.length :=
    (header_children hfits).trans (Forest.length_slots hslots).symm
  have hsplit := ChildSlot.readAt_append
    (front ++ Bytes.bigEndian NodeHeader.width p.header.toNat) slots
    (p.edge ++ ((p.value.map (·.toBytes format)).getD [] ++ back))
  rw [Nat.zero_add] at hstart
  rw [List.length_append, Bytes.length_bigEndian, hstart] at hsplit
  rw [Trie.slotsIn, hheader, hcount, Trie.slotsAt, hslots]
  simp only [List.append_assoc, header] at hsplit ⊢
  rw [hsplit]

/-- The child slots of a written node lead to where its children are written. -/
theorem Written.childrenIn (h : p.Written format 0 bs) (hfits : p.Fits) :
    Trie.childrenIn bs p.start = p.children.roots format (p.below format) :=
  (Forest.slots_eq (h.slotsIn hfits)).2

end PlacedNode

theorem Forest.tiled {format : Format} {bs : Bytes} {forest : Forest} {base : Nat}
    {rest : List Nat}
    (hread : ∀ p ∈ forest.placed format base, NodeHeader.readAt bs p.start = p.header)
    (h : Tiled format bs (base + forest.size format) rest) :
    Tiled format bs base (forest.starts format base ++ rest) := by
  induction forest generalizing base rest with
  | nil => exact h
  | cons branch edge value children siblings ihc ihs =>
      have hfirst := hread ⟨base, edge, value, children⟩ (mem_placed_cons.mpr (.inl rfl))
      rw [size, ← Nat.add_assoc, ← Nat.add_assoc] at h
      have hlater := ihs (fun p hp => hread p (mem_placed_cons.mpr (.inr (.inr hp)))) h
      have hbelow := ihc (fun p hp => hread p (mem_placed_cons.mpr (.inr (.inl hp)))) hlater
      rw [starts_cons, List.cons_append, List.append_assoc]
      refine .node ?_
      rw [hfirst]
      exact hbelow

end Columnlet

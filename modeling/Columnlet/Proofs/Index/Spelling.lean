import Columnlet.Proofs.Index.Path
import Columnlet.Proofs.Index.Shape

/-! # The bytes that lead to a node

Edges and branch bytes on the way from the root to a node are the bytes with which every key at or
below the node begins. They are read off the bytes of a trie, and are the same as those that lead to
the node in the trie itself. -/

namespace Columnlet

namespace Trie

/-- Where the edge of the node at an offset begins. -/
def edgeStartIn (bs : Bytes) (node : Nat) : Nat :=
  Index.edgeStart node (NodeHeader.readAt bs node)

/-- The edge of the node at an offset. -/
def edgeIn (bs : Bytes) (node : Nat) : Bytes :=
  (bs.drop (edgeStartIn bs node)).take (NodeHeader.readAt bs node).edgeLength

/-- The edges and branch bytes from the root on, up to the edge of a node, spell given bytes. -/
inductive Spells (bs : Bytes) : Nat → Bytes → Prop
  | root : Spells bs 0 []
  | child {node : Nat} {front : Bytes} {slot : ChildSlot} (above : Spells bs node front)
      (mem : slot ∈ slotsIn bs node) :
      Spells bs slot.offset (front ++ edgeIn bs node ++ [slot.branch])

/-- A way leads from the root of a tree to each of its nodes. -/
theorem WellFormed.exists_spells {format : Format} {bs : Bytes} {nodes : List Nat}
    (h : WellFormed format bs nodes) {node : Nat} (hnode : node ∈ nodes) :
    ∃ front, Spells bs node front := by
  induction node using Nat.strongRecOn with
  | ind node ih =>
      by_cases hroot : node = 0
      · exact ⟨[], hroot ▸ .root⟩
      · have honce := h.parent node hnode hroot
        have hmem := List.count_pos_iff.mp (honce ▸ Nat.one_pos)
        obtain ⟨above, habove, hchild⟩ := List.mem_flatMap.mp hmem
        have hlt := (List.pairwise_cons.mp (h.forward above habove)).1 node hchild
        obtain ⟨front, hfront⟩ := ih above hlt habove
        obtain ⟨slot, hslot, rfl⟩ := List.mem_map.mp hchild
        exact ⟨_, .child hfront hslot⟩

end Trie

namespace PlacedNode

variable {format : Format} {bs : Bytes} {p : PlacedNode}

theorem Written.edgeStartIn (h : p.Written format 0 bs) (hfits : p.Fits) :
    Trie.edgeStartIn bs p.start = Trie.edgeAt p.start p.children := by
  rw [Trie.edgeStartIn, h.readAt, Index.edgeStart, header_children hfits, Trie.edgeAt,
    Trie.slotsAt]

theorem Written.edgeIn (h : p.Written format 0 bs) (hfits : p.Fits) :
    Trie.edgeIn bs p.start = p.edge := by
  have hedge := h.edgeStartIn hfits
  rw [Trie.edgeIn, hedge, h.readAt, header_edgeLength hfits]
  obtain ⟨front, node, back, hnode, rfl, hstart⟩ := h
  obtain ⟨slots, hslots, rfl⟩ := Trie.nodeBytes_eq_ok hnode
  have hfront : Trie.edgeAt p.start p.children =
      (front ++ (Bytes.bigEndian NodeHeader.width p.header.toNat ++
        ChildSlot.bytes slots)).length := by
    rw [List.length_append, List.length_append, Bytes.length_bigEndian, ChildSlot.length_bytes,
      Forest.length_slots hslots, Trie.edgeAt, Trie.slotsAt, ← hstart]
    omega
  rw [hfront]
  simp only [header, ← List.append_assoc]
  rw [List.append_assoc front, List.append_assoc _ _ back, List.append_assoc _ p.edge,
    List.drop_left, List.take_left]

end PlacedNode

/-! ## Nodes by the bytes that lead to them -/

/-- In a forest that is written from an offset on, bytes lead to a node: those of the branches and
edges on the way, up to its own edge. Of nodes side by side the first with a byte counts. -/
inductive Forest.Reaches (format : Format) (p : PlacedNode) : Forest → Nat → Bytes → Prop
  | here {branch : UInt8} {siblings : Forest} :
      Reaches format p (.cons branch p.edge p.value p.children siblings) p.start [branch]
  | down {branch byte : UInt8} {edge front : Bytes} {value : Option Slot}
      {children siblings : Forest} {base : Nat}
      (h : Reaches format p children (base + Trie.nodeSize format edge value children)
        (byte :: front)) :
      Reaches format p (.cons branch edge value children siblings) base
        (branch :: (edge ++ byte :: front))
  | later {branch byte : UInt8} {edge front : Bytes} {value : Option Slot}
      {children siblings : Forest} {base : Nat} (other : branch ≠ byte)
      (h : Reaches format p siblings
        (base + Trie.nodeSize format edge value children + children.size format)
        (byte :: front)) :
      Reaches format p (.cons branch edge value children siblings) base (byte :: front)

namespace Forest

variable {format : Format} {p q : PlacedNode} {forest : Forest} {base : Nat} {front : Bytes}

theorem Reaches.mem_placed (h : Reaches format p forest base front) :
    p ∈ forest.placed format base := by
  induction h with
  | here => exact mem_placed_cons.mpr (.inl rfl)
  | down _ ih => exact mem_placed_cons.mpr (.inr (.inl ih))
  | later _ _ ih => exact mem_placed_cons.mpr (.inr (.inr ih))

/-- Bytes lead on from a node to those below it. -/
theorem Reaches.append {byte : UInt8} {rest : Bytes} (h : Reaches format p forest base front)
    (hbelow : Reaches format q p.children (p.below format) (byte :: rest)) :
    Reaches format q forest base (front ++ (p.edge ++ byte :: rest)) := by
  induction h with
  | here => exact .down hbelow
  | down _ ih => simpa using Reaches.down ih
  | later other _ ih => exact .later other ih

/-- The slots of nodes side by side lead to them, each by its branch byte. -/
theorem exists_reaches_of_mem_slots {slots : List ChildSlot} {slot : ChildSlot}
    (h : forest.slots format base = .ok slots) (hbranches : forest.branches.Pairwise (· < ·))
    (hslot : slot ∈ slots) :
    ∃ p, Reaches format p forest base [slot.branch] ∧ p.start = slot.offset := by
  induction forest generalizing base slots with
  | nil =>
      cases h
      cases hslot
  | cons branch edge value children siblings _ ih =>
      rw [Forest.slots] at h
      split at h
      · cases h
      · rename_i first hfirst
        obtain ⟨later, hlater, h⟩ := except_bind_eq_ok_iff.mp h
        cases h
        obtain ⟨hbranch, hoffset⟩ := ChildSlot.of?_eq_some hfirst
        obtain ⟨hless, hrest⟩ := List.pairwise_cons.mp hbranches
        rcases List.mem_cons.mp hslot with rfl | hmem
        · exact ⟨⟨base, edge, value, children⟩, hbranch ▸ .here, hoffset.symm⟩
        · obtain ⟨p, hp, hstart⟩ := ih hlater hrest hmem
          have hbyte : slot.branch ∈ siblings.branches := by
            rw [← (slots_eq hlater).1]
            exact List.mem_map_of_mem hmem
          exact ⟨p, .later (UInt8.ne_of_lt (hless _ hbyte)) hp, hstart⟩

end Forest

/-- Bytes that are spelled on the way to a node of an encoded trie lead to that node. -/
theorem Trie.Spells.exists_reaches {format : Format} {t : Trie} {bs : Bytes} {node : Nat}
    {front : Bytes} (h : Spells bs node front)
    (hwritten : ∀ p ∈ t.forest.placed format 0, p.Written format 0 bs)
    (hfits : t.forest.Fits)
    (hbranches : ∀ p ∈ t.forest.placed format 0, p.children.branches.Pairwise (· < ·)) :
    ∃ p, Forest.Reaches format p t.forest 0 (0 :: front) ∧ p.start = node := by
  induction h with
  | root => exact ⟨⟨0, t.edge, t.value, t.children⟩, .here, rfl⟩
  | child _ hmem ih =>
      obtain ⟨p, hp, rfl⟩ := ih
      have hplaced := hp.mem_placed
      have hfitsHere := Forest.Fits.of_mem_placed hfits hplaced
      obtain ⟨q, hq, hstart⟩ := Forest.exists_reaches_of_mem_slots
        ((hwritten p hplaced).slotsIn hfitsHere) (hbranches p hplaced) hmem
      have hwhole := hp.append hq
      rw [← (hwritten p hplaced).edgeIn hfitsHere] at hwhole
      refine ⟨q, ?_, hstart⟩
      simpa using hwhole

end Columnlet

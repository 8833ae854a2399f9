import Columnlet.Proofs.Index.Semantics
import Columnlet.Proofs.Region

/-! # Tries laid out in regions

A region shows a forest if its nodes stand one after another in the trie of the region, each in
front of those below it. The counts of accesses in value slots are left open: a region goes on
showing a forest while its accesses are counted. -/

namespace Columnlet

variable {n : Nat}

/-! ## Places -/

namespace Trie

/-- Where the child slots of a node stand. -/
def slotsAt (node : Nat) : Nat := node + NodeHeader.width

/-- Where the edge of a node stands. -/
def edgeAt (node : Nat) (children : Forest) : Nat :=
  slotsAt node + ChildSlot.width * children.width

/-- Where the value slot of a node stands. -/
def valueAt (node : Nat) (edge : Bytes) (children : Forest) : Nat :=
  edgeAt node children + edge.length

theorem nodeSize_eq (format : Format) {edge : Bytes} (value : Option Slot) {children : Forest}
    (hedge : edge.length ≤ NodeHeader.maxEdge) (hwidth : children.width ≤ NodeHeader.maxChildren) :
    nodeSize format edge value children =
      valueAt 0 edge children + if value.isSome then format.slotSize else 0 := by
  simp only [NodeHeader.maxEdge, NodeHeader.maxChildren] at hedge hwidth
  simp only [nodeSize, NodeHeader.nodeSize, nodeHeader, NodeHeader.ofCounts, valueAt, edgeAt,
    slotsAt, NodeHeader.width, ChildSlot.width, Fin.ofNat]
  rw [Nat.mod_eq_of_lt (show edge.length < 128 by omega),
    Nat.mod_eq_of_lt (show children.width < 256 by omega)]
  cases value with
  | none => simp only [Option.isSome_none, Bool.false_eq_true, if_false]
  | some s => simp only [Option.isSome_some, if_true]

theorem valueAt_le_nodeSize {format : Format} {edge : Bytes} {value : Option Slot}
    {children : Forest} (node : Nat) (hedge : edge.length ≤ NodeHeader.maxEdge)
    (hwidth : children.width ≤ NodeHeader.maxChildren) :
    valueAt node edge children + (if value.isSome then format.slotSize else 0) =
      node + nodeSize format edge value children := by
  rw [nodeSize_eq format value hedge hwidth]
  simp only [valueAt, edgeAt, slotsAt]
  omega

end Trie

/-! ## Values -/

namespace Slot

/-- The bytes of a slot that do not change while accesses are counted. -/
def fixedBytes (s : Slot) : Format → Bytes
  | .current => Bytes.bigEndian 8 s.offset.toNat ++ Bytes.bigEndian 4 s.length.toNat
  | .legacy =>
    Bytes.bigEndian 8 s.offset.toNat ++ Bytes.bigEndian 8 s.insertedAt.toNat ++
      Bytes.bigEndian 4 s.length.toNat

/-- A region shows a value slot at an offset of its trie, whatever its count of accesses. -/
structure Shown (format : Format) (r : Region n) (s : Slot) (slot : Nat) : Prop where
  fixed : r.Holds (Index.headerSize + slot) (s.fixedBytes format)
  bound : Index.headerSize + slot + format.slotSize ≤ n

/-- How far the count of accesses is into a legacy slot. -/
def counterField : Nat := 20

/-- The locator that a lookup makes of a value slot. -/
def locatorIn (format : Format) (r : Region n) (s : Slot) (slot : Nat) : Locator where
  offset := s.offset
  length := s.length
  legacy :=
    match format with
    | .current => none
    | .legacy => some {
        insertedAt := s.insertedAt
        accessCount := (r.counter? (Index.headerSize + (slot + counterField))).getD 0
        counterAt := slot + counterField
      }

theorem shown_of_holds {format : Format} {r : Region n} {s : Slot} {slot : Nat}
    (h : r.Holds (Index.headerSize + slot) (s.toBytes format)) : s.Shown format r slot := by
  have hbound := h.bound
  rw [length_toBytes] at hbound
  cases format with
  | current => exact ⟨h, hbound⟩
  | legacy => exact ⟨(Region.holds_append.mp h).1, hbound⟩

theorem counter?_of_holds {r : Region n} {s : Slot} {slot : Nat}
    (h : r.Holds (Index.headerSize + slot) (s.toBytes .legacy)) :
    r.counter? (Index.headerSize + (slot + counterField)) = some 0 := by
  have hzero := (Region.holds_append.mp h).2
  simp only [List.length_append, Bytes.length_bigEndian] at hzero
  rw [Nat.add_assoc] at hzero
  have hcount : r.Holds (Index.headerSize + (slot + counterField))
      (Bytes.littleEndian 4 (0 : UInt32).toNat) := hzero
  exact hcount.counter?

theorem Shown.congr {format : Format} {r r' : Region n} {s : Slot} {slot : Nat}
    (h : s.Shown format r slot)
    (same : ∀ i, Index.headerSize + slot ≤ i →
      i < Index.headerSize + slot + (s.fixedBytes format).length → r'.get i = r.get i) :
    s.Shown format r' slot :=
  ⟨h.fixed.congr same, h.bound⟩

end Slot

/-! ## Nodes -/

/-- The bytes of child slots, one after another. -/
def ChildSlot.bytes (slots : List ChildSlot) : Bytes :=
  slots.flatMap fun slot => Bytes.bigEndian ChildSlot.width slot.toNat

theorem ChildSlot.length_bytes (slots : List ChildSlot) :
    (ChildSlot.bytes slots).length = ChildSlot.width * slots.length := by
  induction slots with
  | nil => rfl
  | cons slot slots ih =>
      simp only [ChildSlot.bytes, List.flatMap_cons, List.length_append, Bytes.length_bigEndian,
        List.length_cons, Nat.mul_add] at ih ⊢
      omega

/-- A region shows a node at an offset of its trie, of which the first child stands at another. -/
structure NodeShown (format : Format) (r : Region n) (node below : Nat) (edge : Bytes)
    (value : Option Slot) (children : Forest) : Prop where
  fitsEdge : edge.length ≤ NodeHeader.maxEdge
  fitsWidth : children.width ≤ NodeHeader.maxChildren
  headerHeld : r.Holds (Index.headerSize + node)
    (Bytes.bigEndian NodeHeader.width (Trie.nodeHeader edge value children).toNat)
  slotsHeld : ∃ slots, children.slots format below = .ok slots ∧
    r.Holds (Index.headerSize + Trie.slotsAt node) (ChildSlot.bytes slots)
  edgeHeld : r.Holds (Index.headerSize + Trie.edgeAt node children) edge
  valueShown : ∀ slot ∈ value, slot.Shown format r (Trie.valueAt node edge children)

namespace Forest

/-- A region shows the nodes of a forest, from an offset of its trie on. -/
def Shown (format : Format) (r : Region n) : Forest → Nat → Prop
  | nil, _ => True
  | cons _ edge value children siblings, node =>
    NodeShown format r node (node + Trie.nodeSize format edge value children) edge value children ∧
      children.Shown format r (node + Trie.nodeSize format edge value children) ∧
      siblings.Shown format r
        (node + Trie.nodeSize format edge value children + children.size format)

/-- What the nodes of a forest store for a key, and where in the trie it stands. -/
def locate? (format : Format) : Forest → Nat → Bytes → Option (Slot × Nat)
  | nil, _, _ => none
  | cons _ _ _ _ _, _, [] => none
  | cons branch edge value children siblings, node, byte :: key =>
    if branch = byte then
      follow edge (value.map fun slot => (slot, Trie.valueAt node edge children))
        (children.locate? format (node + Trie.nodeSize format edge value children)) key
    else
      siblings.locate? format
        (node + Trie.nodeSize format edge value children + children.size format) (byte :: key)

end Forest

namespace Trie

/-- A region shows a trie. -/
def Shown (format : Format) (r : Region n) (t : Trie) : Prop :=
  NodeShown format r 0 (nodeSize format t.edge t.value t.children) t.edge t.value t.children ∧
    t.children.Shown format r (nodeSize format t.edge t.value t.children)

/-- What a trie stores for a key, and where it stands. -/
def locate? (format : Format) (t : Trie) (key : Bytes) : Option (Slot × Nat) :=
  follow t.edge (t.value.map fun slot => (slot, valueAt 0 t.edge t.children))
    (t.children.locate? format (nodeSize format t.edge t.value t.children)) key

/-- The bytes of a trie. -/
def size (format : Format) (t : Trie) : Nat :=
  nodeSize format t.edge t.value t.children + t.children.size format

end Trie

theorem follow_map {α β : Type} (f : α → β) (edge : Bytes) (value : Option α)
    (below : Bytes → Option α) (key : Bytes) :
    (follow edge value below key).map f =
      follow edge (value.map f) (fun rest => (below rest).map f) key := by
  unfold follow
  split
  · split <;> rfl
  · rfl

theorem follow_eq_some {α : Type} {edge : Bytes} {value : Option α} {below : Bytes → Option α}
    {key : Bytes} {x : α} (h : follow edge value below key = some x) :
    (key = edge ∧ value = some x) ∨ ∃ rest, below rest = some x ∧ key = edge ++ rest := by
  by_cases hkey : edge <+: key
  · obtain ⟨rest, rfl⟩ := hkey
    rw [follow_append] at h
    split at h
    · rename_i hrest
      exact .inl ⟨by simp [hrest], h⟩
    · exact .inr ⟨rest, h, rfl⟩
  · rw [follow_of_not_isPrefix _ _ hkey] at h
    cases h

theorem Forest.map_locate? (format : Format) (forest : Forest) (node : Nat) (key : Bytes) :
    (forest.locate? format node key).map Prod.fst = forest.find? key := by
  induction forest generalizing node key with
  | nil => rfl
  | cons branch edge value children siblings ihc ihs =>
      cases key with
      | nil => rfl
      | cons byte key =>
          by_cases hb : branch = byte
          · simp [locate?, find?, hb, follow_map, Function.comp_def, ihc]
          · simp [locate?, find?, hb, ihs]

theorem Trie.map_locate? (format : Format) (t : Trie) (key : Bytes) :
    (t.locate? format key).map Prod.fst = t.find? key := by
  simp [locate?, find?, follow_map, Function.comp_def, Forest.map_locate?]

/-! ## What encoding writes -/

theorem ChildSlot.of?_eq_some {branch : UInt8} {offset : Nat} {slot : ChildSlot}
    (h : ChildSlot.of? branch offset = some slot) :
    slot.branch = branch ∧ slot.offset = offset := by
  unfold ChildSlot.of? at h
  split at h
  · cases h
    exact ⟨rfl, rfl⟩
  · cases h

theorem Forest.length_slots {format : Format} {forest : Forest} {offset : Nat}
    {slots : List ChildSlot} (h : forest.slots format offset = .ok slots) :
    slots.length = forest.width := by
  induction forest generalizing offset slots with
  | nil =>
      cases h
      rfl
  | cons branch edge value children siblings _ ih =>
      rw [Forest.slots] at h
      split at h
      · cases h
      · obtain ⟨later, hlater, h⟩ := except_bind_eq_ok_iff.mp h
        cases h
        rw [List.length_cons, ih hlater, width]

theorem Trie.nodeBytes_eq_ok {format : Format} {below : Nat} {edge : Bytes} {value : Option Slot}
    {children : Forest} {bs : Bytes} (h : nodeBytes format below edge value children = .ok bs) :
    ∃ slots, children.slots format below = .ok slots ∧
      bs = Bytes.bigEndian NodeHeader.width (nodeHeader edge value children).toNat ++
        ChildSlot.bytes slots ++ edge ++ (value.map (·.toBytes format)).getD [] := by
  obtain ⟨slots, hslots, h⟩ := except_bind_eq_ok_iff.mp h
  exact ⟨slots, hslots, (Except.ok.inj h).symm⟩

theorem Trie.length_nodeBytes {format : Format} {below : Nat} {edge : Bytes}
    {value : Option Slot} {children : Forest} {bs : Bytes}
    (h : nodeBytes format below edge value children = .ok bs)
    (hedge : edge.length ≤ NodeHeader.maxEdge) (hwidth : children.width ≤ NodeHeader.maxChildren) :
    bs.length = nodeSize format edge value children := by
  obtain ⟨slots, hslots, rfl⟩ := nodeBytes_eq_ok h
  rw [nodeSize_eq format value hedge hwidth]
  cases value <;>
    simp [ChildSlot.length_bytes, Forest.length_slots hslots, valueAt, edgeAt, slotsAt,
      Nat.add_assoc]

theorem Forest.encode_cons_eq_ok {format : Format} {node : Nat} {branch : UInt8} {edge : Bytes}
    {value : Option Slot} {children siblings : Forest} {bs : Bytes}
    (h : (cons branch edge value children siblings).encode format node = .ok bs) :
    ∃ first lower later,
      Trie.nodeBytes format (node + Trie.nodeSize format edge value children) edge value children =
        .ok first ∧
      children.encode format (node + Trie.nodeSize format edge value children) = .ok lower ∧
      siblings.encode format
        (node + Trie.nodeSize format edge value children + children.size format) = .ok later ∧
      bs = first ++ lower ++ later := by
  obtain ⟨first, hfirst, h⟩ := except_bind_eq_ok_iff.mp h
  obtain ⟨lower, hlower, h⟩ := except_bind_eq_ok_iff.mp h
  obtain ⟨later, hlater, h⟩ := except_bind_eq_ok_iff.mp h
  exact ⟨first, lower, later, hfirst, hlower, hlater, (Except.ok.inj h).symm⟩

theorem Forest.encode_cons_of_ok {format : Format} {node : Nat} {edge : Bytes}
    {value : Option Slot} {children siblings : Forest} {first lower later : Bytes} (branch : UInt8)
    (hfirst : Trie.nodeBytes format (node + Trie.nodeSize format edge value children) edge value
      children = .ok first)
    (hlower : children.encode format (node + Trie.nodeSize format edge value children) = .ok lower)
    (hlater : siblings.encode format
      (node + Trie.nodeSize format edge value children + children.size format) = .ok later) :
    (cons branch edge value children siblings).encode format node =
      .ok (first ++ lower ++ later) := by
  refine except_bind_eq_ok_iff.mpr ⟨first, hfirst, ?_⟩
  refine except_bind_eq_ok_iff.mpr ⟨lower, hlower, ?_⟩
  exact except_bind_eq_ok_iff.mpr ⟨later, hlater, rfl⟩

theorem Forest.length_encode {format : Format} {forest : Forest} {node : Nat} {bs : Bytes}
    (h : forest.encode format node = .ok bs) (hfits : forest.Fits) :
    bs.length = forest.size format := by
  induction forest generalizing node bs with
  | nil =>
      cases h
      rfl
  | cons branch edge value children siblings ihc ihs =>
      obtain ⟨hedge, hwidth, hchildren, hsiblings⟩ := hfits
      obtain ⟨first, lower, later, hfirst, hlower, hlater, rfl⟩ := encode_cons_eq_ok h
      rw [List.length_append, List.length_append, Trie.length_nodeBytes hfirst hedge hwidth,
        ihc hlower hchildren, ihs hlater hsiblings, size]

/-! ## What a region with those bytes shows -/

theorem nodeShown_of_holds {format : Format} {r : Region n} (node : Nat) {below : Nat}
    {edge : Bytes} {value : Option Slot} {children : Forest} {bs : Bytes}
    (h : Trie.nodeBytes format below edge value children = .ok bs)
    (hedge : edge.length ≤ NodeHeader.maxEdge) (hwidth : children.width ≤ NodeHeader.maxChildren)
    (hr : r.Holds (Index.headerSize + node) bs) :
    NodeShown format r node below edge value children ∧
      ∀ slot ∈ value, r.Holds (Index.headerSize + Trie.valueAt node edge children)
        (slot.toBytes format) := by
  obtain ⟨slots, hslots, rfl⟩ := Trie.nodeBytes_eq_ok h
  simp only [Region.holds_append, List.length_append, Bytes.length_bigEndian,
    ChildSlot.length_bytes, Forest.length_slots hslots] at hr
  obtain ⟨⟨⟨hheader, hchildren⟩, hedgeHeld⟩, hvalue⟩ := hr
  have hvalueHeld : ∀ slot ∈ value,
      r.Holds (Index.headerSize + Trie.valueAt node edge children) (slot.toBytes format) := by
    intro slot hslot
    obtain rfl : value = some slot := hslot
    simpa [Trie.valueAt, Trie.edgeAt, Trie.slotsAt, Nat.add_assoc] using hvalue
  refine ⟨⟨hedge, hwidth, hheader, ⟨slots, hslots, ?_⟩, ?_, ?_⟩, hvalueHeld⟩
  · simpa [Trie.slotsAt, Nat.add_assoc] using hchildren
  · simpa [Trie.edgeAt, Trie.slotsAt, Nat.add_assoc] using hedgeHeld
  · intro slot hslot
    exact Slot.shown_of_holds (hvalueHeld slot hslot)

/-- A region that holds the bytes of a forest shows it, and holds its value slots as written. -/
theorem Forest.shown_of_holds {format : Format} {r : Region n} {forest : Forest} {node : Nat}
    {bs : Bytes} (h : forest.encode format node = .ok bs) (hfits : forest.Fits)
    (hr : r.Holds (Index.headerSize + node) bs) :
    forest.Shown format r node ∧
      ∀ key slot place, forest.locate? format node key = some (slot, place) →
        r.Holds (Index.headerSize + place) (slot.toBytes format) := by
  induction forest generalizing node bs with
  | nil => exact ⟨trivial, by simp [locate?]⟩
  | cons branch edge value children siblings ihc ihs =>
      obtain ⟨hedge, hwidth, hchildren, hsiblings⟩ := hfits
      obtain ⟨first, lower, later, hfirst, hlower, hlater, rfl⟩ := encode_cons_eq_ok h
      simp only [Region.holds_append, List.length_append,
        Trie.length_nodeBytes hfirst hedge hwidth, length_encode hlower hchildren,
        Nat.add_assoc] at hr
      obtain ⟨⟨hfirstHeld, hlowerHeld⟩, hlaterHeld⟩ := hr
      obtain ⟨hnode, hvalue⟩ := nodeShown_of_holds node hfirst hedge hwidth hfirstHeld
      obtain ⟨hc, hcHeld⟩ := ihc hlower hchildren hlowerHeld
      obtain ⟨hs, hsHeld⟩ := ihs hlater hsiblings (by simpa [Nat.add_assoc] using hlaterHeld)
      refine ⟨⟨hnode, hc, hs⟩, ?_⟩
      intro key slot place hkey
      cases key with
      | nil => simp [locate?] at hkey
      | cons byte key =>
          by_cases hb : branch = byte
          · rw [locate?, if_pos hb] at hkey
            rcases follow_eq_some hkey with ⟨_, hvalueAt⟩ | ⟨rest, hbelow, _⟩
            · obtain ⟨s, hs, hpair⟩ := Option.map_eq_some_iff.mp hvalueAt
              cases hpair
              exact hvalue slot hs
            · exact hcHeld rest slot place hbelow
          · rw [locate?, if_neg hb] at hkey
            exact hsHeld (byte :: key) slot place hkey

end Columnlet

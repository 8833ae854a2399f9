import Columnlet.Proofs.Index.Layout
import Columnlet.Proofs.Index.Lookup

/-! # Walks through a trie that a region shows

Each part of a visit reads back what the region shows, so a lookup finds what the trie stores, and
is never stopped by malformed data. -/

namespace Columnlet

variable {n : Nat}

namespace Index

/-! ## Reading a node back -/

theorem number_of_holds {r : Region n} {offset width k : Nat} (hk : k < 256 ^ width)
    (h : r.Holds (headerSize + offset) (Bytes.bigEndian width k)) :
    number r width offset = .ok k := by
  have hread : r.read? (headerSize + offset) width = some (Bytes.bigEndian width k) := by
    simpa [Region.Holds] using h
  rw [number, read, hread]
  simp only [Except.map]
  rw [Bytes.bigNat_bigEndian, Nat.mod_eq_of_lt hk]

theorem header_of_shown {format : Format} {r : Region n} {node below : Nat} {edge : Bytes}
    {value : Option Slot} {children : Forest}
    (h : NodeShown format r node below edge value children) :
    header r node = .ok (Trie.nodeHeader edge value children) := by
  have hlt : (Trie.nodeHeader edge value children).toNat < 256 ^ NodeHeader.width := by
    have := (Trie.nodeHeader edge value children).toNat_lt
    simp only [NodeHeader.width]
    omega
  rw [header, number_of_holds hlt h.headerHeld]
  simp only [Except.map, NodeHeader.ofNat_toNat]

/-- Where the first node of a forest stands to which a byte leads. -/
def childAt? (format : Format) : Forest → Nat → UInt8 → Option Nat
  | .nil, _, _ => none
  | .cons branch edge value children siblings, node, byte =>
    if branch = byte then some node
    else
      childAt? format siblings
        (node + Trie.nodeSize format edge value children + children.size format) byte

theorem findChild_succ {r : Region n} {offset k : Nat} {slot : ChildSlot}
    (h : number r ChildSlot.width offset = .ok k) (hk : ChildSlot.ofNat k = slot) (count : Nat)
    (byte : UInt8) :
    findChild r offset (count + 1) byte =
      if slot.branch = byte then .ok (some (slot.offset : Nat))
      else findChild r (offset + ChildSlot.width) count byte := by
  rw [findChild, h]
  simp only [bind, Except.bind, hk]
  split <;> rfl

theorem findChild_of_holds {format : Format} {r : Region n} {forest : Forest} {node offset : Nat}
    {slots : List ChildSlot} (hslots : forest.slots format node = .ok slots)
    (h : r.Holds (headerSize + offset) (ChildSlot.bytes slots)) (byte : UInt8) :
    findChild r offset forest.width byte = .ok (childAt? format forest node byte) := by
  induction forest generalizing node offset slots with
  | nil => rfl
  | cons branch edge value children siblings _ ih =>
      rw [Forest.slots] at hslots
      split at hslots
      · cases hslots
      · rename_i slot hslot
        obtain ⟨later, hlater, hslots⟩ := except_bind_eq_ok_iff.mp hslots
        cases hslots
        obtain ⟨hfirst, hrest⟩ := Region.holds_append.mp h
        rw [Bytes.length_bigEndian, Nat.add_assoc] at hrest
        obtain ⟨hbranch, hoffset⟩ := ChildSlot.of?_eq_some hslot
        have hlt : slot.toNat < 256 ^ ChildSlot.width := by
          have := slot.toNat_lt
          simp only [ChildSlot.width]
          omega
        rw [Forest.width, findChild_succ (number_of_holds hlt hfirst) (ChildSlot.ofNat_toNat slot),
          hbranch, hoffset, childAt?]
        split
        · rfl
        · exact ih hlater hrest

theorem edgeMatches_of_holds {r : Region n} {offset : Nat} {edge : Bytes}
    (h : r.Holds (headerSize + offset) edge) (key : Bytes) :
    edgeMatches r offset edge.length key = .ok (edge.isPrefixOf key) := by
  unfold edgeMatches
  split
  · rename_i hshort
    have hnot : ¬ edge <+: key := fun hp => by
      have := hp.length_le
      omega
    have hfalse : edge.isPrefixOf key = false := by
      rw [← Bool.not_eq_true, List.isPrefixOf_iff_prefix]
      exact hnot
    rw [hfalse]
  · split
    · rename_i hzero
      rw [List.length_eq_zero_iff.mp hzero]
      rfl
    · have hread : r.read? (headerSize + offset) edge.length = some edge := h
      rw [read, hread]
      simp only [Except.map]
      congr 1
      rw [Bool.eq_iff_iff, beq_iff_eq, List.isPrefixOf_iff_prefix, List.prefix_iff_eq_take]

theorem locator_of_shown {format : Format} {r : Region n} {s : Slot} {slot : Nat}
    (h : s.Shown format r slot) : locator format r slot = .ok (s.locatorIn format r slot) := by
  have hfixed := h.fixed
  have hbound := h.bound
  have hoffset : s.offset.toNat < 256 ^ 8 := by
    have := s.offset.toNat_lt
    omega
  have htime : s.insertedAt.toNat < 256 ^ 8 := by
    have := s.insertedAt.toNat_lt
    omega
  have hlength : s.length.toNat < 256 ^ 4 := by
    have := s.length.toNat_lt
    omega
  cases format with
  | current =>
      obtain ⟨ho, hl⟩ := Region.holds_append.mp hfixed
      rw [Bytes.length_bigEndian, Nat.add_assoc] at hl
      rw [locator, number_of_holds hoffset ho]
      simp only [bind, Except.bind, number_of_holds hlength hl, pure, Except.pure, Slot.locatorIn,
        UInt64.ofNat_toNat, UInt32.ofNat_toNat]
  | legacy =>
      obtain ⟨hot, hl⟩ := Region.holds_append.mp hfixed
      obtain ⟨ho, ht⟩ := Region.holds_append.mp hot
      simp only [List.length_append, Bytes.length_bigEndian, Nat.add_assoc] at hl ht
      have hcount : (r.counter? (headerSize + (slot + Slot.counterField))).isSome := by
        simp only [Region.counter?, Region.little?, Option.isSome_map, Region.read?_isSome_iff,
          Slot.counterField, Format.slotSize] at hbound ⊢
        omega
      obtain ⟨count, hcount⟩ := Option.isSome_iff_exists.mp hcount
      rw [locator, number_of_holds hoffset ho]
      simp only [bind, Except.bind, number_of_holds htime ht, number_of_holds hlength hl, pure,
        Except.pure, Slot.locatorIn, UInt64.ofNat_toNat, UInt32.ofNat_toNat]
      rw [Slot.counterField] at hcount
      simp only [Slot.counterField, hcount, Option.getD_some]

/-! ## Visits -/

/-- What a visit to a shown node comes to, by what is left of the key behind its edge. -/
theorem visit_of_shown {format : Format} {r : Region n} {node below : Nat} {edge : Bytes}
    {value : Option Slot} {children : Forest}
    (h : NodeShown format r node below edge value children) (key : Bytes) :
    visit format r node key =
      if edge <+: key then
        match key.drop edge.length with
        | [] => .ok (.finish (value.map fun s =>
            s.locatorIn format r (Trie.valueAt node edge children)))
        | byte :: rest =>
          match childAt? format children below byte with
          | none => .ok (.finish none)
          | some child => .ok (.descend child rest)
      else .ok (.finish none) := by
  have hedge : ((Trie.nodeHeader edge value children).edgeLength : Nat) = edge.length := by
    have := h.fitsEdge
    simp only [NodeHeader.maxEdge] at this
    exact Nat.mod_eq_of_lt (by omega)
  have hwidth : ((Trie.nodeHeader edge value children).children : Nat) = children.width := by
    have := h.fitsWidth
    simp only [NodeHeader.maxChildren] at this
    exact Nat.mod_eq_of_lt (by omega)
  have hvalue : (Trie.nodeHeader edge value children).hasValue = value.isSome := rfl
  have hmatch : edgeMatches r (node + NodeHeader.width + ChildSlot.width * children.width)
      edge.length key = .ok (edge.isPrefixOf key) := edgeMatches_of_holds h.edgeHeld key
  obtain ⟨slots, hslots, hheld⟩ := h.slotsHeld
  have hfind : ∀ byte, findChild r (node + NodeHeader.width) children.width byte =
      .ok (childAt? format children below byte) := findChild_of_holds hslots hheld
  simp only [visit, header_of_shown h, bind, Except.bind, hedge, hwidth, hvalue, hmatch]
  by_cases hp : edge <+: key
  · have htrue : edge.isPrefixOf key = true := List.isPrefixOf_iff_prefix.mpr hp
    simp only [htrue, hp, Bool.not_true, Bool.false_eq_true, if_false, if_true]
    cases key.drop edge.length with
    | nil =>
        cases value with
        | none => rfl
        | some s =>
            have hs := locator_of_shown (h.valueShown s rfl)
            simp only [Trie.valueAt, Trie.edgeAt, Trie.slotsAt] at hs ⊢
            simp [hs, pure, Except.pure]
    | cons byte rest =>
        simp only [hfind byte]
        cases childAt? format children below byte <;> rfl
  · have hfalse : edge.isPrefixOf key = false := by
      rw [← Bool.not_eq_true, List.isPrefixOf_iff_prefix]
      exact hp
    simp only [hfalse, hp, Bool.not_false, if_true, if_false]
    rfl

/-! ## Walks -/

/-- What a lookup makes of what it finds. -/
def report (format : Format) (r : Region n) (found : Option (Slot × Nat)) :
    Except Error (Option Locator) :=
  .ok (found.map fun (s, slot) => s.locatorIn format r slot)

/-- A walk from a shown node finds what the node and those below it store, if walks from those
below it do. -/
theorem lookupFrom_of_shown {format : Format} {r : Region n} {node below : Nat} {edge : Bytes}
    {value : Option Slot} {children : Forest}
    (h : NodeShown format r node below edge value children)
    (hchildren : ∀ byte rest, match childAt? format children below byte with
      | none => children.locate? format below (byte :: rest) = none
      | some child => lookupFrom format r child rest =
          report format r (children.locate? format below (byte :: rest)))
    (key : Bytes) :
    lookupFrom format r node key =
      report format r (follow edge
        (value.map fun slot => (slot, Trie.valueAt node edge children))
        (children.locate? format below) key) := by
  have hvisit := visit_of_shown h key
  by_cases hp : edge <+: key
  · obtain ⟨rest, rfl⟩ := hp
    rw [if_pos (List.prefix_append edge rest), List.drop_left] at hvisit
    rw [follow_append]
    cases rest with
    | nil =>
        rw [lookupFrom_of_finish hvisit, if_pos rfl]
        cases value <;> rfl
    | cons byte rest =>
        have hbyte := hchildren byte rest
        rw [if_neg (by simp)]
        cases hchild : childAt? format children below byte with
        | none =>
            simp only [hchild] at hvisit hbyte
            rw [lookupFrom_of_finish hvisit, hbyte]
            rfl
        | some child =>
            simp only [hchild] at hvisit hbyte
            rw [lookupFrom_of_descend hvisit]
            exact hbyte
  · rw [if_neg hp] at hvisit
    rw [lookupFrom_of_finish hvisit, follow_of_not_isPrefix _ _ hp]
    rfl

theorem lookupFrom_childAt? {format : Format} {r : Region n} {forest : Forest} {node : Nat}
    (h : forest.Shown format r node) (byte : UInt8) (rest : Bytes) :
    match childAt? format forest node byte with
    | none => forest.locate? format node (byte :: rest) = none
    | some child => lookupFrom format r child rest =
        report format r (forest.locate? format node (byte :: rest)) := by
  induction forest generalizing node byte rest with
  | nil => rfl
  | cons branch edge value children siblings ihc ihs =>
      obtain ⟨hnode, hchildren, hsiblings⟩ := h
      by_cases hb : branch = byte
      · simp only [childAt?, Forest.locate?, if_pos hb]
        exact lookupFrom_of_shown hnode (fun byte rest => ihc hchildren byte rest) rest
      · simp only [childAt?, Forest.locate?, if_neg hb]
        exact ihs hsiblings byte rest

/-- A lookup in a region that shows a trie finds what the trie stores. -/
theorem lookupIn_of_shown {format : Format} {r : Region n} {t : Trie} (h : t.Shown format r)
    (key : Bytes) : lookupIn format r key = report format r (t.locate? format key) :=
  lookupFrom_of_shown h.1 (lookupFrom_childAt? h.2) key

end Index

end Columnlet

import Columnlet.Format

/-!
The fixed parts of a trie node: a header of two bytes and child slots of eight. A node is its
header, its child slots, its edge and, if the header says so, a value slot.
-/

namespace Columnlet

/-! ## Headers -/

/-- What the first two bytes of a node say. -/
structure NodeHeader where
  hasValue : Bool
  edgeLength : Fin 128
  children : Fin 256
  deriving DecidableEq, Repr

namespace NodeHeader

/-- The longest edge that a node can carry. -/
def maxEdge : Nat := 127

/-- The most children that a node can have. -/
def maxChildren : Nat := 255

/-- The bytes of a header. -/
def width : Nat := 2

/-- The header of a node with an edge and children of given counts, within their limits. -/
def ofCounts (hasValue : Bool) (edgeLength children : Nat) : NodeHeader :=
  ⟨hasValue, Fin.ofNat 128 edgeLength, Fin.ofNat 256 children⟩

/-- The header that a 16-bit number stands for: a flag, seven bits of edge length, and the number
of children as a signed byte that is 128 too small. -/
def ofNat (n : Nat) : NodeHeader :=
  ⟨n / 0x8000 % 2 = 1, Fin.ofNat 128 (n / 256), Fin.ofNat 256 (n + 128)⟩

/-- The number that stands for a header. -/
def toNat (h : NodeHeader) : Nat :=
  (if h.hasValue then 0x8000 else 0) + h.edgeLength * 256 + (h.children + 128) % 256

theorem toNat_lt (h : NodeHeader) : h.toNat < 0x10000 := by
  have := h.edgeLength.isLt
  unfold toNat
  split <;> omega

theorem ofNat_toNat (h : NodeHeader) : ofNat h.toNat = h := by
  obtain ⟨v, ⟨e, he⟩, ⟨c, hc⟩⟩ := h
  have flag : (toNat ⟨v, ⟨e, he⟩, ⟨c, hc⟩⟩ / 0x8000 % 2 = 1) ↔ v = true := by
    cases v <;> simp only [toNat, if_true, if_false, Bool.false_eq_true, iff_true, iff_false] <;>
      omega
  have edge : toNat ⟨v, ⟨e, he⟩, ⟨c, hc⟩⟩ / 256 % 128 = e := by
    simp only [toNat]
    split <;> omega
  have children : (toNat ⟨v, ⟨e, he⟩, ⟨c, hc⟩⟩ + 128) % 256 = c := by
    simp only [toNat]
    split <;> omega
  simp only [ofNat, NodeHeader.mk.injEq]
  refine ⟨?_, Fin.ext edge, Fin.ext children⟩
  cases v <;> simp only [flag, Bool.false_eq_true, decide_true, decide_false]

theorem toNat_ofNat {n : Nat} (h : n < 0x10000) : (ofNat n).toNat = n := by
  have hedge : ((ofNat n).edgeLength : Nat) = n / 256 % 128 := rfl
  have hchildren : ((ofNat n).children : Nat) = (n + 128) % 256 := rfl
  by_cases hv : n / 0x8000 % 2 = 1
  · have hflag : (ofNat n).hasValue = true := decide_eq_true hv
    rw [toNat, hedge, hchildren, hflag, if_pos rfl]
    omega
  · have hflag : (ofNat n).hasValue = false := decide_eq_false hv
    rw [toNat, hedge, hchildren, hflag, if_neg Bool.false_ne_true]
    omega

/-- The bytes of a whole node with this header. -/
def nodeSize (h : NodeHeader) (format : Format) : Nat :=
  width + 8 * h.children + h.edgeLength + if h.hasValue then format.slotSize else 0

end NodeHeader

/-! ## Child slots -/

/-- Where the keys go on that continue with a given byte: the trie offset of a child node. -/
structure ChildSlot where
  branch : UInt8
  offset : Fin 0x100000000000000
  deriving DecidableEq

namespace ChildSlot

/-- The bytes of a slot. -/
def width : Nat := 8

/-- The slot that a 64-bit number stands for: the branch byte on top of 56 bits of offset. -/
def ofNat (n : Nat) : ChildSlot :=
  ⟨UInt8.ofNat (n / 0x100000000000000), Fin.ofNat 0x100000000000000 n⟩

/-- The number that stands for a slot. -/
def toNat (s : ChildSlot) : Nat := s.branch.toNat * 0x100000000000000 + s.offset

/-- The slot for a branch byte and an offset, if the offset fits. -/
def of? (branch : UInt8) (offset : Nat) : Option ChildSlot :=
  if h : offset < 0x100000000000000 then some ⟨branch, ⟨offset, h⟩⟩ else none

theorem toNat_lt (s : ChildSlot) : s.toNat < 0x10000000000000000 := by
  have hb : s.branch.toNat < 256 := s.branch.toNat_lt
  have ho := s.offset.isLt
  unfold toNat
  omega

theorem ofNat_toNat (s : ChildSlot) : ofNat s.toNat = s := by
  obtain ⟨b, ⟨o, ho⟩⟩ := s
  have hdiv : (b.toNat * 0x100000000000000 + o) / 0x100000000000000 = b.toNat := by omega
  have hmod : (b.toNat * 0x100000000000000 + o) % 0x100000000000000 = o := by omega
  simp only [ofNat, toNat, ChildSlot.mk.injEq]
  exact ⟨by rw [hdiv, UInt8.ofNat_toNat], Fin.ext hmod⟩

end ChildSlot

end Columnlet

import Columnlet.Proofs.Index.Layout
import Columnlet.Proofs.Index.Lookup

/-! # Counts of accesses inside a trie

The value slots of different keys do not meet, and a region goes on showing a trie when only a
count of accesses in one of its slots changes. -/

namespace Columnlet

variable {n : Nat}

/-! ## What a node depends on -/

namespace Slot

/-- How many bytes of a slot do not change while accesses are counted. -/
def fixedSize : Format → Nat
  | .current => 12
  | .legacy => 20

theorem length_fixedBytes (format : Format) (s : Slot) :
    (s.fixedBytes format).length = fixedSize format := by
  cases format <;> simp [fixedBytes, fixedSize]

theorem fixedSize_le (format : Format) : fixedSize format ≤ format.slotSize := by
  cases format <;> decide

end Slot

theorem NodeShown.congr {format : Format} {r s : Region n} {node below : Nat} {edge : Bytes}
    {value : Option Slot} {children : Forest}
    (h : NodeShown format r node below edge value children)
    (same : ∀ i, Index.headerSize + node ≤ i →
      i < Index.headerSize + Trie.valueAt node edge children ∨
        (value.isSome ∧
          i < Index.headerSize + Trie.valueAt node edge children + Slot.fixedSize format) →
      s.get i = r.get i) :
    NodeShown format s node below edge value children := by
  obtain ⟨hedge, hwidth, hheader, ⟨slots, hslots, hheld⟩, hedgeHeld, hvalue⟩ := h
  simp only [Trie.valueAt, Trie.edgeAt, Trie.slotsAt] at same hheld hedgeHeld
  refine ⟨hedge, hwidth, hheader.congr ?_, ⟨slots, hslots, hheld.congr ?_⟩, hedgeHeld.congr ?_, ?_⟩
  · intro i hlow hhigh
    rw [Bytes.length_bigEndian] at hhigh
    exact same i hlow (.inl (by omega))
  · intro i hlow hhigh
    rw [ChildSlot.length_bytes, Forest.length_slots hslots] at hhigh
    exact same i (by omega) (.inl (by omega))
  · intro i hlow hhigh
    exact same i (by omega) (.inl (by omega))
  · intro slot hslot
    refine (hvalue slot hslot).congr ?_
    intro i hlow hhigh
    rw [Slot.length_fixedBytes] at hhigh
    simp only [Trie.valueAt, Trie.edgeAt, Trie.slotsAt] at hlow hhigh
    exact same i (by omega) (.inr ⟨by rw [Option.mem_def.mp hslot]; rfl, hhigh⟩)

/-- All bytes of a shown node belong to it. -/
theorem NodeShown.valueAt_le {format : Format} {r : Region n} {node below : Nat} {edge : Bytes}
    {value : Option Slot} {children : Forest}
    (h : NodeShown format r node below edge value children) :
    Trie.valueAt node edge children + (if value.isSome then format.slotSize else 0) =
      node + Trie.nodeSize format edge value children :=
  Trie.valueAt_le_nodeSize node h.fitsEdge h.fitsWidth

namespace Forest

/-! ## Places of values -/

/-- Where a value that a forest stores can be: in the first node, below it, or in a later one. -/
theorem locate?_cons_eq_some {format : Format} {branch : UInt8} {edge : Bytes}
    {value : Option Slot} {children siblings : Forest} {node : Nat} {key : Bytes} {slot : Slot}
    {place : Nat}
    (h : (cons branch edge value children siblings).locate? format node key =
      some (slot, place)) :
    (key = branch :: edge ∧ value = some slot ∧ place = Trie.valueAt node edge children) ∨
    (∃ rest, key = branch :: (edge ++ rest) ∧
      children.locate? format (node + Trie.nodeSize format edge value children) rest =
        some (slot, place)) ∨
    siblings.locate? format
        (node + Trie.nodeSize format edge value children + children.size format) key =
      some (slot, place) := by
  cases key with
  | nil => cases h
  | cons byte key =>
      rw [locate?] at h
      by_cases hb : branch = byte
      · rw [if_pos hb] at h
        rcases follow_eq_some h with ⟨hkey, hvalue⟩ | ⟨rest, hbelow, hkey⟩
        · obtain ⟨s, hs, hpair⟩ := Option.map_eq_some_iff.mp hvalue
          cases hpair
          exact .inl ⟨by rw [hb, hkey], hs, rfl⟩
        · exact .inr (.inl ⟨rest, by rw [hb, hkey], hbelow⟩)
      · rw [if_neg hb] at h
        exact .inr (.inr h)

theorem locate?_bounds {format : Format} {r : Region n} {forest : Forest} {node : Nat}
    {key : Bytes} {slot : Slot} {place : Nat} (h : forest.Shown format r node)
    (hloc : forest.locate? format node key = some (slot, place)) :
    node ≤ place ∧ place + format.slotSize ≤ node + forest.size format := by
  induction forest generalizing node key with
  | nil => cases hloc
  | cons branch edge value children siblings ihc ihs =>
      obtain ⟨hnode, hchildren, hsiblings⟩ := h
      rw [size]
      rcases locate?_cons_eq_some hloc with ⟨_, hvalue, rfl⟩ | ⟨rest, _, hbelow⟩ | hlater
      · have hend := hnode.valueAt_le
        rw [hvalue, Option.isSome_some, if_pos rfl] at hend
        simp only [Trie.valueAt, Trie.edgeAt, Trie.slotsAt] at hend ⊢
        rw [hvalue]
        omega
      · have hbounds := ihc hchildren hbelow
        omega
      · have hbounds := ihs hsiblings hlater
        omega

/-- The value slots of different keys do not meet. -/
theorem locate?_apart {format : Format} {r : Region n} {forest : Forest} {node : Nat}
    {key key' : Bytes} {slot slot' : Slot} {place place' : Nat} (h : forest.Shown format r node)
    (hloc : forest.locate? format node key = some (slot, place))
    (hloc' : forest.locate? format node key' = some (slot', place')) (hne : key ≠ key') :
    place + format.slotSize ≤ place' ∨ place' + format.slotSize ≤ place := by
  induction forest generalizing node key key' with
  | nil => cases hloc
  | cons branch edge value children siblings ihc ihs =>
      obtain ⟨hnode, hchildren, hsiblings⟩ := h
      have hend := hnode.valueAt_le
      rcases locate?_cons_eq_some hloc with ⟨hkey, hvalue, hplace⟩ | ⟨rest, hkey, hbelow⟩ | hlater
      · rw [hvalue, Option.isSome_some, if_pos rfl] at hend
        rcases locate?_cons_eq_some hloc' with
          ⟨hkey', _, _⟩ | ⟨rest', _, hbelow'⟩ | hlater'
        · exact absurd (hkey.trans hkey'.symm) hne
        · have hbounds := locate?_bounds hchildren hbelow'
          rw [hvalue] at hbounds
          omega
        · have hbounds := locate?_bounds hsiblings hlater'
          rw [hvalue] at hbounds
          omega
      · have hbounds := locate?_bounds hchildren hbelow
        rcases locate?_cons_eq_some hloc' with
          ⟨_, hvalue', hplace'⟩ | ⟨rest', hkey', hbelow'⟩ | hlater'
        · rw [hvalue', Option.isSome_some, if_pos rfl] at hend
          rw [hvalue'] at hbounds
          omega
        · apply ihc hchildren hbelow hbelow'
          intro hrest
          rw [hkey, hkey', hrest] at hne
          exact hne rfl
        · have hbounds' := locate?_bounds hsiblings hlater'
          omega
      · have hbounds := locate?_bounds hsiblings hlater
        rcases locate?_cons_eq_some hloc' with
          ⟨_, hvalue', hplace'⟩ | ⟨rest', hkey', hbelow'⟩ | hlater'
        · rw [hvalue', Option.isSome_some, if_pos rfl] at hend
          rw [hvalue'] at hbounds
          omega
        · have hbounds' := locate?_bounds hchildren hbelow'
          omega
        · exact ihs hsiblings hlater hlater' hne

/-! ## Changing a count -/

theorem Shown.congr {format : Format} {r s : Region n} {forest : Forest} {node : Nat}
    (h : forest.Shown format r node)
    (same : ∀ i, Index.headerSize + node ≤ i →
      i < Index.headerSize + node + forest.size format → s.get i = r.get i) :
    forest.Shown format s node := by
  induction forest generalizing node with
  | nil => trivial
  | cons branch edge value children siblings ihc ihs =>
      obtain ⟨hnode, hchildren, hsiblings⟩ := h
      rw [size] at same
      have hend := hnode.valueAt_le
      have hfixed := Slot.fixedSize_le format
      refine ⟨hnode.congr ?_, ihc hchildren ?_, ihs hsiblings ?_⟩
      · rintro i hlow (hhigh | ⟨hvalue, hhigh⟩)
        · exact same i hlow (by omega)
        · rw [if_pos hvalue] at hend
          exact same i hlow (by omega)
      · intro i hlow hhigh
        exact same i (by omega) (by omega)
      · intro i hlow hhigh
        exact same i (by omega) (by omega)

/-- Counting an access in the slot of a key leaves a forest shown. -/
theorem Shown.count {r s : Region n} {forest : Forest} {node : Nat} {key : Bytes} {slot : Slot}
    {place : Nat} (h : forest.Shown .legacy r node)
    (hloc : forest.locate? .legacy node key = some (slot, place))
    (same : ∀ i, i < Index.headerSize + (place + Slot.counterField) ∨
      Index.headerSize + (place + Slot.counterField) + 4 ≤ i → s.get i = r.get i) :
    forest.Shown .legacy s node := by
  induction forest generalizing node key with
  | nil => trivial
  | cons branch edge value children siblings ihc ihs =>
      obtain ⟨hnode, hchildren, hsiblings⟩ := h
      have hend := hnode.valueAt_le
      simp only [Slot.counterField] at same
      rcases locate?_cons_eq_some hloc with ⟨_, hvalue, hplace⟩ | ⟨rest, _, hbelow⟩ | hlater
      · rw [hvalue, Option.isSome_some, if_pos rfl, Format.slotSize] at hend
        rw [hvalue] at hnode hchildren hsiblings ⊢
        refine ⟨hnode.congr ?_, hchildren.congr ?_, hsiblings.congr ?_⟩
        · rintro i hlow (hhigh | ⟨_, hhigh⟩)
          · exact same i (.inl (by omega))
          · rw [Slot.fixedSize] at hhigh
            exact same i (.inl (by omega))
        · intro i hlow hhigh
          exact same i (.inr (by omega))
        · intro i hlow hhigh
          exact same i (.inr (by omega))
      · have hbounds := locate?_bounds hchildren hbelow
        rw [Format.slotSize] at hbounds
        have hfixed := Slot.fixedSize_le .legacy
        refine ⟨hnode.congr ?_, ihc hchildren hbelow, hsiblings.congr ?_⟩
        · rintro i hlow (hhigh | ⟨hvalue, hhigh⟩)
          · exact same i (.inl (by omega))
          · rw [if_pos hvalue] at hend
            exact same i (.inl (by omega))
        · intro i hlow hhigh
          exact same i (.inr (by omega))
      · have hbounds := locate?_bounds hsiblings hlater
        rw [Format.slotSize] at hbounds
        have hfixed := Slot.fixedSize_le .legacy
        refine ⟨hnode.congr ?_, hchildren.congr ?_, ihs hsiblings hlater⟩
        · rintro i hlow (hhigh | ⟨hvalue, hhigh⟩)
          · exact same i (.inl (by omega))
          · rw [if_pos hvalue] at hend
            exact same i (.inl (by omega))
        · intro i hlow hhigh
          exact same i (.inl (by omega))

end Forest

/-! ## Whole tries -/

namespace Trie

/-- A trie as a forest of one node. -/
def forest (t : Trie) : Forest := .cons 0 t.edge t.value t.children .nil

theorem shown_forest_iff {format : Format} {r : Region n} {t : Trie} :
    t.forest.Shown format r 0 ↔ t.Shown format r := by
  simp [forest, Forest.Shown, Shown]

theorem locate?_forest (format : Format) (t : Trie) (key : Bytes) :
    t.forest.locate? format 0 (0 :: key) = t.locate? format key := by
  simp [forest, Forest.locate?, locate?]

theorem locate?_apart {format : Format} {r : Region n} {t : Trie} {key key' : Bytes}
    {slot slot' : Slot} {place place' : Nat} (h : t.Shown format r)
    (hloc : t.locate? format key = some (slot, place))
    (hloc' : t.locate? format key' = some (slot', place')) (hne : key ≠ key') :
    place + format.slotSize ≤ place' ∨ place' + format.slotSize ≤ place := by
  refine Forest.locate?_apart (shown_forest_iff.mpr h) ((locate?_forest ..).trans hloc)
    ((locate?_forest ..).trans hloc') ?_
  simpa using hne

theorem Shown.congr {format : Format} {r s : Region n} {t : Trie} (h : t.Shown format r)
    (same : ∀ i, Index.headerSize ≤ i → s.get i = r.get i) : t.Shown format s := by
  refine shown_forest_iff.mp ((shown_forest_iff.mpr h).congr ?_)
  intro i hlow _
  exact same i (by omega)

/-- A trie is still shown when an access of one of its keys has been counted. -/
theorem Shown.count {r s : Region n} {t : Trie} {key : Bytes} {slot : Slot} {place : Nat}
    (h : t.Shown .legacy r) (hloc : t.locate? .legacy key = some (slot, place))
    (same : ∀ i, i < Index.headerSize + (place + Slot.counterField) ∨
      Index.headerSize + (place + Slot.counterField) + 4 ≤ i → s.get i = r.get i) :
    t.Shown .legacy s :=
  shown_forest_iff.mp
    ((shown_forest_iff.mpr h).count ((locate?_forest ..).trans hloc) same)

end Trie

/-! ## Counts of accesses -/

/-- Counts with one more for a key. -/
def countHit (hits : Bytes → Nat) (key : Bytes) : Bytes → Nat :=
  fun other => if other = key then hits other + 1 else hits other

namespace Trie

/-- A region shows a trie, and the slots of its keys tell given counts of accesses, as far as the
layout keeps counts there. -/
structure Counted (format : Format) (r : Region n) (t : Trie) (hits : Bytes → Nat) : Prop where
  shown : t.Shown format r
  counts : format = .legacy → ∀ key slot node, t.locate? format key = some (slot, node) →
    r.counter? (Index.headerSize + (node + Slot.counterField)) = some (.ofNat (hits key))

/-- Slots as they are written first tell of no accesses. -/
theorem counted_of_holds {format : Format} {r : Region n} {t : Trie} (h : t.Shown format r)
    (hheld : ∀ key slot node, t.locate? format key = some (slot, node) →
      r.Holds (Index.headerSize + node) (slot.toBytes format)) :
    t.Counted format r fun _ => 0 := by
  refine ⟨h, ?_⟩
  intro hformat key slot node hloc
  have hslot := hheld key slot node hloc
  rw [hformat] at hslot
  exact Slot.counter?_of_holds hslot

theorem Counted.congr {format : Format} {r s : Region n} {t : Trie} {hits : Bytes → Nat}
    (h : t.Counted format r hits) (same : ∀ i, Index.headerSize ≤ i → s.get i = r.get i) :
    t.Counted format s hits := by
  refine ⟨h.shown.congr same, ?_⟩
  intro hformat key slot node hloc
  rw [← h.counts hformat key slot node hloc]
  refine Region.counter?_congr ?_
  intro i hlow _
  exact same i (by omega)

/-- Counting an access of a key adds one to its count and keeps the counts of all other keys. -/
theorem Counted.touch {format : Format} {r after : Region n} {t : Trie} {hits : Bytes → Nat}
    {key : Bytes} {slot : Slot} {node : Nat} (h : t.Counted format r hits)
    (hloc : t.locate? format key = some (slot, node))
    (ht : Index.Touched format r after (slot.locatorIn format r node)) :
    t.Counted format after (countHit hits key) := by
  cases format with
  | current => exact ⟨h.shown.congr fun i _ => ht i, fun hformat => nomatch hformat⟩
  | legacy =>
      obtain ⟨stored, count, hstored, hbumped⟩ := ht
      cases hstored
      refine ⟨h.shown.count hloc hbumped.frame, ?_⟩
      intro _ other slot' node' hloc'
      have hcount := h.counts rfl other slot' node' hloc'
      by_cases hother : other = key
      · cases hother
        cases hloc.symm.trans hloc'
        rw [hbumped.before] at hcount
        rw [hbumped.after, Option.some.inj hcount, countHit, if_pos rfl, UInt32.ofNat_add]
        rfl
      · have hapart := locate?_apart h.shown hloc hloc' (Ne.symm hother)
        simp only [Format.slotSize] at hapart
        rw [countHit, if_neg hother, ← hcount]
        refine Region.counter?_congr ?_
        intro i hlow hhigh
        simp only [Slot.counterField] at hlow hhigh hbumped
        exact hbumped.frame i (by omega)

end Trie

end Columnlet

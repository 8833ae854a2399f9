import Columnlet.Proofs.Index.Reading

/-! # Bounds of a lookup

Whatever an index holds, cycles and pointers out of the region included, a lookup visits at most one
node more than the key has bytes, computes no position of 2 to the 64 or more, and fails only
because of a read that leaves the region. -/

namespace Columnlet.Index

variable {n : Nat}

/-- What happens in the course of a walk stays inside the key and below 2 to the 64. -/
def Event.Bounded (key : Bytes) : Event → Prop
  | mark (.visit _ matched) => matched ≤ key.length
  | mark (.edge start) => start < UInt64.size
  | mark (.matched count) => count ≤ key.length
  | access a => a.stop < UInt64.size

namespace Reading

section

/-! A property of what happens that holds of every read before a bound. -/

variable {P : Event → Prop} {bound : Nat}
  (near : ∀ a : Access, a.offset + a.width < bound → P (.access a))

include near

theorem ensures_number {width offset : Nat} (h : offset + width < bound) :
    (number width offset).Ensures P fun _ => True :=
  ⟨near ⟨offset, width, .pastEnd width⟩ h, fun _ => trivial⟩

theorem ensures_header {node : Nat} (h : node + NodeHeader.width < bound) :
    (header node).Ensures P fun _ => True :=
  (ensures_number near h).bind fun _ _ => trivial

/-- A child stands at one of the offsets that a slot can hold. -/
theorem ensures_findChild {offset count : Nat} (branch : UInt8)
    (h : offset + ChildSlot.width * count < bound) :
    (findChild offset count branch).Ensures P
      fun found => ∀ child ∈ found, child < 0x100000000000000 := by
  induction count generalizing offset with
  | zero => simp [findChild, Ensures, Pure.pure]
  | succ count ih =>
      rw [Nat.mul_succ] at h
      refine (ensures_number near (by omega)).bind ?_
      intro k _
      dsimp only
      split
      · intro child hchild
        cases hchild
        exact (ChildSlot.ofNat k).offset.isLt
      · exact ih (by omega)

theorem ensures_edgeMatches {offset length : Nat} (key : Bytes) (h : offset + length < bound) :
    (edgeMatches offset length key).Ensures P fun fits => fits = true → length ≤ key.length := by
  unfold edgeMatches
  split
  · exact fun hfits => nomatch hfits
  · rename_i hlong
    split
    · exact fun _ => Nat.le_of_not_lt hlong
    · exact ⟨near ⟨offset, length, .pastEnd length⟩ h, fun _ _ => Nat.le_of_not_lt hlong⟩

theorem ensures_locator (format : Format) {slot : Nat} (h : slot + format.slotSize < bound) :
    (locator format slot).Ensures P fun _ => True := by
  cases format with
  | current =>
      rw [Format.slotSize] at h
      refine (ensures_number near (by omega)).bind fun _ _ => ?_
      exact (ensures_number near (by omega)).bind fun _ _ => trivial
  | legacy =>
      rw [Format.slotSize] at h
      refine (ensures_number near (by omega)).bind fun _ _ => ?_
      refine (ensures_number near (by omega)).bind fun _ _ => ?_
      refine (ensures_number near (by omega)).bind fun _ _ => ?_
      exact ⟨near ⟨slot + 20, 4, .counterPastEnd⟩ (by omega), fun _ => trivial⟩

end

/-! ## Visits and walks -/

/-- What can happen during a visit, behind its beginning. -/
def Inside (key : Bytes) (event : Event) : Prop := event.Bounded key ∧ event.isVisit = false

/-- A turn goes on, if it does, at one of the offsets that a slot can hold. -/
def Turn.Near {key : Bytes} {matched : Nat} : Turn key matched → Prop
  | finish _ => True
  | descend child _ _ _ => child < 0x100000000000000

theorem inside_access {key : Bytes} (a : Access)
    (h : a.offset + a.width < UInt64.size - headerSize) : Inside key (.access a) := by
  refine ⟨?_, rfl⟩
  rw [Event.Bounded, Access.stop]
  omega

/-- A node and its value slot end long before the bound. -/
theorem edgeStart_add_lt {node : Nat} (hnode : node < 0x100000000000000) (h : NodeHeader)
    (format : Format) :
    edgeStart node h + h.edgeLength + format.slotSize < UInt64.size - headerSize := by
  have hchildren := h.children.isLt
  have hlength := h.edgeLength.isLt
  have hslot : format.slotSize ≤ 24 := by cases format <;> decide
  simp only [edgeStart, NodeHeader.width, ChildSlot.width, headerSize, UInt64.size]
  omega

theorem ensures_proceed (format : Format) (key : Bytes) {node : Nat}
    (hnode : node < 0x100000000000000) (h : NodeHeader) {matched spelled : Nat}
    (onward : matched ≤ spelled) :
    (proceed format key node h onward).Ensures (Inside key) Turn.Near := by
  have hend := edgeStart_add_lt hnode h format
  unfold proceed
  split
  · rename_i hspelled
    refine (ensures_findChild inside_access key[spelled] ?_).bind ?_
    · rw [edgeStart] at hend
      omega
    · intro found hfound
      cases found with
      | none => trivial
      | some child => exact hfound child rfl
  · split
    · exact (ensures_locator inside_access format hend).bind fun _ _ => trivial
    · trivial

theorem ensures_inspect (format : Format) {key : Bytes} {node matched : Nat}
    (hnode : node < 0x100000000000000) (hmatched : matched ≤ key.length) :
    (inspect format key node matched).Ensures (Inside key) Turn.Near := by
  refine (ensures_header inside_access ?_).bind ?_
  · simp only [NodeHeader.width, headerSize, UInt64.size]
    omega
  · intro h _
    have hend := edgeStart_add_lt hnode h format
    refine ⟨⟨?_, rfl⟩, ?_⟩
    · rw [Event.Bounded]
      omega
    · refine (ensures_edgeMatches inside_access _ (by omega)).bind ?_
      intro fits hfits
      split
      · rename_i htrue
        have hlong := hfits htrue
        rw [List.length_drop] at hlong
        have hspelled : matched + h.edgeLength ≤ key.length := by omega
        exact ⟨⟨hspelled, rfl⟩, ensures_proceed format key hnode h (Nat.le_add_right ..)⟩
      · trivial

theorem ensures_walk (format : Format) {key : Bytes} {node matched : Nat}
    (hnode : node < 0x100000000000000) (hmatched : matched ≤ key.length) :
    (walk format key node matched).Ensures (Event.Bounded key) fun _ => True := by
  fun_induction walk format key node matched with
  | case1 node matched ih =>
      refine ⟨hmatched, ?_⟩
      refine ((ensures_inspect format hnode hmatched).mono ?_).bind ?_
      · exact fun event h => h.1
      · intro turn hturn
        cases turn with
        | finish found => trivial
        | descend child next further within => exact ih child next further within hturn within

/-- Every visit matches at least one more byte of the key than the one before. -/
theorem countP_isVisit_walk (r : Region n) (format : Format) {key : Bytes} {node matched : Nat}
    (hnode : node < 0x100000000000000) (hmatched : matched ≤ key.length) :
    ((walk format key node matched).events r).countP Event.isVisit ≤ key.length - matched + 1 := by
  fun_induction walk format key node matched with
  | case1 node matched ih =>
      have hinspect := ensures_inspect format hnode hmatched
      have hnone : ((inspect format key node matched).events r).countP Event.isVisit = 0 := by
        rw [List.countP_eq_zero]
        intro event hevent
        rw [(hinspect.of_mem hevent).2]
        exact Bool.false_ne_true
      rw [events_tell_bind, events_bind, List.countP_cons_of_pos rfl, List.countP_append, hnone]
      cases hturn : (inspect format key node matched).run r with
      | error e => simp
      | ok turn =>
          cases turn with
          | finish found => simp [events, Pure.pure]
          | descend child next further within =>
              have hrest := ih child next further within (hinspect.of_run hturn) within
              dsimp only
              omega

end Reading

/-! ## Lookups -/

/-- What happens in the course of the lookup of a key, its reads included. -/
def trace (index : Index) (files : Files) (key : Bytes) : List Event :=
  (Reading.walk index.format key 0 0).events (files.view index.mapping)

/-- A lookup visits at most one node more than the key has bytes; it never matches more bytes than
there are, and computes no position of 2 to the 64 or more. It fails if and only if one of its reads
ends past the region, with the error of that read, and it depends on no byte but those that its
reads inside the region answer. -/
theorem tryLookup_bounded (index : Index) (files : Files) (key : Bytes) :
    (Reading.walk index.format key 0 0).run (files.view index.mapping) =
        index.tryLookup files key ∧
      (index.trace files key).countP Event.isVisit ≤ key.length + 1 ∧
      (∀ event ∈ index.trace files key, event.Bounded key) ∧
      (∀ e, index.tryLookup files key = .error e ↔
        ∃ a, .access a ∈ index.trace files key ∧ index.mapping.size < a.stop ∧
          e = .malformedIndex a.offset a.cause) ∧
      ∀ files', (∀ a, .access a ∈ index.trace files key → a.stop ≤ index.mapping.size →
          ∀ i, headerSize + a.offset ≤ i → i < a.stop →
            (files'.view index.mapping).get i = (files.view index.mapping).get i) →
        index.tryLookup files' key = index.tryLookup files key := by
  have hrun (files : Files) : (Reading.walk index.format key 0 0).run (files.view index.mapping) =
      index.tryLookup files key := Reading.run_walk ..
  have hroot : 0 < 0x100000000000000 := by decide
  refine ⟨hrun files, ?_, ?_, ?_, ?_⟩
  · exact Reading.countP_isVisit_walk _ index.format hroot (Nat.zero_le _)
  · intro event hevent
    exact (Reading.ensures_walk index.format hroot (Nat.zero_le _)).of_mem hevent
  · intro e
    rw [← hrun]
    exact Reading.run_eq_error_iff
  · intro files' hsame
    rw [← hrun, ← hrun]
    exact Reading.run_congr hsame

/-- An index of a root alone, of which one slot leads back to it and another out of the region. -/
def sampleCycle : Files :=
  Files.empty.put ["index"] (.ofBytes (List.replicate headerSize 0 ++
    Bytes.bigEndian 2 (NodeHeader.ofCounts false 0 2).toNat ++
    [7] ++ Bytes.bigEndian 7 0 ++ [8] ++ Bytes.bigEndian 7 1000) 34)

theorem tryLookup_bounded_sample :
    (trace ⟨⟨"index", ["index"], 34⟩, .current⟩ sampleCycle [7, 7, 8]).countP Event.isVisit ≤ 4 ∧
      tryLookup ⟨⟨"index", ["index"], 34⟩, .current⟩ sampleCycle [7, 7, 8] =
        .error (.malformedIndex 1000 (.pastEnd 2)) := by
  obtain ⟨_, hvisits, _, herror, _⟩ :=
    tryLookup_bounded ⟨⟨"index", ["index"], 34⟩, .current⟩ sampleCycle [7, 7, 8]
  refine ⟨hvisits, (herror _).mpr ⟨⟨1000, 2, .pastEnd 2⟩, ?_, ?_, rfl⟩⟩
  · decide +kernel
  · decide

end Columnlet.Index

import Columnlet.Proofs.Index.Layout
import Mathlib.Data.FinEnum
import Mathlib.Data.Fintype.Card

/-! # Which keys an index can have

A node has one slot fewer than there are bytes. Keys therefore have no index if and only if behind
some bytes they go on with every byte there is; the bytes are then those up to one of the nodes,
however long edges are divided. -/

namespace Columnlet

namespace Entries

/-- Some key begins with given bytes. -/
def Begins (entries : Entries) (front : Bytes) : Prop :=
  ∃ rest, (entries.lookup (front ++ rest)).isSome

/-- Behind given bytes, keys go on with every byte there is. -/
def Crowded (entries : Entries) (front : Bytes) : Prop :=
  ∀ byte : UInt8, entries.Begins (front ++ [byte])

theorem lookup_isSome_iff {entries : Entries} {key : Bytes} :
    (entries.lookup key).isSome ↔ ∃ entry ∈ entries, entry.1 = key := by
  induction entries with
  | nil => simp
  | cons entry rest ih =>
      rw [lookup_cons]
      by_cases h : key = entry.1
      · simp [h]
      · simp [h, ih, Ne.symm h]

theorem begins_iff {entries : Entries} {front : Bytes} :
    entries.Begins front ↔ ∃ entry ∈ entries, front <+: entry.1 := by
  simp only [Begins, lookup_isSome_iff]
  constructor
  · rintro ⟨rest, entry, he, hkey⟩
    exact ⟨entry, he, rest, hkey.symm⟩
  · rintro ⟨entry, he, rest, hkey⟩
    exact ⟨rest, entry, he, hkey.symm⟩

/-! ## At the edge of a node -/

theorem crowded_division_iff {entries : Entries} (h : entries.Sorted) (front : Bytes) :
    entries.division.2.Crowded front ↔ entries.Crowded (entries.edge ++ front) := by
  obtain ⟨_, _, hlookup⟩ := division_spec h
  refine forall_congr' fun byte => exists_congr fun rest => ?_
  rw [List.append_assoc entries.edge, List.append_assoc entries.edge, hlookup, follow_append,
    if_neg (by simp)]

/-- Keys that go on with two different bytes share no edge beyond that. -/
theorem Crowded.edge_isPrefix {entries : Entries} {front : Bytes} (h : entries.Crowded front)
    (hsorted : entries.Sorted) : entries.edge <+: front := by
  obtain ⟨zero, hzero, hzeroFront⟩ := begins_iff.mp (h 0)
  obtain ⟨one, hone, honeFront⟩ := begins_iff.mp (h 1)
  have hedgeZero := hsorted.edge_isPrefix zero hzero
  have hedgeOne := hsorted.edge_isPrefix one hone
  by_cases hlen : entries.edge.length ≤ front.length
  · have hfront : front <+: zero.1 := (List.prefix_append front [0]).trans hzeroFront
    exact List.prefix_of_prefix_length_le hedgeZero hfront hlen
  · have hzeroEdge : front ++ [0] <+: entries.edge :=
      List.prefix_of_prefix_length_le hzeroFront hedgeZero (by simp; omega)
    have honeEdge : front ++ [1] <+: entries.edge :=
      List.prefix_of_prefix_length_le honeFront hedgeOne (by simp; omega)
    have hsame : front ++ [0] <+: front ++ [1] :=
      List.prefix_of_prefix_length_le hzeroEdge honeEdge (by simp)
    simp at hsame

theorem forall_not_crowded_division_iff {entries : Entries} (h : entries.Sorted) :
    (∀ front, ¬ entries.division.2.Crowded front) ↔ ∀ front, ¬ entries.Crowded front := by
  constructor
  · intro hnone front hcrowded
    obtain ⟨rest, rfl⟩ := hcrowded.edge_isPrefix h
    exact hnone rest ((crowded_division_iff h rest).mpr hcrowded)
  · intro hnone front hcrowded
    exact hnone _ ((crowded_division_iff h front).mp hcrowded)

/-! ## At the first byte -/

section

variable {branch : UInt8} {key : Bytes} {slot : Slot} {rest : Entries}
  (h : Sorted ((branch :: key, slot) :: rest))

include h

theorem begins_cons_iff (byte : UInt8) (front : Bytes) :
    Begins ((branch :: key, slot) :: rest) (byte :: front) ↔
      if branch = byte then (run branch key slot rest).Begins front
      else Begins (rest.dropWhile (startsWith branch)) (byte :: front) := by
  obtain ⟨_, hlookup⟩ := run_spec h
  simp only [Begins, List.cons_append, hlookup]
  split <;> rfl

theorem not_begins_dropWhile (front : Bytes) :
    ¬ Begins (rest.dropWhile (startsWith branch)) (branch :: front) := by
  intro hbegins
  obtain ⟨entry, he, hfront⟩ := begins_iff.mp hbegins
  have hnot := not_startsWith_of_mem_dropWhile h entry he
  have hbranch : [branch] <+: entry.1 := List.IsPrefix.trans (by simp) hfront
  rw [(startsWith_iff branch entry).mpr hbranch] at hnot
  cases hnot

/-- Crowding behind at least one byte is crowding of the keys that go on with that byte. -/
theorem forall_not_crowded_cons_iff :
    (∀ front, front ≠ [] → ¬ Crowded ((branch :: key, slot) :: rest) front) ↔
      (∀ front, ¬ (run branch key slot rest).Crowded front) ∧
        ∀ front, front ≠ [] → ¬ Crowded (rest.dropWhile (startsWith branch)) front := by
  have hcrowded (byte : UInt8) (front : Bytes) :
      Crowded ((branch :: key, slot) :: rest) (byte :: front) ↔
        if branch = byte then (run branch key slot rest).Crowded front
        else Crowded (rest.dropWhile (startsWith branch)) (byte :: front) := by
    simp only [Crowded, List.cons_append, begins_cons_iff h]
    split <;> rfl
  constructor
  · intro hnone
    refine ⟨?_, ?_⟩
    · intro front hrun
      refine hnone (branch :: front) (by simp) ?_
      rw [hcrowded, if_pos rfl]
      exact hrun
    · intro front hne hlater
      obtain ⟨byte, front, rfl⟩ := List.exists_cons_of_ne_nil hne
      by_cases hb : branch = byte
      · subst hb
        exact not_begins_dropWhile h _ (hlater 0)
      · refine hnone (byte :: front) hne ?_
        rw [hcrowded, if_neg hb]
        exact hlater
  · rintro ⟨hrun, hlater⟩ front hne hwhole
    obtain ⟨byte, front, rfl⟩ := List.exists_cons_of_ne_nil hne
    rw [hcrowded] at hwhole
    split at hwhole
    · exact hrun front hwhole
    · exact hlater _ hne hwhole

end

end Entries

/-! ## Numbers of children -/

/-- Each node of a forest stands for a byte with which keys begin. -/
theorem Forest.exists_card_of_ofEntries {depth : Nat} {entries : Entries} {forest : Forest}
    (h : Forest.ofEntries depth entries = .ok forest) (hsorted : entries.Sorted)
    (hfull : ∀ entry ∈ entries, entry.1 ≠ []) :
    ∃ bytes : Finset UInt8, bytes.card = forest.width ∧
      ∀ byte, byte ∈ bytes ↔ entries.Begins [byte] := by
  induction entries using Entries.divide_induction generalizing depth forest with
  | nil =>
      rw [Forest.ofEntries] at h
      cases h
      exact ⟨∅, rfl, by simp [Entries.begins_iff]⟩
  | skip slot rest ih => exact absurd rfl (hfull ([], slot) (by simp))
  | run branch first slot rest _ ihs =>
      obtain ⟨children, siblings, _, _, hsiblings, rfl⟩ := Forest.ofEntries_cons_eq_ok h
      have hlater : (rest.dropWhile (Entries.startsWith branch)).Sublist
          ((branch :: first, slot) :: rest) := (List.dropWhile_sublist _).cons _
      obtain ⟨bytes, hcard, hmem⟩ := ihs hsiblings (hsorted.sublist hlater)
        fun entry he => hfull entry (hlater.subset he)
      have hnew : branch ∉ bytes := by
        rw [hmem]
        exact Entries.not_begins_dropWhile hsorted []
      refine ⟨insert branch bytes, ?_, ?_⟩
      · rw [Finset.card_insert_of_notMem hnew, hcard, width]
      · intro byte
        rw [Finset.mem_insert, hmem, Entries.begins_cons_iff hsorted]
        by_cases hb : branch = byte
        · subst hb
          simp only [true_or, if_true, true_iff]
          exact Entries.begins_iff.mpr ⟨_, List.mem_cons_self .., List.nil_prefix⟩
        · simp [hb, Ne.symm hb]

/-- A node has too many children if and only if keys go on with every byte there is. -/
theorem Forest.width_le_iff_of_ofEntries {depth : Nat} {entries : Entries} {forest : Forest}
    (h : Forest.ofEntries depth entries = .ok forest) (hsorted : entries.Sorted)
    (hfull : ∀ entry ∈ entries, entry.1 ≠ []) :
    forest.width ≤ NodeHeader.maxChildren ↔ ¬ entries.Crowded [] := by
  obtain ⟨bytes, hcard, hmem⟩ := exists_card_of_ofEntries h hsorted hfull
  have hall : entries.Crowded [] ↔ bytes = Finset.univ := by
    rw [Finset.eq_univ_iff_forall]
    exact forall_congr' fun byte => (hmem byte).symm
  have hbytes : Fintype.card UInt8 = 256 := by decide +kernel
  have hle := Finset.card_le_univ bytes
  rw [hall, ← Finset.card_eq_iff_eq_univ, ← hcard, NodeHeader.maxChildren]
  omega

/-! ## Which keys have a trie -/

theorem Forest.checkWidth_of_le {depth : Nat} {children : Forest}
    (h : children.width ≤ NodeHeader.maxChildren) : children.checkWidth depth = .ok () := by
  rw [checkWidth, if_neg (by omega)]

/-- A node can have the nodes below it that entries make. -/
def Forest.Admits (depth : Nat) (entries : Entries) : Prop :=
  ∃ children, Forest.ofEntries depth entries = .ok children ∧
    children.width ≤ NodeHeader.maxChildren

theorem Forest.exists_ofEntries_cons_iff {depth : Nat} {branch : UInt8} {key : Bytes}
    {slot : Slot} {rest : Entries} :
    (∃ forest, Forest.ofEntries depth ((branch :: key, slot) :: rest) = .ok forest) ↔
      Admits (depth + 1 + (Entries.run branch key slot rest).edge.length)
          (Entries.run branch key slot rest).division.2 ∧
        ∃ siblings, Forest.ofEntries depth (rest.dropWhile (Entries.startsWith branch)) =
          .ok siblings := by
  constructor
  · rintro ⟨forest, h⟩
    obtain ⟨children, siblings, hchildren, hwidth, hsiblings, _⟩ := ofEntries_cons_eq_ok h
    exact ⟨⟨children, hchildren, hwidth⟩, siblings, hsiblings⟩
  · rintro ⟨⟨children, hchildren, hwidth⟩, siblings, hsiblings⟩
    refine ⟨.cons branch (Entries.run branch key slot rest).edge
      (Entries.run branch key slot rest).division.1 children siblings, ?_⟩
    rw [Forest.ofEntries]
    refine except_bind_eq_ok_iff.mpr ⟨children, hchildren, ?_⟩
    refine except_bind_eq_ok_iff.mpr ⟨(), checkWidth_of_le hwidth, ?_⟩
    exact except_bind_eq_ok_iff.mpr ⟨siblings, hsiblings, rfl⟩

theorem Trie.exists_ofEntries_iff_admits {entries : Entries} :
    (∃ t, Trie.ofEntries entries = .ok t) ↔
      Forest.Admits entries.edge.length entries.division.2 := by
  constructor
  · rintro ⟨t, h⟩
    obtain ⟨children, hchildren, h⟩ := except_bind_eq_ok_iff.mp h
    obtain ⟨_, hwidth, _⟩ := except_bind_eq_ok_iff.mp h
    exact ⟨children, hchildren, Forest.width_le_of_checkWidth hwidth⟩
  · rintro ⟨children, hchildren, hwidth⟩
    refine ⟨⟨entries.edge, entries.division.1, children⟩, ?_⟩
    refine except_bind_eq_ok_iff.mpr ⟨children, hchildren, ?_⟩
    exact except_bind_eq_ok_iff.mpr ⟨(), Forest.checkWidth_of_le hwidth, rfl⟩

/-- A node above some entries needs them not to crowd at their first byte either. -/
theorem Forest.admits_iff {depth : Nat} {entries : Entries} (hsorted : entries.Sorted)
    (hfull : ∀ entry ∈ entries, entry.1 ≠ [])
    (hforest : (∃ forest, Forest.ofEntries depth entries = .ok forest) ↔
      ∀ front, front ≠ [] → ¬ entries.Crowded front) :
    Admits depth entries ↔ ∀ front, ¬ entries.Crowded front := by
  constructor
  · rintro ⟨children, hchildren, hwidth⟩ front
    by_cases hfront : front = []
    · rw [hfront]
      exact (width_le_iff_of_ofEntries hchildren hsorted hfull).mp hwidth
    · exact hforest.mp ⟨children, hchildren⟩ front hfront
  · intro hnone
    obtain ⟨children, hchildren⟩ := hforest.mpr fun front _ => hnone front
    exact ⟨children, hchildren,
      (width_le_iff_of_ofEntries hchildren hsorted hfull).mpr (hnone [])⟩

/-- Entries make nodes side by side if and only if keys crowd nowhere behind their first byte. -/
theorem Forest.exists_ofEntries_iff {depth : Nat} {entries : Entries} (hsorted : entries.Sorted)
    (hfull : ∀ entry ∈ entries, entry.1 ≠ []) :
    (∃ forest, Forest.ofEntries depth entries = .ok forest) ↔
      ∀ front, front ≠ [] → ¬ entries.Crowded front := by
  induction entries using Entries.divide_induction generalizing depth with
  | nil =>
      rw [Forest.ofEntries]
      simp [Entries.Crowded, Entries.begins_iff]
  | skip slot rest ih => exact absurd rfl (hfull ([], slot) (by simp))
  | run branch first slot rest ihc ihs =>
      have hlater : (rest.dropWhile (Entries.startsWith branch)).Sublist
          ((branch :: first, slot) :: rest) := (List.dropWhile_sublist _).cons _
      obtain ⟨hrun, _⟩ := Entries.run_spec hsorted
      obtain ⟨hbelow, hbelowFull, _⟩ := Entries.division_spec hrun
      rw [exists_ofEntries_cons_iff, admits_iff hbelow hbelowFull (ihc hbelow hbelowFull),
        ihs (hsorted.sublist hlater) fun entry he => hfull entry (hlater.subset he),
        Entries.forall_not_crowded_division_iff hrun, Entries.forall_not_crowded_cons_iff hsorted]

/-- Entries have a trie if and only if their keys crowd nowhere. -/
theorem Trie.exists_ofEntries_iff {entries : Entries} (hsorted : entries.Sorted) :
    (∃ t, Trie.ofEntries entries = .ok t) ↔ ∀ front, ¬ entries.Crowded front := by
  obtain ⟨hbelow, hbelowFull, _⟩ := Entries.division_spec hsorted
  rw [exists_ofEntries_iff_admits,
    Forest.admits_iff hbelow hbelowFull (Forest.exists_ofEntries_iff hbelow hbelowFull),
    Entries.forall_not_crowded_division_iff hsorted]

/-! ## Which tries have bytes -/

theorem Trie.nodeSize_pos (format : Format) (edge : Bytes) (value : Option Slot)
    (children : Forest) : 0 < nodeSize format edge value children := by
  rw [nodeSize, NodeHeader.nodeSize, NodeHeader.width]
  omega

/-- Child slots can tell every offset before 2 to the 56. -/
theorem Forest.exists_slots {format : Format} {forest : Forest} {offset : Nat}
    (h : offset + forest.size format ≤ 0x100000000000000) :
    ∃ slots, forest.slots format offset = .ok slots := by
  induction forest generalizing offset with
  | nil => exact ⟨[], rfl⟩
  | cons branch edge value children siblings _ ih =>
      rw [size] at h
      have hpos := Trie.nodeSize_pos format edge value children
      obtain ⟨later, hlater⟩ := @ih
        (offset + Trie.nodeSize format edge value children + children.size format) (by omega)
      have hlt : offset < 0x100000000000000 := by omega
      refine ⟨⟨branch, ⟨offset, hlt⟩⟩ :: later, ?_⟩
      simp only [slots, ChildSlot.of?, dif_pos hlt]
      exact except_bind_eq_ok_iff.mpr ⟨later, hlater, rfl⟩

theorem Trie.exists_nodeBytes {format : Format} {below : Nat} (edge : Bytes)
    (value : Option Slot) {children : Forest}
    (h : below + children.size format ≤ 0x100000000000000) :
    ∃ bs, nodeBytes format below edge value children = .ok bs := by
  obtain ⟨slots, hslots⟩ := Forest.exists_slots h
  exact ⟨_, except_bind_eq_ok_iff.mpr ⟨slots, hslots, rfl⟩⟩

theorem Forest.exists_encode {format : Format} {forest : Forest} {offset : Nat}
    (h : offset + forest.size format ≤ 0x100000000000000) :
    ∃ bs, forest.encode format offset = .ok bs := by
  induction forest generalizing offset with
  | nil => exact ⟨[], rfl⟩
  | cons branch edge value children siblings ihc ihs =>
      rw [size] at h
      obtain ⟨first, hfirst⟩ := @Trie.exists_nodeBytes format
        (offset + Trie.nodeSize format edge value children) edge value children (by omega)
      obtain ⟨lower, hlower⟩ := @ihc (offset + Trie.nodeSize format edge value children) (by omega)
      obtain ⟨later, hlater⟩ := @ihs
        (offset + Trie.nodeSize format edge value children + children.size format) (by omega)
      exact ⟨first ++ lower ++ later, encode_cons_of_ok branch hfirst hlower hlater⟩

/-- A trie of less than 2 to the 56 bytes can be written. -/
theorem Trie.exists_encode {format : Format} {t : Trie}
    (h : t.size format ≤ 0x100000000000000) : ∃ bs, t.encode format = .ok bs := by
  rw [size] at h
  obtain ⟨root, hroot⟩ := exists_nodeBytes t.edge t.value h
  obtain ⟨lower, hlower⟩ := Forest.exists_encode h
  refine ⟨root ++ lower, except_bind_eq_ok_iff.mpr ⟨root, hroot, ?_⟩⟩
  exact except_bind_eq_ok_iff.mpr ⟨lower, hlower, rfl⟩

/-! ## Which keys a builder encodes -/

theorem IndexBuilder.encode_of_error {b : IndexBuilder} {cause : BuildError}
    (h : Trie.ofEntries b.entries = .error cause) : b.encode = .error (.indexBuild cause) := by
  rw [encode, h]
  rfl

theorem IndexBuilder.encode_of_ok {b : IndexBuilder} {t : Trie} {bs : Bytes}
    (h : Trie.ofEntries b.entries = .ok t) (hbytes : t.encode b.format = .ok bs) :
    b.encode = .ok bs := by
  have hboth : Trie.ofEntries b.entries >>= Trie.encode b.format = .ok bs :=
    except_bind_eq_ok_iff.mpr ⟨t, h, hbytes⟩
  rw [encode, hboth]

theorem Entries.crowded_ofInsertions_iff (format : Format) (insertions : List (Bytes × Slot))
    (front : Bytes) :
    (IndexBuilder.ofInsertions format insertions).entries.Crowded front ↔
      ∀ byte : UInt8, ∃ insertion ∈ insertions, front ++ [byte] <+: insertion.1 := by
  obtain ⟨_, _, hlookup⟩ := ofInsertions_spec format insertions
  refine forall_congr' fun byte => ?_
  have hlast : Begins (IndexBuilder.ofInsertions format insertions).entries (front ++ [byte]) ↔
      Begins insertions.reverse (front ++ [byte]) :=
    exists_congr fun rest => by rw [hlookup, lastInserted?]
  rw [hlast, begins_iff]
  simp only [List.mem_reverse]

/-- A builder has no encoding if and only if behind some bytes its keys go on with every byte there
is; it has one for all other keys, as long as that takes less than 2 to the 56 bytes. -/
theorem IndexBuilder.encode_ofInsertions (format : Format) (insertions : List (Bytes × Slot))
    (hsize : ∀ t, Trie.ofEntries (ofInsertions format insertions).entries = .ok t →
      t.size format < 0x100000000000000) :
    ((∃ cause, (ofInsertions format insertions).encode = .error (.indexBuild cause)) ↔
        ∃ front : Bytes, ∀ byte : UInt8,
          ∃ insertion ∈ insertions, front ++ [byte] <+: insertion.1) ∧
      ((¬ ∃ front : Bytes, ∀ byte : UInt8,
          ∃ insertion ∈ insertions, front ++ [byte] <+: insertion.1) →
        ∃ bytes, (ofInsertions format insertions).encode = .ok bytes) := by
  obtain ⟨hformat, hsorted, _⟩ := Entries.ofInsertions_spec format insertions
  have htrie := Trie.exists_ofEntries_iff hsorted
  simp only [← Entries.crowded_ofInsertions_iff format insertions]
  by_cases hcrowded : ∃ front, (ofInsertions format insertions).entries.Crowded front
  · refine ⟨iff_of_true ?_ hcrowded, fun hnone => absurd hcrowded hnone⟩
    cases h : Trie.ofEntries (ofInsertions format insertions).entries with
    | error cause => exact ⟨cause, encode_of_error h⟩
    | ok t =>
        obtain ⟨front, hfront⟩ := hcrowded
        exact absurd hfront (htrie.mp ⟨t, h⟩ front)
  · obtain ⟨t, ht⟩ := htrie.mpr (not_exists.mp hcrowded)
    obtain ⟨bytes, hbytes⟩ := Trie.exists_encode (Nat.le_of_lt (hsize t ht))
    have hok : (ofInsertions format insertions).encode = .ok bytes :=
      encode_of_ok ht (by rw [hformat]; exact hbytes)
    refine ⟨iff_of_false ?_ hcrowded, fun _ => ⟨bytes, hok⟩⟩
    rintro ⟨cause, herror⟩
    cases hok.symm.trans herror

/-- A key, and one for each of the first bytes behind its own. -/
def sampleFan (count : Nat) : List (Bytes × Slot) :=
  ([1, 2], ⟨0, 0, 0⟩) :: (List.range count).map fun b => ([1, 2, .ofNat b], ⟨0, 0, 0⟩)

theorem IndexBuilder.encode_ofInsertions_sample :
    (∃ cause, (ofInsertions .current (sampleFan 256)).encode = .error (.indexBuild cause)) ∧
      ∃ bytes, (ofInsertions .current (sampleFan 4)).encode = .ok bytes := by
  have hfull : ∀ byte : UInt8, ∃ insertion ∈ sampleFan 256, [1, 2] ++ [byte] <+: insertion.1 := by
    intro byte
    refine ⟨([1, 2, byte], ⟨0, 0, 0⟩), List.mem_cons_of_mem _ (List.mem_map.mpr ?_), by simp⟩
    exact ⟨byte.toNat, List.mem_range.mpr byte.toNat_lt, by rw [UInt8.ofNat_toNat]⟩
  have hfew : ¬ ∃ front : Bytes, ∀ byte : UInt8,
      ∃ insertion ∈ sampleFan 4, front ++ [byte] <+: insertion.1 := by
    rintro ⟨front, hall⟩
    obtain ⟨insertion, hmem, hfront⟩ := hall 9
    have hnine : ∀ insertion ∈ sampleFan 4, (9 : UInt8) ∉ insertion.1 := by decide
    exact hnine insertion hmem (hfront.subset (by simp))
  constructor
  · refine (encode_ofInsertions .current (sampleFan 256) ?_).1.mpr ⟨[1, 2], hfull⟩
    intro t ht
    have hsorted := (Entries.ofInsertions_spec .current (sampleFan 256)).2.1
    have hcrowded := (Entries.crowded_ofInsertions_iff .current (sampleFan 256) [1, 2]).mpr hfull
    exact absurd hcrowded ((Trie.exists_ofEntries_iff hsorted).mp ⟨t, ht⟩ [1, 2])
  · refine (encode_ofInsertions .current (sampleFan 4) ?_).2 hfew
    have hsmall : (Trie.ofEntries (ofInsertions .current (sampleFan 4)).entries).toOption.all
        (fun t => t.size .current < 0x100000000000000) = true := by
      decide +kernel
    intro t ht
    rw [ht] at hsmall
    exact of_decide_eq_true hsmall

end Columnlet

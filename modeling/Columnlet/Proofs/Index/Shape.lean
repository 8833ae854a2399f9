import Columnlet.Proofs.Index.Placement

/-! # The shape of an encoded trie

The bytes of a trie are a tree of nodes in which no node could be left out: the keys of entries in
order are divided where two of them part, and one key after another where an edge gets too long. -/

namespace Columnlet

/-! ## Well-formed bytes -/

namespace Trie

/-- Bytes are a tree, the nodes of which stand one behind another from the front on. -/
structure WellFormed (format : Format) (bs : Bytes) (nodes : List Nat) : Prop where
  tiled : Tiled format bs 0 nodes
  branches : ∀ node ∈ nodes, ((slotsIn bs node).map (·.branch)).Pairwise (· < ·)
  children : ∀ node ∈ nodes, ∀ child ∈ childrenIn bs node, child ∈ nodes
  forward : ∀ node ∈ nodes, (node :: childrenIn bs node).Pairwise (· < ·)
  parent : ∀ node ∈ nodes, node ≠ 0 → (nodes.flatMap (childrenIn bs)).count node = 1

/-- A node that has no value divides keys, or goes on with an edge that is too long for one node. -/
def Minimal (bs : Bytes) (node : Nat) : Prop :=
  (NodeHeader.readAt bs node).hasValue = false →
    2 ≤ ((NodeHeader.readAt bs node).children : Nat) ∨
      ((NodeHeader.readAt bs node).edgeLength : Nat) = NodeHeader.maxEdge ∧
        ((NodeHeader.readAt bs node).children : Nat) = 1

end Trie

/-! ## Bytes behind which keys part -/

namespace Entries

/-- Two keys part where their common beginning ends, if neither is a beginning of the other. -/
theorem commonPrefix_part {a b : Bytes} (ha : commonPrefix a b ≠ a) (hb : commonPrefix a b ≠ b) :
    ∃ x y, x ≠ y ∧ commonPrefix a b ++ [x] <+: a ∧ commonPrefix a b ++ [y] <+: b := by
  induction a generalizing b with
  | nil => exact absurd (by simp [commonPrefix]) ha
  | cons x a ih =>
      cases b with
      | nil => exact absurd (by simp [commonPrefix]) hb
      | cons y b =>
          by_cases h : x = y
          · subst h
            have hcons : commonPrefix (x :: a) (x :: b) = x :: commonPrefix a b := by
              simp [commonPrefix]
            rw [hcons] at ha hb ⊢
            obtain ⟨v, w, hne, hv, hw⟩ := ih (fun h => ha (by rw [h])) (fun h => hb (by rw [h]))
            exact ⟨v, w, hne, List.cons_prefix_cons.mpr ⟨rfl, hv⟩,
              List.cons_prefix_cons.mpr ⟨rfl, hw⟩⟩
          · refine ⟨x, y, h, ?_, ?_⟩ <;> simp [commonPrefix, h]

variable {entries : Entries}

theorem begins_division_iff (h : entries.Sorted) (byte : UInt8) :
    entries.division.2.Begins [byte] ↔ entries.Begins (entries.edge ++ [byte]) := by
  obtain ⟨_, _, hlookup⟩ := division_spec h
  refine exists_congr fun rest => ?_
  rw [List.append_assoc, hlookup, follow_append, if_neg (by simp)]

/-- Without a value at the edge, every key goes on behind it. -/
theorem ne_edge_of_division_fst (h : entries.Sorted) (hvalue : entries.division.1 = none) :
    ∀ entry ∈ entries, entry.1 ≠ entries.edge := by
  obtain ⟨_, _, hlookup⟩ := division_spec h
  have hnone := hlookup (entries.edge ++ [])
  rw [follow_append, if_pos rfl, hvalue, List.append_nil] at hnone
  intro entry he hkey
  have hsome := lookup_isSome_iff.mpr ⟨entry, he, hkey⟩
  rw [hnone] at hsome
  cases hsome

theorem exists_begins_division (h : entries.Sorted) (hne : entries ≠ [])
    (hvalue : entries.division.1 = none) : ∃ byte, entries.division.2.Begins [byte] := by
  obtain ⟨entry, he⟩ := List.exists_mem_of_ne_nil entries hne
  obtain ⟨rest, hrest⟩ := h.edge_isPrefix entry he
  cases rest with
  | nil =>
      rw [List.append_nil] at hrest
      exact absurd hrest.symm (ne_edge_of_division_fst h hvalue entry he)
  | cons byte rest =>
      refine ⟨byte, (begins_division_iff h byte).mpr (begins_iff.mpr ⟨entry, he, rest, ?_⟩)⟩
      rw [List.append_assoc]
      exact hrest

/-- Keys without a value at the edge part behind it, unless the edge is as long as can be. -/
theorem exists_parting_of_edge_lt (h : entries.Sorted) (hne : entries ≠ [])
    (hvalue : entries.division.1 = none) (hlt : entries.edge.length < NodeHeader.maxEdge) :
    ∃ x y, x ≠ y ∧ entries.division.2.Begins [x] ∧ entries.division.2.Begins [y] := by
  have hother := ne_edge_of_division_fst h hvalue
  have hfirst := List.head?_eq_some_head hne
  have hlast := List.getLast?_eq_some_getLast hne
  have hedge : entries.edge = commonPrefix (entries.head hne).1 (entries.getLast hne).1 := by
    rw [edge, hfirst, hlast] at hlt ⊢
    rw [List.length_take] at hlt
    exact List.take_of_length_le (by omega)
  obtain ⟨x, y, hxy, hx, hy⟩ := commonPrefix_part
    (hedge ▸ (hother _ (List.head_mem hne)).symm) (hedge ▸ (hother _ (List.getLast_mem hne)).symm)
  rw [← hedge] at hx hy
  exact ⟨x, y, hxy, (begins_division_iff h x).mpr (begins_iff.mpr ⟨_, List.head_mem hne, hx⟩),
    (begins_division_iff h y).mpr (begins_iff.mpr ⟨_, List.getLast_mem hne, hy⟩)⟩

end Entries

/-! ## Nodes made of entries -/

/-- The bytes that lead on from a node increase; a node without a value divides keys, or goes on
with an edge that is too long for one node. -/
structure PlacedNode.Divides (p : PlacedNode) : Prop where
  branches : p.children.branches.Pairwise (· < ·)
  minimal : p.value = none →
    2 ≤ p.children.width ∨ p.edge.length = NodeHeader.maxEdge ∧ p.children.width = 1

namespace Forest

theorem length_branches (forest : Forest) : forest.branches.length = forest.width := by
  induction forest with
  | nil => rfl
  | cons branch edge value children siblings _ ih => rw [branches, List.length_cons, ih, width]

variable {depth : Nat} {entries : Entries} {forest : Forest}

theorem mem_branches_iff (h : Forest.ofEntries depth entries = .ok forest)
    (hsorted : entries.Sorted) (hfull : ∀ entry ∈ entries, entry.1 ≠ []) (byte : UInt8) :
    byte ∈ forest.branches ↔ entries.Begins [byte] := by
  induction entries using Entries.divide_induction generalizing depth forest with
  | nil =>
      rw [Forest.ofEntries] at h
      cases h
      simp [branches, Entries.begins_iff]
  | skip slot rest ih => exact absurd rfl (hfull ([], slot) (by simp))
  | run branch first slot rest _ ihs =>
      obtain ⟨children, siblings, _, _, hsiblings, rfl⟩ := Forest.ofEntries_cons_eq_ok h
      have hlater : (rest.dropWhile (Entries.startsWith branch)).Sublist
          ((branch :: first, slot) :: rest) := (List.dropWhile_sublist _).cons _
      rw [branches, List.mem_cons, Entries.begins_cons_iff hsorted,
        ihs hsiblings (hsorted.sublist hlater) fun entry he => hfull entry (hlater.subset he)]
      by_cases hb : branch = byte
      · subst hb
        simp only [true_or, if_true, true_iff]
        exact Entries.begins_iff.mpr ⟨_, List.mem_cons_self .., List.nil_prefix⟩
      · simp [hb, Ne.symm hb]

theorem pairwise_branches (h : Forest.ofEntries depth entries = .ok forest)
    (hsorted : entries.Sorted) (hfull : ∀ entry ∈ entries, entry.1 ≠ []) :
    forest.branches.Pairwise (· < ·) := by
  induction entries using Entries.divide_induction generalizing depth forest with
  | nil =>
      rw [Forest.ofEntries] at h
      cases h
      exact .nil
  | skip slot rest ih => exact absurd rfl (hfull ([], slot) (by simp))
  | run branch first slot rest _ ihs =>
      obtain ⟨children, siblings, _, _, hsiblings, rfl⟩ := Forest.ofEntries_cons_eq_ok h
      have hlater : (rest.dropWhile (Entries.startsWith branch)).Sublist rest :=
        List.dropWhile_sublist _
      have hsortedLater := hsorted.sublist (hlater.cons (branch :: first, slot))
      have hfullLater : ∀ entry ∈ rest.dropWhile (Entries.startsWith branch), entry.1 ≠ [] :=
        fun entry he => hfull entry (List.mem_cons_of_mem _ (hlater.subset he))
      refine List.pairwise_cons.mpr ⟨?_, ihs hsiblings hsortedLater hfullLater⟩
      intro byte hbyte
      have hbegins := (mem_branches_iff hsiblings hsortedLater hfullLater byte).mp hbyte
      have hne : branch ≠ byte := by
        rintro rfl
        exact Entries.not_begins_dropWhile hsorted [] hbegins
      obtain ⟨⟨key, _⟩, he, rest', rfl⟩ := Entries.begins_iff.mp hbegins
      have hlt := (List.pairwise_cons.mp hsorted).1 _ (hlater.subset he)
      have hle := Entries.head_isLE_of_lt hlt
      exact UInt8.lt_of_le_of_ne (Std.isLE_compare.mp hle) hne

end Forest

/-- A node made of entries in order divides them. -/
theorem Entries.divides {depth : Nat} {entries : Entries} {children : Forest}
    (h : Forest.ofEntries depth entries.division.2 = .ok children) (hsorted : entries.Sorted)
    (hne : entries ≠ []) (start : Nat) :
    PlacedNode.Divides ⟨start, entries.edge, entries.division.1, children⟩ := by
  obtain ⟨hbelow, hfull, _⟩ := division_spec hsorted
  have hmem := Forest.mem_branches_iff h hbelow hfull
  refine ⟨Forest.pairwise_branches h hbelow hfull, ?_⟩
  intro hvalue
  dsimp only at hvalue ⊢
  rw [← Forest.length_branches]
  have hlong := length_edge_le entries
  by_cases hlt : entries.edge.length < NodeHeader.maxEdge
  · obtain ⟨x, y, hxy, hx, hy⟩ := exists_parting_of_edge_lt hsorted hne hvalue hlt
    have hpair : [x, y].Subperm children.branches :=
      List.subperm_of_subset (by simpa using hxy) (by simp [hmem, hx, hy])
    exact .inl hpair.length_le
  · obtain ⟨x, hx⟩ := exists_begins_division hsorted hne hvalue
    have hpos := List.length_pos_of_mem ((hmem x).mpr hx)
    by_cases hone : children.branches.length = 1
    · exact .inr ⟨by omega, hone⟩
    · exact .inl (by omega)

/-- Every node below the one of some entries divides its own. -/
theorem Forest.divides_of_mem_placed {format : Format} {depth base : Nat} {entries : Entries}
    {forest : Forest} {p : PlacedNode} (h : Forest.ofEntries depth entries = .ok forest)
    (hsorted : entries.Sorted) (hfull : ∀ entry ∈ entries, entry.1 ≠ [])
    (hp : p ∈ forest.placed format base) : p.Divides := by
  induction entries using Entries.divide_induction generalizing depth forest base with
  | nil =>
      rw [Forest.ofEntries] at h
      cases h
      cases hp
  | skip slot rest ih => exact absurd rfl (hfull ([], slot) (by simp))
  | run branch first slot rest ihc ihs =>
      obtain ⟨children, siblings, hchildren, _, hsiblings, rfl⟩ := Forest.ofEntries_cons_eq_ok h
      obtain ⟨hrun, _⟩ := Entries.run_spec hsorted
      obtain ⟨hbelow, hbelowFull, _⟩ := Entries.division_spec hrun
      have hlater : (rest.dropWhile (Entries.startsWith branch)).Sublist
          ((branch :: first, slot) :: rest) := (List.dropWhile_sublist _).cons _
      rcases mem_placed_cons.mp hp with rfl | hunder | hbehind
      · exact Entries.divides hchildren hrun (by simp [Entries.run]) base
      · exact ihc hchildren hbelow hbelowFull hunder
      · exact ihs hsiblings (hsorted.sublist hlater)
          (fun entry he => hfull entry (hlater.subset he)) hbehind

/-! ## Whole tries -/

namespace Trie

theorem encode_forest {format : Format} {t : Trie} {bs : Bytes} (h : t.encode format = .ok bs) :
    t.forest.encode format 0 = .ok bs := by
  obtain ⟨root, lower, hroot, hlower, rfl⟩ := encode_eq_ok h
  rw [← Nat.zero_add (nodeSize _ _ _ _)] at hroot hlower
  rw [forest, Forest.encode_cons_of_ok 0 hroot hlower rfl, List.append_nil]

theorem fits_forest {t : Trie} (h : t.Fits) : t.forest.Fits :=
  ⟨h.edge, h.width, h.children, trivial⟩

theorem size_forest (format : Format) (t : Trie) : t.forest.size format = t.size format := rfl

variable {format : Format} {t : Trie} {bs : Bytes}

/-- Bytes in which every node of a trie is written at its place are a tree. -/
theorem wellFormed_of_written (hfits : t.Fits)
    (hwritten : ∀ p ∈ t.forest.placed format 0, p.Written format 0 bs)
    (hsize : t.size format = bs.length)
    (hbranches : ∀ p ∈ t.forest.placed format 0, p.children.branches.Pairwise (· < ·)) :
    WellFormed format bs (t.forest.starts format 0) := by
  have hfitsPlaced : ∀ p ∈ t.forest.placed format 0, p.Fits :=
    fun p hp => Forest.Fits.of_mem_placed (fits_forest hfits) hp
  have hchildren : ∀ p ∈ t.forest.placed format 0,
      childrenIn bs p.start = p.children.roots format (p.below format) :=
    fun p hp => (hwritten p hp).childrenIn (hfitsPlaced p hp)
  have hroots : t.forest.roots format 0 = [0] := rfl
  have hperm := Forest.roots_perm format t.forest 0
  have hincreasing := Forest.pairwise_starts format t.forest 0
  rw [hroots] at hperm
  refine ⟨?_, ?_, ?_, ?_, ?_⟩
  · have hend : Tiled format bs (0 + t.forest.size format) [] := by
      rw [Nat.zero_add, size_forest, hsize]
      exact .done
    have htiled := Forest.tiled (fun p hp => (hwritten p hp).readAt) hend
    rwa [List.append_nil] at htiled
  · intro node hnode
    obtain ⟨p, hp, rfl⟩ := List.mem_map.mp hnode
    rw [(Forest.slots_eq ((hwritten p hp).slotsIn (hfitsPlaced p hp))).1]
    exact hbranches p hp
  · intro node hnode child hchild
    obtain ⟨p, hp, rfl⟩ := List.mem_map.mp hnode
    rw [hchildren p hp] at hchild
    exact hperm.subset (List.mem_append_right _ (List.mem_flatMap.mpr ⟨p, hp, hchild⟩))
  · intro node hnode
    obtain ⟨p, hp, rfl⟩ := List.mem_map.mp hnode
    rw [hchildren p hp]
    have hsub := Forest.roots_sublist format p.children (p.below format)
    refine List.pairwise_cons.mpr ⟨?_, (Forest.pairwise_starts ..).sublist hsub⟩
    intro child hchild
    obtain ⟨q, hq, rfl⟩ := List.mem_map.mp (hsub.subset hchild)
    exact Nat.lt_of_lt_of_le (p.start_lt_below format) (Forest.start_bounds hq).1
  · intro node hnode hne
    have hflat : (t.forest.starts format 0).flatMap (childrenIn bs) =
        (t.forest.placed format 0).flatMap fun p => p.children.roots format (p.below format) := by
      rw [Forest.starts, List.flatMap_map]
      exact List.flatMap_congr fun p hp => hchildren p hp
    have hcount := hperm.count_eq node
    have honce : (t.forest.starts format 0).count node = 1 :=
      List.count_eq_one_of_mem (hincreasing.imp Nat.ne_of_lt) hnode
    rw [honce, List.count_append, List.count_singleton, ← hflat] at hcount
    simpa [Ne.symm hne] using hcount

theorem minimal_of_written {p : PlacedNode} (hfits : p.Fits) (h : p.Written format 0 bs)
    (hdivides : p.Divides) : Minimal bs p.start := by
  rw [Minimal, h.readAt, PlacedNode.header_edgeLength hfits, PlacedNode.header_children hfits]
  intro hvalue
  exact hdivides.minimal (Option.isNone_iff_eq_none.mp (Option.isSome_eq_false_iff.mp hvalue))

/-- Every node of the trie of some entries divides its own. -/
theorem divides_of_mem_placed {entries : Entries} {p : PlacedNode}
    (h : Trie.ofEntries entries = .ok t) (hsorted : entries.Sorted) (hne : entries ≠ [])
    (hp : p ∈ t.forest.placed format 0) : p.Divides := by
  obtain ⟨children, hchildren, h⟩ := except_bind_eq_ok_iff.mp h
  obtain ⟨_, _, h⟩ := except_bind_eq_ok_iff.mp h
  cases Except.ok.inj h
  obtain ⟨hbelow, hfull, _⟩ := Entries.division_spec hsorted
  rcases Forest.mem_placed_cons.mp hp with rfl | hunder | hbehind
  · exact Entries.divides hchildren hsorted hne 0
  · exact Forest.divides_of_mem_placed hchildren hbelow hfull hunder
  · cases hbehind

/-- Without entries there is only a root, and it says nothing. -/
theorem ofEntries_nil : Trie.ofEntries [] = .ok ⟨[], none, .nil⟩ := by
  refine except_bind_eq_ok_iff.mpr ⟨.nil, ?_, rfl⟩
  rw [Entries.edge, Entries.strip, List.map_nil, Entries.splitValue, Forest.ofEntries]
  rintro slot rest ⟨⟩

theorem encode_empty (format : Format) :
    Trie.encode format ⟨[], none, .nil⟩ = .ok [0x00, 0x80] := by
  cases format <;> rfl

end Trie

namespace IndexBuilder

theorem entries_ne_nil (format : Format) {insertions : List (Bytes × Slot)}
    (h : insertions ≠ []) : (ofInsertions format insertions).entries ≠ [] := by
  obtain ⟨_, _, hlookup⟩ := Entries.ofInsertions_spec format insertions
  obtain ⟨insertion, hmem⟩ := List.exists_mem_of_ne_nil insertions h
  have hsome : (lastInserted? insertions insertion.1).isSome :=
    Entries.lookup_isSome_iff.mpr ⟨insertion, List.mem_reverse.mpr hmem, rfl⟩
  rw [← hlookup] at hsome
  intro hnil
  rw [hnil] at hsome
  cases hsome

/-- What is known of a trie that insertions have been encoded as. -/
structure Encoded (format : Format) (insertions : List (Bytes × Slot)) (t : Trie)
    (bytes : Bytes) : Prop where
  trie : Trie.ofEntries (ofInsertions format insertions).entries = .ok t
  encode : t.encode format = .ok bytes
  fits : t.Fits
  find : ∀ key, t.find? key = lastInserted? insertions key
  divides : insertions ≠ [] → ∀ p ∈ t.forest.placed format 0, p.Divides
  empty : insertions = [] → t = ⟨[], none, .nil⟩

theorem exists_encoded {format : Format} {insertions : List (Bytes × Slot)} {bytes : Bytes}
    (h : (ofInsertions format insertions).encode = .ok bytes) :
    ∃ t, Encoded format insertions t bytes := by
  obtain ⟨hformat, hsorted, hlast⟩ := Entries.ofInsertions_spec format insertions
  obtain ⟨t, htrie, hbytes⟩ := encode_eq_ok h
  rw [hformat] at hbytes
  obtain ⟨hfits, hfind⟩ := Trie.ofEntries_spec htrie hsorted
  refine ⟨t, htrie, hbytes, hfits, fun key => (hfind key).trans (hlast key), ?_, ?_⟩
  · intro hne p hp
    exact Trie.divides_of_mem_placed htrie hsorted (entries_ne_nil format hne) hp
  · rintro rfl
    exact Except.ok.inj (htrie.symm.trans Trie.ofEntries_nil)

namespace Encoded

variable {format : Format} {insertions : List (Bytes × Slot)} {t : Trie} {bytes : Bytes}

theorem written (h : Encoded format insertions t bytes) :
    ∀ p ∈ t.forest.placed format 0, p.Written format 0 bytes :=
  fun _ hp => Forest.written_of_encode (Trie.encode_forest h.encode) (Trie.fits_forest h.fits) hp

theorem size (h : Encoded format insertions t bytes) : t.size format = bytes.length :=
  (Forest.length_encode (Trie.encode_forest h.encode) (Trie.fits_forest h.fits)).symm

theorem branches (h : Encoded format insertions t bytes) :
    ∀ p ∈ t.forest.placed format 0, p.children.branches.Pairwise (· < ·) := by
  intro p hp
  by_cases hnone : insertions = []
  · obtain rfl := h.empty hnone
    cases List.mem_singleton.mp hp
    exact .nil
  · exact (h.divides hnone p hp).branches

theorem wellFormed (h : Encoded format insertions t bytes) :
    Trie.WellFormed format bytes (t.forest.starts format 0) :=
  Trie.wellFormed_of_written h.fits h.written h.size h.branches

end Encoded

/-- The nodes of an encoded trie are written where they are placed, side by side up to the end of
the bytes. The bytes are a tree of nodes, and no node could be left out of it; without keys there
is only a root that says nothing. -/
theorem wellFormed_of_encode {format : Format} {insertions : List (Bytes × Slot)} {bytes : Bytes}
    (h : (ofInsertions format insertions).encode = .ok bytes) :
    ∃ t : Trie, Trie.ofEntries (ofInsertions format insertions).entries = .ok t ∧
      (∀ p ∈ t.forest.placed format 0, p.Written format 0 bytes) ∧
      t.size format = bytes.length ∧
      Trie.WellFormed format bytes (t.forest.starts format 0) ∧
      (insertions = [] ∧ bytes = [0x00, 0x80] ∨
        insertions ≠ [] ∧ ∀ node ∈ t.forest.starts format 0, Trie.Minimal bytes node) := by
  obtain ⟨t, hencoded⟩ := exists_encoded h
  refine ⟨t, hencoded.trie, hencoded.written, hencoded.size, hencoded.wellFormed, ?_⟩
  by_cases hnone : insertions = []
  · have hbytes := hencoded.encode
    rw [hencoded.empty hnone, Trie.encode_empty] at hbytes
    exact .inl ⟨hnone, (Except.ok.inj hbytes).symm⟩
  · refine .inr ⟨hnone, ?_⟩
    intro node hnode
    obtain ⟨p, hp, rfl⟩ := List.mem_map.mp hnode
    exact Trie.minimal_of_written (Forest.Fits.of_mem_placed (Trie.fits_forest hencoded.fits) hp)
      (hencoded.written p hp) (hencoded.divides hnone p hp)

/-- Keys of which two part only behind the longest edge, and one goes on behind another. -/
def sampleParting : List (Bytes × Slot) :=
  [(List.replicate 130 7 ++ [1], ⟨0, 3, 0⟩), (List.replicate 130 7 ++ [2, 5], ⟨3, 4, 0⟩),
    (List.replicate 130 7 ++ [2], ⟨7, 5, 0⟩)]

theorem wellFormed_of_encode_sample :
    ∃ bytes, (ofInsertions .current sampleParting).encode = .ok bytes ∧
      Trie.WellFormed .current bytes [0, 137, 157, 171, 193] ∧
      Trie.Minimal bytes 0 ∧ Trie.Minimal bytes 137 := by
  have hsome : (ofInsertions .current sampleParting).encode.toOption.isSome = true := by
    decide +kernel
  obtain ⟨bytes, hbytes⟩ := Option.isSome_iff_exists.mp hsome
  have hencode := except_eq_ok_of_toOption hbytes
  obtain ⟨t, htrie, _, _, hwellFormed, hminimal⟩ := wellFormed_of_encode hencode
  have hstarts : (Trie.ofEntries (ofInsertions .current sampleParting).entries).toOption.map
      (fun t => t.forest.starts .current 0) = some [0, 137, 157, 171, 193] := by
    decide +kernel
  rw [htrie] at hstarts
  have hnodes : t.forest.starts .current 0 = [0, 137, 157, 171, 193] := Option.some.inj hstarts
  rw [hnodes] at hwellFormed hminimal
  obtain ⟨hnone, _⟩ | ⟨_, hminimal⟩ := hminimal
  · cases hnone
  · exact ⟨bytes, hencode, hwellFormed, hminimal 0 (by simp), hminimal 137 (by simp)⟩

end IndexBuilder

end Columnlet

import Columnlet.Proofs.Index.RoundTrip
import Columnlet.Proofs.Index.Shape
import Mathlib.Data.List.Sort

/-! # Encodings are canonical

The bytes of a trie depend on nothing but the map that its builder has come to hold, and they tell
that map: each key with its last insertion, as far as the layout writes it down. -/

namespace Columnlet

/-! ## Entries in order -/

namespace Entries

variable {entries left right : Entries}

/-- In order, an entry is what is found for its key. -/
theorem Sorted.mem_iff (h : entries.Sorted) (entry : Bytes × Slot) :
    entry ∈ entries ↔ entries.lookup entry.1 = some entry.2 := by
  constructor
  · intro he
    obtain ⟨before, behind, rfl⟩ := List.append_of_mem he
    refine List.lookup_eq_some_iff.mpr ⟨before, behind, rfl, ?_⟩
    intro other hother
    have hlt := (List.pairwise_append.mp h).2.2 other hother entry (List.mem_cons_self ..)
    have hne : entry.1 ≠ other.1 := by
      intro heq
      have hself : compare other.1 other.1 = .eq := Std.ReflCmp.compare_self
      rw [heq, hself] at hlt
      cases hlt
    simpa using hne
  · intro hlookup
    obtain ⟨before, behind, rfl, -⟩ := List.lookup_eq_some_iff.mp hlookup
    exact List.mem_append_right _ (List.mem_cons_self ..)

/-- Entries in order that stand for the same map are the same. -/
theorem Sorted.ext (hleft : left.Sorted) (hright : right.Sorted)
    (h : ∀ key, left.lookup key = right.lookup key) : left = right := by
  have hirrefl : Std.Irrefl fun a b : Bytes × Slot => compare a.1 b.1 = .lt :=
    ⟨fun a => by simp [Std.ReflCmp.compare_self]⟩
  have hantisymm : Std.Antisymm fun a b : Bytes × Slot => compare a.1 b.1 = .lt :=
    ⟨fun a b hab hba => by simp [Std.OrientedCmp.gt_of_lt hab] at hba⟩
  refine List.Pairwise.eq_of_mem_iff hleft hright fun entry => ?_
  rw [hleft.mem_iff, hright.mem_iff, h]

end Entries

/-! ## Other slots -/

variable {f : Slot → Slot}

/-- The entries with each slot replaced. -/
def Entries.mapSlots (f : Slot → Slot) (entries : Entries) : Entries :=
  entries.map fun entry => (entry.1, f entry.2)

/-- The nodes with each slot replaced. -/
def Forest.mapSlots (f : Slot → Slot) : Forest → Forest
  | nil => nil
  | cons branch edge value children siblings =>
    cons branch edge (value.map f) (children.mapSlots f) (siblings.mapSlots f)

/-- The trie with each slot replaced. -/
def Trie.mapSlots (f : Slot → Slot) (t : Trie) : Trie :=
  ⟨t.edge, t.value.map f, t.children.mapSlots f⟩

namespace Entries

theorem lookup_mapSlots (entries : Entries) (key : Bytes) :
    (entries.mapSlots f).lookup key = (entries.lookup key).map f := by
  induction entries with
  | nil => rfl
  | cons entry rest ih =>
      have hcons : mapSlots f (entry :: rest) = (entry.1, f entry.2) :: mapSlots f rest := rfl
      rw [hcons, lookup_cons, lookup_cons, ih]
      split <;> rfl

theorem Sorted.mapSlots {entries : Entries} (h : entries.Sorted) : (entries.mapSlots f).Sorted :=
  List.pairwise_map.mpr h

theorem edge_mapSlots (entries : Entries) : (entries.mapSlots f).edge = entries.edge := by
  rw [edge, edge, mapSlots, List.head?_map, List.getLast?_map]
  cases entries.head? with
  | none => rfl
  | some first => cases entries.getLast? <;> rfl

theorem strip_mapSlots (count : Nat) (entries : Entries) :
    (entries.mapSlots f).strip count = (entries.strip count).mapSlots f := by
  simp [strip, mapSlots]

theorem splitValue_mapSlots (entries : Entries) :
    (entries.mapSlots f).splitValue =
      (entries.splitValue.1.map f, entries.splitValue.2.mapSlots f) := by
  cases entries with
  | nil => rfl
  | cons entry rest =>
      obtain ⟨key, slot⟩ := entry
      cases key <;> rfl

theorem division_mapSlots (entries : Entries) :
    (entries.mapSlots f).division = (entries.division.1.map f, entries.division.2.mapSlots f) := by
  rw [division, edge_mapSlots, strip_mapSlots, splitValue_mapSlots]
  rfl

theorem takeWhile_mapSlots (branch : UInt8) (rest : Entries) :
    (rest.mapSlots f).takeWhile (startsWith branch) =
      mapSlots f (rest.takeWhile (startsWith branch)) := by
  rw [mapSlots, List.takeWhile_map]
  rfl

theorem dropWhile_mapSlots (branch : UInt8) (rest : Entries) :
    (rest.mapSlots f).dropWhile (startsWith branch) =
      mapSlots f (rest.dropWhile (startsWith branch)) := by
  rw [mapSlots, List.dropWhile_map]
  rfl

theorem run_mapSlots (branch : UInt8) (key : Bytes) (slot : Slot) (rest : Entries) :
    run branch key (f slot) (rest.mapSlots f) = (run branch key slot rest).mapSlots f := by
  rw [run, takeWhile_mapSlots, strip_mapSlots]
  rfl

end Entries

/-! ## Tries of other slots -/

theorem Forest.width_mapSlots (forest : Forest) : (forest.mapSlots f).width = forest.width := by
  induction forest with
  | nil => rfl
  | cons branch edge value children siblings _ ih => rw [mapSlots, width, width, ih]

theorem Forest.checkWidth_mapSlots (depth : Nat) (forest : Forest) :
    (forest.mapSlots f).checkWidth depth = forest.checkWidth depth := by
  rw [checkWidth, checkWidth, width_mapSlots]

theorem Forest.ofEntries_cons (depth : Nat) (branch : UInt8) (key : Bytes) (slot : Slot)
    (rest : Entries) :
    Forest.ofEntries depth ((branch :: key, slot) :: rest) = (do
      let run := Entries.run branch key slot rest
      let stop := depth + 1 + run.edge.length
      let children ← Forest.ofEntries stop run.division.2
      children.checkWidth stop
      let siblings ← Forest.ofEntries depth (rest.dropWhile (Entries.startsWith branch))
      return .cons branch run.edge run.division.1 children siblings) := by
  rw [Forest.ofEntries]
  rfl

/-- Which nodes there are, and which keys have none, does not depend on the slots. -/
theorem Forest.ofEntries_mapSlots (depth : Nat) (entries : Entries) :
    Forest.ofEntries depth (entries.mapSlots f) =
      (Forest.ofEntries depth entries).map (Forest.mapSlots f) := by
  induction entries using Entries.divide_induction generalizing depth with
  | nil =>
      rw [Entries.mapSlots, List.map_nil, Forest.ofEntries]
      rfl
  | skip slot rest ih =>
      have hcons : Entries.mapSlots f (([], slot) :: rest) = ([], f slot) :: rest.mapSlots f := rfl
      rw [hcons, Forest.ofEntries, Forest.ofEntries, ih]
  | run branch first slot rest ihc ihs =>
      have hcons : Entries.mapSlots f ((branch :: first, slot) :: rest) =
          (branch :: first, f slot) :: rest.mapSlots f := rfl
      rw [hcons, ofEntries_cons, ofEntries_cons]
      simp only [Entries.run_mapSlots, Entries.edge_mapSlots, Entries.division_mapSlots,
        Entries.dropWhile_mapSlots, ihc, ihs]
      cases Forest.ofEntries (depth + 1 + (Entries.run branch first slot rest).edge.length)
          (Entries.run branch first slot rest).division.2 with
      | error cause => rfl
      | ok children =>
          simp only [Except.map, bind, Except.bind, checkWidth_mapSlots]
          cases children.checkWidth
              (depth + 1 + (Entries.run branch first slot rest).edge.length) with
          | error cause => rfl
          | ok _ =>
              cases Forest.ofEntries depth (rest.dropWhile (Entries.startsWith branch)) <;> rfl

theorem Trie.ofEntries_eq (entries : Entries) :
    Trie.ofEntries entries = (do
      let children ← Forest.ofEntries entries.edge.length entries.division.2
      children.checkWidth entries.edge.length
      return ⟨entries.edge, entries.division.1, children⟩) := rfl

theorem Trie.ofEntries_mapSlots (entries : Entries) :
    Trie.ofEntries (entries.mapSlots f) = (Trie.ofEntries entries).map (Trie.mapSlots f) := by
  rw [ofEntries_eq, ofEntries_eq]
  simp only [Entries.edge_mapSlots, Entries.division_mapSlots, Forest.ofEntries_mapSlots]
  cases Forest.ofEntries entries.edge.length entries.division.2 with
  | error cause => rfl
  | ok children =>
      simp only [Except.map, bind, Except.bind, Forest.checkWidth_mapSlots]
      cases children.checkWidth entries.edge.length <;> rfl

/-! ## Slots that are written alike -/

section

variable {format : Format} (same : ∀ s : Slot, (f s).toBytes format = s.toBytes format)

theorem Trie.nodeHeader_mapSlots (edge : Bytes) (value : Option Slot) (children : Forest) :
    nodeHeader edge (value.map f) (children.mapSlots f) = nodeHeader edge value children := by
  rw [nodeHeader, nodeHeader, Option.isSome_map, Forest.width_mapSlots]

theorem Trie.nodeSize_mapSlots (edge : Bytes) (value : Option Slot) (children : Forest) :
    nodeSize format edge (value.map f) (children.mapSlots f) =
      nodeSize format edge value children := by
  rw [nodeSize, nodeSize, nodeHeader_mapSlots]

theorem Forest.size_mapSlots (forest : Forest) :
    (forest.mapSlots f).size format = forest.size format := by
  induction forest with
  | nil => rfl
  | cons branch edge value children siblings ihc ihs =>
      rw [mapSlots, size, size, Trie.nodeSize_mapSlots, ihc, ihs]

theorem Forest.slots_mapSlots (forest : Forest) (offset : Nat) :
    (forest.mapSlots f).slots format offset = forest.slots format offset := by
  induction forest generalizing offset with
  | nil => rfl
  | cons branch edge value children siblings _ ih =>
      rw [mapSlots, slots, slots]
      simp only [Trie.nodeSize_mapSlots, size_mapSlots, ih]

include same

theorem Trie.nodeBytes_mapSlots (offset : Nat) (edge : Bytes) (value : Option Slot)
    (children : Forest) :
    nodeBytes format offset edge (value.map f) (children.mapSlots f) =
      nodeBytes format offset edge value children := by
  have hvalue : (value.map f).map (·.toBytes format) = value.map (·.toBytes format) := by
    cases value with
    | none => rfl
    | some s => exact congrArg some (same s)
  simp only [nodeBytes, Forest.slots_mapSlots, nodeHeader_mapSlots, hvalue]

theorem Forest.encode_mapSlots (forest : Forest) (offset : Nat) :
    (forest.mapSlots f).encode format offset = forest.encode format offset := by
  induction forest generalizing offset with
  | nil => rfl
  | cons branch edge value children siblings ihc ihs =>
      rw [mapSlots, encode, encode]
      simp only [Trie.nodeSize_mapSlots, size_mapSlots, Trie.nodeBytes_mapSlots same, ihc, ihs]

theorem Trie.encode_mapSlots (t : Trie) : (t.mapSlots f).encode format = t.encode format := by
  simp only [mapSlots, encode, nodeSize_mapSlots, nodeBytes_mapSlots same,
    Forest.encode_mapSlots same]

end

/-! ## Builders -/

/-- What a layout keeps of a slot: in the current one no time of insertion. -/
def Slot.kept (format : Format) (s : Slot) : Slot :=
  match format with
  | .current => { s with insertedAt := 0 }
  | .legacy => s

theorem Slot.toBytes_kept (format : Format) (s : Slot) :
    (s.kept format).toBytes format = s.toBytes format := by
  cases format <;> rfl

/-- The slot that a locator tells of. -/
def Locator.slot (l : Locator) : Slot where
  offset := l.offset
  length := l.length
  insertedAt := (l.legacy.map (·.insertedAt)).getD 0

/-- A locator tells what the layout keeps of the slot that it was read from. -/
theorem Slot.slot_locatorIn {n : Nat} (format : Format) (r : Region n) (s : Slot) (place : Nat) :
    (s.locatorIn format r place).slot = s.kept format := by
  cases format <;> rfl

namespace IndexBuilder

variable {format : Format} {xs ys : List (Bytes × Slot)} {bytes other : Bytes}

/-- The map that insertions come to: for each key its last insertion, as far as a layout keeps it. -/
def finalMap (format : Format) (insertions : List (Bytes × Slot)) (key : Bytes) : Option Slot :=
  (lastInserted? insertions key).map (Slot.kept format)

/-- Builders with the same map have the same encoding, or have none for the same reason. -/
theorem encode_congr (h : ∀ key, finalMap format xs key = finalMap format ys key) :
    (ofInsertions format xs).encode = (ofInsertions format ys).encode := by
  have hencode (zs : List (Bytes × Slot)) :
      Trie.ofEntries (ofInsertions format zs).entries >>= Trie.encode format =
        Trie.ofEntries ((ofInsertions format zs).entries.mapSlots (Slot.kept format)) >>=
          Trie.encode format := by
    rw [Trie.ofEntries_mapSlots]
    cases Trie.ofEntries (ofInsertions format zs).entries with
    | error cause => rfl
    | ok t => exact (Trie.encode_mapSlots (Slot.toBytes_kept format) t).symm
  obtain ⟨hxformat, hxsorted, hxlookup⟩ := Entries.ofInsertions_spec format xs
  obtain ⟨hyformat, hysorted, hylookup⟩ := Entries.ofInsertions_spec format ys
  have hsame : (ofInsertions format xs).entries.mapSlots (Slot.kept format) =
      (ofInsertions format ys).entries.mapSlots (Slot.kept format) := by
    refine hxsorted.mapSlots.ext hysorted.mapSlots fun key => ?_
    rw [Entries.lookup_mapSlots, Entries.lookup_mapSlots, hxlookup, hylookup]
    exact h key
  rw [encode, encode, hxformat, hyformat, hencode xs, hencode ys, hsame]

/-- Lookups in a region that holds an encoding tell the map that was encoded. -/
theorem map_lookupIn_of_holds {n : Nat} {r : Region n}
    (h : (ofInsertions format xs).encode = .ok bytes) (hr : r.Holds Index.headerSize bytes)
    (key : Bytes) :
    (Index.lookupIn format r key).map (Option.map Locator.slot) = .ok (finalMap format xs key) := by
  obtain ⟨t, hencoded⟩ := exists_encoded h
  obtain ⟨hshown, -⟩ := Trie.shown_of_holds hencoded.encode hencoded.fits hr
  rw [Index.lookupIn_of_shown hshown key, finalMap, ← hencoded.find key, ← t.map_locate? format]
  cases t.locate? format key with
  | none => rfl
  | some found => exact congrArg (Except.ok ∘ some) (found.1.slot_locatorIn format r found.2)

/-- The bytes of an encoding tell the map. -/
theorem finalMap_eq_of_encode (hx : (ofInsertions format xs).encode = .ok bytes)
    (hy : (ofInsertions format ys).encode = .ok bytes) (key : Bytes) :
    finalMap format xs key = finalMap format ys key := by
  obtain ⟨r, hwrite⟩ := Region.write?_of_le (n := Index.headerSize + bytes.length) ⟨.blank⟩
    Index.headerSize bytes (Nat.le_refl _)
  have hholds := Region.holds_of_write? hwrite
  exact Except.ok.inj
    ((map_lookupIn_of_holds hx hholds key).symm.trans (map_lookupIn_of_holds hy hholds key))

/-- Two builders that have encodings have the same one if and only if the insertions come to the
same map; neither their order nor what was inserted over leaves a trace. -/
theorem encode_eq_iff (hx : (ofInsertions format xs).encode = .ok bytes)
    (hy : (ofInsertions format ys).encode = .ok other) :
    bytes = other ↔ ∀ key, finalMap format xs key = finalMap format ys key := by
  constructor
  · rintro rfl
    exact finalMap_eq_of_encode hx hy
  · intro h
    exact Except.ok.inj (hx.symm.trans ((encode_congr h).trans hy))

/-- Insertions in another order, with other times, and with another slot inserted over. -/
def sampleReordered : List (Bytes × Slot) :=
  [([7, 8], ⟨64, 3, 9⟩), ([7], ⟨32, 6, 8⟩), ([], ⟨0, 0, 1⟩), ([], ⟨1, 2, 7⟩)]

theorem finalMap_sampleReordered (key : Bytes) :
    finalMap .current sampleInsertions key = finalMap .current sampleReordered key := by
  simp only [finalMap, lastInserted?, sampleInsertions, sampleReordered, List.reverse_cons,
    List.reverse_nil, List.nil_append, List.cons_append, Entries.lookup_cons]
  by_cases hseven : key = [7]
  · rw [hseven]
    rfl
  · by_cases hnil : key = []
    · rw [hnil]
      rfl
    · simp only [if_neg hseven, if_neg hnil]
      by_cases height : key = [7, 8]
      · rw [if_pos height, if_pos height]
        rfl
      · rw [if_neg height, if_neg height]

theorem encode_eq_iff_sample :
    ∃ bytes third fourth, (ofInsertions .current sampleInsertions).encode = .ok bytes ∧
      (ofInsertions .current sampleReordered).encode = .ok bytes ∧
      (ofInsertions .legacy sampleInsertions).encode = .ok third ∧
      (ofInsertions .legacy sampleReordered).encode = .ok fourth ∧ third ≠ fourth := by
  have hencode (format : Format) (xs : List (Bytes × Slot))
      (h : (ofInsertions format xs).encode.toOption.isSome = true) :
      ∃ bytes, (ofInsertions format xs).encode = .ok bytes := by
    obtain ⟨bytes, hbytes⟩ := Option.isSome_iff_exists.mp h
    exact ⟨bytes, except_eq_ok_of_toOption hbytes⟩
  obtain ⟨first, hfirst⟩ := hencode .current sampleInsertions (by decide +kernel)
  obtain ⟨second, hsecond⟩ := hencode .current sampleReordered (by decide +kernel)
  obtain ⟨third, hthird⟩ := hencode .legacy sampleInsertions (by decide +kernel)
  obtain ⟨fourth, hfourth⟩ := hencode .legacy sampleReordered (by decide +kernel)
  obtain rfl : first = second :=
    (encode_eq_iff hfirst hsecond).mpr finalMap_sampleReordered
  refine ⟨first, third, fourth, hfirst, hsecond, hthird, hfourth, ?_⟩
  intro hsame
  have hmap := (encode_eq_iff hthird hfourth).mp hsame [7]
  cases hmap

end IndexBuilder

end Columnlet

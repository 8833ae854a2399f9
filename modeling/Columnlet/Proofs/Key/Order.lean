import Columnlet.Proofs.Index.Canonical
import Columnlet.Proofs.Index.Traversal
import Columnlet.Proofs.Key

/-! # The order of keys

Keys are in the order of the byte strings that they are written as, and so the trie of an index of
keys brings them up from the least to the greatest. -/

namespace Columnlet.Key

/-- Numbers of fixed width, one behind another, are compared as byte strings one after another. -/
theorem compare_toBytes (a b : Key) : compare a.toBytes b.toBytes = compare a b := by
  have hfile : compare (Bytes.bigEndian 8 a.fileId.toNat) (Bytes.bigEndian 8 b.fileId.toNat) =
      compare a.fileId b.fileId := by
    rw [Bytes.compare_bigEndian a.fileId.toNat_lt b.fileId.toNat_lt]
    simp only [compare, compareOfLessAndEq, UInt64.lt_iff_toNat_lt, UInt64.toNat_inj]
  -- Row groups and columns are half as wide as the four bytes that they are written in.
  have hnarrow (m n : UInt16) : compare (Bytes.bigEndian 4 m.toNat) (Bytes.bigEndian 4 n.toNat) =
      compare m n := by
    have hm := m.toNat_lt
    have hn := n.toNat_lt
    rw [Bytes.compare_bigEndian (by omega) (by omega)]
    simp only [compare, compareOfLessAndEq, UInt16.lt_iff_toNat_lt, UInt16.toNat_inj]
  rw [toBytes, toBytes, Bytes.compare_append (by simp), Bytes.compare_append (by simp), hfile,
    hnarrow, hnarrow, Ordering.then_assoc]
  rfl

/-! ## Keys with what is stored for them -/

/-- Keys and their slots as an index takes them. -/
def written (keyed : List (Key × Slot)) : Entries :=
  keyed.map fun entry => (entry.1.toBytes, entry.2)

theorem written_cons (entry : Key × Slot) (rest : List (Key × Slot)) :
    written (entry :: rest) = (entry.1.toBytes, entry.2) :: written rest := rfl

theorem exists_written {entries : Entries} (h : ∀ entry ∈ entries, ∃ k : Key, entry.1 = k.toBytes) :
    ∃ keyed, entries = written keyed := by
  induction entries with
  | nil => exact ⟨[], rfl⟩
  | cons entry rest ih =>
      obtain ⟨k, hk⟩ := h entry (List.mem_cons_self ..)
      obtain ⟨keyed, hkeyed⟩ := ih fun other ho => h other (List.mem_cons_of_mem _ ho)
      exact ⟨(k, entry.2) :: keyed, by rw [written_cons, ← hkeyed, ← hk]⟩

theorem sorted_written_iff (keyed : List (Key × Slot)) :
    (written keyed).Sorted ↔ keyed.Pairwise fun a b => compare a.1 b.1 = .lt := by
  rw [Entries.Sorted, written, List.pairwise_map]
  simp only [compare_toBytes]

theorem mem_written_iff {keyed : List (Key × Slot)} {k : Key} {s : Slot} :
    (k.toBytes, s) ∈ written keyed ↔ (k, s) ∈ keyed := by
  constructor
  · intro h
    obtain ⟨⟨other, slot⟩, hmem, hentry⟩ := List.mem_map.mp h
    obtain ⟨hbytes, rfl⟩ := Prod.mk.inj hentry
    obtain rfl := toBytes_injective hbytes
    exact hmem
  · intro h
    exact List.mem_map.mpr ⟨(k, s), h, rfl⟩

theorem lookup_written (keyed : List (Key × Slot)) (k : Key) :
    (written keyed).lookup k.toBytes = keyed.lookup k := by
  induction keyed with
  | nil => rfl
  | cons entry rest ih =>
      obtain ⟨first, s⟩ := entry
      rw [written_cons, List.lookup_cons, List.lookup_cons, ih]
      by_cases h : k = first
      · simp [h]
      · have hbytes : k.toBytes ≠ first.toBytes := fun he => h (toBytes_injective he)
        simp [beq_false_of_ne h, beq_false_of_ne hbytes]

/-- The last insertion of a key among insertions of keys. -/
theorem lastInserted?_written (insertions : List (Key × Slot)) (k : Key) :
    lastInserted? (written insertions) k.toBytes = insertions.reverse.lookup k := by
  rw [lastInserted?, written, ← List.map_reverse]
  exact lookup_written insertions.reverse k

/-! ## Keys in a trie -/

/-- The trie of an index of keys brings up the last insertion of each key, in the order of keys. -/
theorem entries_of_written {format : Format} {insertions : List (Key × Slot)} {t : Trie}
    (h : Trie.ofEntries (IndexBuilder.ofInsertions format (written insertions)).entries = .ok t) :
    ∃ keyed : List (Key × Slot), t.entries = written keyed ∧
      (keyed.Pairwise fun a b => compare a.1 b.1 = .lt) ∧
      ∀ k s, (k, s) ∈ keyed ↔ insertions.reverse.lookup k = some s := by
  obtain ⟨_, hsorted, hlookup⟩ := Entries.ofInsertions_spec format (written insertions)
  have hkeys : ∀ entry ∈ (IndexBuilder.ofInsertions format (written insertions)).entries,
      ∃ k : Key, entry.1 = k.toBytes := by
    intro entry he
    have hlast := (hlookup entry.1).symm.trans ((hsorted.mem_iff entry).mp he)
    obtain ⟨before, behind, hinsertions, -⟩ := List.lookup_eq_some_iff.mp hlast
    have hmem : (entry.1, entry.2) ∈ (written insertions).reverse :=
      hinsertions ▸ List.mem_append_right _ (List.mem_cons_self ..)
    obtain ⟨⟨k, s⟩, -, hentry⟩ := List.mem_map.mp (List.mem_reverse.mp hmem)
    exact ⟨k, (Prod.mk.inj hentry).1.symm⟩
  obtain ⟨keyed, hkeyed⟩ := exists_written hkeys
  refine ⟨keyed, (Trie.entries_ofEntries h hsorted).trans hkeyed, ?_, ?_⟩
  · rw [← sorted_written_iff, ← hkeyed]
    exact hsorted
  · intro k s
    rw [← mem_written_iff, ← hkeyed, hsorted.mem_iff, hlookup, lastInserted?_written]

/-- A key is spelled by the bytes that it is written as and by no others, and sixteen bytes spell
one if and only if the upper halves of row group and column are zero. Keys, field by field, are in
the order of their byte strings, and this is the order in which a trie brings them up. -/
theorem order_isomorphism :
    (∀ (bs : Bytes) (k : Key), ofBytes? bs = some k ↔ bs = k.toBytes) ∧
    (∀ bs : Bytes, (ofBytes? bs).isSome ↔
      bs.length = 16 ∧ bs[8]? = some 0 ∧ bs[9]? = some 0 ∧ bs[12]? = some 0 ∧ bs[13]? = some 0) ∧
    (∀ a b : Key, compare a.toBytes b.toBytes = compare a b) ∧
    ∀ (format : Format) (insertions : List (Key × Slot)) (t : Trie),
      Trie.ofEntries (IndexBuilder.ofInsertions format (written insertions)).entries = .ok t →
        ∃ keyed : List (Key × Slot), t.entries = written keyed ∧
          (keyed.Pairwise fun a b => compare a.1 b.1 = .lt) ∧
          ∀ k s, (k, s) ∈ keyed ↔ insertions.reverse.lookup k = some s := by
  refine ⟨?_, isSome_ofBytes?_iff, compare_toBytes, fun _ _ _ => entries_of_written⟩
  intro bs k
  constructor
  · exact eq_toBytes_of_ofBytes?
  · rintro rfl
    exact ofBytes?_toBytes k

/-- Keys out of order, one of them inserted twice. -/
def sampleKeyed : List (Key × Slot) :=
  [(⟨256, 0, 0⟩, ⟨0, 3, 0⟩), (⟨255, 9, 300⟩, ⟨16, 4, 0⟩), (⟨256, 0, 0⟩, ⟨32, 5, 0⟩)]

theorem order_isomorphism_sample :
    ∃ t, Trie.ofEntries (IndexBuilder.ofInsertions .current (written sampleKeyed)).entries = .ok t ∧
      ∃ keyed : List (Key × Slot), t.entries = written keyed ∧
        (keyed.Pairwise fun a b => compare a.1 b.1 = .lt) ∧
        (⟨255, 9, 300⟩, ⟨16, 4, 0⟩) ∈ keyed ∧ (⟨256, 0, 0⟩, ⟨32, 5, 0⟩) ∈ keyed ∧
        (⟨256, 0, 0⟩, ⟨0, 3, 0⟩) ∉ keyed := by
  have hsome : (Trie.ofEntries (IndexBuilder.ofInsertions .current
      (written sampleKeyed)).entries).toOption.isSome = true := by
    decide +kernel
  obtain ⟨t, ht⟩ := Option.isSome_iff_exists.mp hsome
  have htrie := except_eq_ok_of_toOption ht
  obtain ⟨keyed, hentries, hsorted, hmem⟩ := order_isomorphism.2.2.2 .current sampleKeyed t htrie
  refine ⟨t, htrie, keyed, hentries, hsorted, (hmem _ _).mpr ?_, (hmem _ _).mpr ?_, ?_⟩
  · decide
  · decide
  · rw [hmem]
    decide

end Columnlet.Key

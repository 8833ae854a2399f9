import Columnlet.Proofs.Index.Semantics

/-! # Tries in order

The keys of a trie as they come up from node to node, a node before those below it and those in
the order of their branches. The trie of some entries in order brings up these entries. -/

namespace Columnlet

namespace Entries

/-- The entries with some bytes in front of each key. -/
def prepend (front : Bytes) (entries : Entries) : Entries :=
  entries.map fun entry => (front ++ entry.1, entry.2)

/-- The value at a node, as that of the key that has nothing left, and the entries that go on. -/
def joinValue (value : Option Slot) (entries : Entries) : Entries :=
  value.toList.map (([], ·)) ++ entries

end Entries

/-- The keys from some nodes on, each with its value. -/
def Forest.entries : Forest → Entries
  | nil => []
  | cons branch edge value children siblings =>
    Entries.prepend (branch :: edge) (Entries.joinValue value children.entries) ++ siblings.entries

/-- The keys of a trie, each with its value. -/
def Trie.entries (t : Trie) : Entries :=
  Entries.prepend t.edge (Entries.joinValue t.value t.children.entries)

/-! ## Divided entries put together -/

namespace Entries

theorem prepend_strip {front : Bytes} {entries : Entries}
    (h : ∀ entry ∈ entries, front <+: entry.1) :
    prepend front (entries.strip front.length) = entries := by
  have hsame : ∀ entry ∈ entries,
      (front ++ entry.1.drop front.length, entry.2) = id entry := by
    rintro ⟨key, slot⟩ he
    obtain ⟨rest, rfl⟩ := h _ he
    simp
  rw [prepend, strip, List.map_map]
  exact (List.map_congr_left hsame).trans (List.map_id _)

theorem joinValue_splitValue (entries : Entries) :
    joinValue entries.splitValue.1 entries.splitValue.2 = entries := by
  unfold splitValue
  split <;> rfl

/-- What a node stores and what goes on below it are the entries it was made for. -/
theorem Sorted.prepend_division {entries : Entries} (h : entries.Sorted) :
    prepend entries.edge (joinValue entries.division.1 entries.division.2) = entries := by
  rw [division, joinValue_splitValue, prepend_strip h.edge_isPrefix]

/-- The entries that go on with a byte, with the byte that a run leaves out. -/
theorem prepend_run (branch : UInt8) (key : Bytes) (slot : Slot) (rest : Entries) :
    prepend [branch] (run branch key slot rest) =
      (branch :: key, slot) :: rest.takeWhile (startsWith branch) := by
  have hrest := prepend_strip (prefix_of_mem_takeWhile branch rest)
  rw [run]
  exact congrArg ((branch :: key, slot) :: ·) hrest

theorem prepend_cons (branch : UInt8) (edge : Bytes) (entries : Entries) :
    prepend (branch :: edge) entries = prepend [branch] (prepend edge entries) := by
  simp [prepend]

end Entries

/-! ## Tries of entries -/

/-- The nodes for entries in order bring up these entries. -/
theorem Forest.entries_ofEntries {depth : Nat} {entries : Entries} {forest : Forest}
    (h : Forest.ofEntries depth entries = .ok forest) (hsorted : entries.Sorted)
    (hfull : ∀ entry ∈ entries, entry.1 ≠ []) : forest.entries = entries := by
  induction entries using Entries.divide_induction generalizing depth forest with
  | nil =>
      rw [Forest.ofEntries] at h
      cases h
      rfl
  | skip slot rest ih => exact absurd rfl (hfull ([], slot) (by simp))
  | run branch first slot rest ihc ihs =>
      obtain ⟨children, siblings, hchildren, _, hsiblings, rfl⟩ :=
        Forest.ofEntries_cons_eq_ok h
      obtain ⟨hrun, _⟩ := Entries.run_spec hsorted
      obtain ⟨hbelow, hbelowFull, _⟩ := Entries.division_spec hrun
      have hlater : (rest.dropWhile (Entries.startsWith branch)).Sublist
          ((branch :: first, slot) :: rest) := (List.dropWhile_sublist _).cons _
      have hs := ihs hsiblings (hsorted.sublist hlater)
        fun entry he => hfull entry (hlater.subset he)
      rw [Forest.entries, ihc hchildren hbelow hbelowFull, hs, Entries.prepend_cons,
        hrun.prepend_division, Entries.prepend_run, List.cons_append,
        List.takeWhile_append_dropWhile]

/-- The trie of entries in order brings up these entries. -/
theorem Trie.entries_ofEntries {entries : Entries} {t : Trie} (h : Trie.ofEntries entries = .ok t)
    (hsorted : entries.Sorted) : t.entries = entries := by
  obtain ⟨children, hchildren, h⟩ := except_bind_eq_ok_iff.mp h
  obtain ⟨_, _, h⟩ := except_bind_eq_ok_iff.mp h
  cases Except.ok.inj h
  obtain ⟨hbelow, hbelowFull, _⟩ := Entries.division_spec hsorted
  rw [Trie.entries, Forest.entries_ofEntries hchildren hbelow hbelowFull]
  exact hsorted.prepend_division

end Columnlet

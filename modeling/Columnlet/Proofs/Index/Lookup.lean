import Columnlet.Index.Lookup
import Columnlet.Proofs.Attempt
import Columnlet.Proofs.Region.Counter

/-! # Lookups in arbitrary bytes

Whatever an index holds, a lookup depends on nothing in front of the trie, and a locator that it
answers counts accesses where the layout keeps the count. -/

namespace Columnlet.Index

variable {n : Nat}

/-! ## A step of a walk -/

theorem lookupFrom_of_error {format : Format} {r : Region n} {node : Nat} {key : Bytes}
    {e : Error} (h : visit format r node key = .error e) :
    lookupFrom format r node key = .error e := by
  rw [lookupFrom]
  split
  · rename_i heq
    cases h.symm.trans heq
    rfl
  · rename_i heq
    cases h.symm.trans heq
  · rename_i heq
    cases h.symm.trans heq

theorem lookupFrom_of_finish {format : Format} {r : Region n} {node : Nat} {key : Bytes}
    {found : Option Locator} (h : visit format r node key = .ok (.finish found)) :
    lookupFrom format r node key = .ok found := by
  rw [lookupFrom]
  split
  · rename_i heq
    cases h.symm.trans heq
  · rename_i heq
    cases h.symm.trans heq
    rfl
  · rename_i heq
    cases h.symm.trans heq

theorem lookupFrom_of_descend {format : Format} {r : Region n} {node child : Nat}
    {key rest : Bytes} (h : visit format r node key = .ok (.descend child rest)) :
    lookupFrom format r node key = lookupFrom format r child rest := by
  rw [lookupFrom]
  split
  · rename_i heq
    cases h.symm.trans heq
  · rename_i heq
    cases h.symm.trans heq
  · rename_i heq
    cases h.symm.trans heq
    rfl

/-! ## The bytes that a lookup depends on -/

section

variable {r s : Region n} (same : ∀ i, headerSize ≤ i → s.get i = r.get i)

include same

theorem read_congr (offset width : Nat) : read s offset width = read r offset width := by
  have hread : s.read? (headerSize + offset) width = r.read? (headerSize + offset) width := by
    refine Region.read?_congr ?_
    intro i hi _
    exact same i (by omega)
  rw [read, read, hread]

theorem number_congr (width offset : Nat) : number s width offset = number r width offset := by
  rw [number, number, read_congr same]

theorem findChild_congr (offset count : Nat) (branch : UInt8) :
    findChild s offset count branch = findChild r offset count branch := by
  induction count generalizing offset with
  | zero => rfl
  | succ count ih => simp only [findChild, number_congr same, ih]

theorem locator_congr (format : Format) (slot : Nat) :
    locator format s slot = locator format r slot := by
  have hcount : s.counter? (headerSize + (slot + 20)) = r.counter? (headerSize + (slot + 20)) := by
    refine Region.counter?_congr ?_
    intro i hi _
    exact same i (by omega)
  cases format <;> simp only [locator, number_congr same, hcount]

theorem visit_congr (format : Format) (node : Nat) (key : Bytes) :
    visit format s node key = visit format r node key := by
  simp only [visit, header, edgeMatches, number_congr same, read_congr same, findChild_congr same,
    locator_congr same]

theorem lookupFrom_congr (format : Format) (node : Nat) (key : Bytes) :
    lookupFrom format s node key = lookupFrom format r node key := by
  fun_induction lookupFrom format r node key with
  | case1 node key e h => exact lookupFrom_of_error ((visit_congr same ..).trans h)
  | case2 node key found h => exact lookupFrom_of_finish ((visit_congr same ..).trans h)
  | case3 node key child rest h ih =>
      rw [lookupFrom_of_descend ((visit_congr same ..).trans h)]
      exact ih

/-- A lookup depends on nothing in front of the trie. -/
theorem lookupIn_congr (format : Format) (key : Bytes) :
    lookupIn format s key = lookupIn format r key := lookupFrom_congr same format 0 key

end

/-! ## Where accesses are counted -/

/-- A locator carries a count of accesses of a region if the layout keeps counts in the index. -/
def Counts (format : Format) (r : Region n) (l : Locator) : Prop :=
  match format with
  | .current => l.legacy = none
  | .legacy => ∃ slot, l.legacy = some slot ∧
      r.counter? (headerSize + slot.counterAt) = some slot.accessCount

theorem counts_of_locator {format : Format} {r : Region n} {slot : Nat} {l : Locator}
    (h : locator format r slot = .ok l) : Counts format r l := by
  obtain ⟨offset, _, h⟩ := except_bind_eq_ok_iff.mp h
  cases format with
  | current =>
      obtain ⟨length, _, h⟩ := except_bind_eq_ok_iff.mp h
      cases h
      rfl
  | legacy =>
      obtain ⟨insertedAt, _, h⟩ := except_bind_eq_ok_iff.mp h
      obtain ⟨length, _, h⟩ := except_bind_eq_ok_iff.mp h
      cases hcount : r.counter? (headerSize + (slot + 20)) with
      | none =>
          simp only [hcount] at h
          cases h
      | some count =>
          simp only [hcount] at h
          cases h
          exact ⟨_, rfl, hcount⟩

theorem exists_locator_of_visit {format : Format} {r : Region n} {node : Nat} {key : Bytes}
    {l : Locator} (h : visit format r node key = .ok (.finish (some l))) :
    ∃ slot, locator format r slot = .ok l := by
  obtain ⟨nodeHeader, _, h⟩ := except_bind_eq_ok_iff.mp h
  obtain ⟨goesOn, _, h⟩ := except_bind_eq_ok_iff.mp h
  split at h
  · cases h
  · split at h
    · split at h
      · obtain ⟨found, hfound, h⟩ := except_bind_eq_ok_iff.mp h
        cases h
        exact ⟨_, hfound⟩
      · cases h
    · obtain ⟨child, _, h⟩ := except_bind_eq_ok_iff.mp h
      split at h <;> cases h

theorem exists_locator_of_lookupFrom {format : Format} {r : Region n} {node : Nat} {key : Bytes}
    {l : Locator} (h : lookupFrom format r node key = .ok (some l)) :
    ∃ slot, locator format r slot = .ok l := by
  fun_induction lookupFrom format r node key with
  | case1 node key e hvisit => cases h
  | case2 node key found hvisit =>
      cases h
      exact exists_locator_of_visit hvisit
  | case3 node key child rest hvisit ih => exact ih h

/-- A lookup answers only locators whose count of accesses can be bumped. -/
theorem counts_of_lookupIn {format : Format} {r : Region n} {key : Bytes} {l : Locator}
    (h : lookupIn format r key = .ok (some l)) : Counts format r l := by
  obtain ⟨slot, hslot⟩ := exists_locator_of_lookupFrom h
  exact counts_of_locator hslot

/-! ## Counting an access -/

/-- Count an access of an index: in the legacy layout the count that a locator carries has been
bumped, and no other byte differs. -/
def Touched (format : Format) (r after : Region n) (l : Locator) : Prop :=
  match format with
  | .current => ∀ i, after.get i = r.get i
  | .legacy => ∃ slot count, l.legacy = some slot ∧
      r.Bumped after (headerSize + slot.counterAt) count

theorem Touched.get_of_lt {format : Format} {r after : Region n} {l : Locator}
    (h : Touched format r after l) {i : Nat} (hi : i < headerSize) : after.get i = r.get i := by
  cases format with
  | current => exact h i
  | legacy =>
      obtain ⟨slot, count, _, hbumped⟩ := h
      exact hbumped.frame i (.inl (by omega))

/-- An access between two changes of the header that cancel out. -/
theorem Touched.congr {format : Format} {r after s last : Region n} {l : Locator}
    (h : Touched format r after l) (hbefore : ∀ i, headerSize ≤ i → r.get i = s.get i)
    (hafter : ∀ i, last.get i = if i < headerSize then s.get i else after.get i) :
    Touched format s last l := by
  cases format with
  | current =>
      intro i
      rw [hafter i]
      by_cases hi : i < headerSize
      · rw [if_pos hi]
      · rw [if_neg hi, h i, hbefore i (by omega)]
  | legacy =>
      obtain ⟨slot, count, hslot, hbumped⟩ := h
      refine ⟨slot, count, hslot, hbumped.congr ?_ ?_ ?_⟩
      · intro i hi _
        exact (hbefore i (by omega)).symm
      · intro i hi _
        rw [hafter i, if_neg (by omega)]
      · intro i hi
        rw [hafter i]
        by_cases hlow : i < headerSize
        · rw [if_pos hlow]
        · rw [if_neg hlow, hbumped.frame i hi, hbefore i (by omega)]

/-- An access through any locator that names a counter inside the index is counted there, however
old the locator is. -/
theorem recordAccess_of_counter? (index : Index) {files : Files} {l : Locator} {slot : LegacySlot}
    {count : UInt32} (hslot : l.legacy = some slot)
    (hcount : (files.view index.mapping).counter? (headerSize + slot.counterAt) = some count) :
    (index.recordAccess l files).1 = some (count + 1) ∧
      (files.view index.mapping).Bumped ((index.recordAccess l files).2.view index.mapping)
        (headerSize + slot.counterAt) count ∧
      ∀ place, place ≠ index.mapping.location →
        (index.recordAccess l files).2.file place = files.file place := by
  obtain ⟨before, after, hbump, hbumped⟩ :=
    (files.view index.mapping).bump?_spec _ (Region.le_of_counter? hcount)
  obtain rfl : before = count := Option.some.inj (hbumped.before.symm.trans hcount)
  have hsome : bumpIn? l (files.view index.mapping) = some (before + 1, after) := by
    rw [bumpIn?, hslot]
    exact hbump
  rw [recordAccess, hsome]
  refine ⟨rfl, ?_, fun _ hplace => Files.file_commit_of_ne hplace⟩
  rw [Files.view_commit_self]
  exact hbumped

/-- An access through a locator that a lookup has answered is counted. -/
theorem recordAccess_spec {index : Index} {files : Files} {l : Locator}
    (h : Counts index.format (files.view index.mapping) l) :
    Touched index.format (files.view index.mapping)
        ((index.recordAccess l files).2.view index.mapping) l ∧
      ∀ place, place ≠ index.mapping.location →
        (index.recordAccess l files).2.file place = files.file place := by
  obtain ⟨mapping, format⟩ := index
  cases format with
  | current =>
      have hnone : bumpIn? l (files.view mapping) = none := by
        rw [bumpIn?, show l.legacy = none from h]
      rw [recordAccess, hnone]
      exact ⟨fun _ => rfl, fun _ _ => rfl⟩
  | legacy =>
      obtain ⟨slot, hslot, hcount⟩ := h
      obtain ⟨_, hbumped, hfiles⟩ := recordAccess_of_counter? ⟨mapping, .legacy⟩ hslot hcount
      exact ⟨⟨slot, _, hslot, hbumped⟩, hfiles⟩

end Columnlet.Index

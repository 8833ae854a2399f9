import Columnlet.Proofs.Index.Frame
import Columnlet.Proofs.Index.RoundTrip

/-! # Accesses of a published index

In the legacy layout accesses are counted inside the index, between the bytes that lookups depend
on. Keys are looked up and accesses are counted in any order, also through locators that were
answered long ago: every lookup goes on answering what was published, with the count of its own
key, and nothing but counts ever changes. -/

namespace Columnlet

namespace Index

/-! ## Runs -/

/-- An index in use: the files, the locators that lookups have answered, each with its key, and how
often an access of each key has been counted. -/
structure Usage where
  files : Files
  locators : List (Bytes × Locator)
  accesses : Bytes → Nat

namespace Usage

/-- The locators that are known once a key has been looked up. -/
def learn (index : Index) (key : Bytes) (u : Usage) : List (Bytes × Locator) :=
  match index.tryLookup u.files key with
  | .ok (some l) => (key, l) :: u.locators
  | _ => u.locators

theorem mem_learn_iff {index : Index} {key key' : Bytes} {l : Locator} {u : Usage} :
    (key', l) ∈ u.learn index key ↔
      (key', l) ∈ u.locators ∨ key' = key ∧ index.tryLookup u.files key = .ok (some l) := by
  unfold learn
  split
  · rename_i l' hlookup
    simp [hlookup, or_comm, eq_comm]
  · rename_i hnone
    simp only [iff_self_or, and_imp]
    rintro - hlookup
    exact absurd hlookup (hnone l)

/-- The steps of a run: any key may be looked up, and an access may be counted through any locator
that a lookup has answered. -/
inductive Step (index : Index) : Usage → Usage → Prop
  | lookup {u : Usage} (key : Bytes) : Step index u { u with locators := u.learn index key }
  | record {u : Usage} (key : Bytes) (l : Locator) (known : (key, l) ∈ u.locators) :
      Step index u { u with
        files := (index.recordAccess l u.files).2
        accesses := countHit u.accesses key }

/-- What the use of an index can come to since the files were as given. -/
inductive Reached (index : Index) (published : Files) : Usage → Prop
  | start : Reached index published ⟨published, [], fun _ => 0⟩
  | step {u next : Usage} (before : Reached index published u) (step : Step index u next) :
      Reached index published next

/-! ## The invariant -/

/-- Whether an address is outside the count of accesses in a value slot. -/
def OutsideCount (node i : Nat) : Prop :=
  i < headerSize + (node + Slot.counterField) ∨ headerSize + (node + Slot.counterField) + 4 ≤ i

/-- The index shows a trie with the accesses counted so far, the locators point to the counts of
their keys, and nothing else has changed. -/
structure Inv (m : Mapping) (t : Trie) (published : Files) (u : Usage) : Prop where
  counted : t.Counted .legacy (u.files.view m) u.accesses
  locators : ∀ key l, (key, l) ∈ u.locators → ∃ slot node stored,
    t.locate? .legacy key = some (slot, node) ∧ l.legacy = some stored ∧
      stored.counterAt = node + Slot.counterField
  frame : ∀ i, (∀ key slot node, t.locate? .legacy key = some (slot, node) →
    OutsideCount node i) → (u.files.view m).get i = (published.view m).get i
  files : ∀ place, place ≠ m.location → u.files.file place = published.file place

variable {m : Mapping} {t : Trie} {published : Files} {u : Usage}

/-- What a lookup answers: the slot of the key with the accesses counted so far. -/
theorem Inv.tryLookup (h : u.Inv m t published) (key : Bytes) :
    Index.tryLookup ⟨m, .legacy⟩ u.files key =
      .ok ((t.locate? .legacy key).map fun found => {
        offset := found.1.offset
        length := found.1.length
        legacy := some {
          insertedAt := found.1.insertedAt
          accessCount := .ofNat (u.accesses key)
          counterAt := found.2 + Slot.counterField } }) := by
  refine (lookupIn_of_shown h.counted.shown key).trans ?_
  cases hloc : t.locate? .legacy key with
  | none => rfl
  | some found =>
      have hcount := h.counted.counts rfl key found.1 found.2 hloc
      simp only [report, Option.map_some, Slot.locatorIn, hcount, Option.getD_some]

/-- What counting an access through a known locator does: the answer is the new count, and the count
in the slot of its key is bumped. -/
theorem Inv.recordAccess (h : u.Inv m t published) {key : Bytes} {l : Locator}
    (known : (key, l) ∈ u.locators) :
    ∃ slot node, t.locate? .legacy key = some (slot, node) ∧
      (Index.recordAccess ⟨m, .legacy⟩ l u.files).1 = some (.ofNat (u.accesses key + 1)) ∧
      (u.files.view m).Bumped ((Index.recordAccess ⟨m, .legacy⟩ l u.files).2.view m)
        (headerSize + (node + Slot.counterField)) (.ofNat (u.accesses key)) ∧
      ∀ place, place ≠ m.location →
        (Index.recordAccess ⟨m, .legacy⟩ l u.files).2.file place = u.files.file place := by
  obtain ⟨slot, node, stored, hloc, hstored, hplace⟩ := h.locators key l known
  have hcount := h.counted.counts rfl key slot node hloc
  rw [← hplace] at hcount
  obtain ⟨hanswer, hbumped, hfiles⟩ := recordAccess_of_counter? ⟨m, .legacy⟩ hstored hcount
  refine ⟨slot, node, hloc, ?_, ?_, hfiles⟩
  · rw [hanswer, UInt32.ofNat_add]
    rfl
  · rw [← hplace]
    exact hbumped

theorem Inv.step {next : Usage} (h : u.Inv m t published) (hstep : Step ⟨m, .legacy⟩ u next) :
    next.Inv m t published := by
  cases hstep with
  | lookup key =>
      -- A lookup changes nothing, and slots never move, so older locators stay good too.
      refine ⟨h.counted, ?_, h.frame, h.files⟩
      intro key' l hknown
      rcases mem_learn_iff.mp hknown with hold | ⟨rfl, hanswer⟩
      · exact h.locators key' l hold
      · rw [h.tryLookup key'] at hanswer
        obtain ⟨found, hloc, rfl⟩ := Option.map_eq_some_iff.mp (Except.ok.inj hanswer)
        exact ⟨found.1, found.2, _, hloc, rfl, rfl⟩
  | record key l known =>
      obtain ⟨slot, node, hloc, _, hbumped, hfiles⟩ := h.recordAccess known
      refine ⟨h.counted.touch hloc ⟨_, _, rfl, hbumped⟩, h.locators, ?_, ?_⟩
      · intro i houtside
        exact (hbumped.frame i (houtside key slot node hloc)).trans (h.frame i houtside)
      · intro place hplace
        exact (hfiles place hplace).trans (h.files place hplace)

theorem Reached.inv (h : Reached ⟨m, .legacy⟩ published u)
    (hcounted : t.Counted .legacy (published.view m) fun _ => 0) : u.Inv m t published := by
  induction h with
  | start => exact ⟨hcounted, by simp, fun _ _ => rfl, fun _ _ => rfl⟩
  | step _ hstep ih => exact ih.step hstep

end Usage

/-! ## Published indexes in use -/

/-- Where a trie has the value slot of a key. -/
def placeIn (t : Trie) (key : Bytes) : Nat := ((t.locate? .legacy key).map Prod.snd).getD 0

/-- After a successful publish every key has a value slot, apart from those of the other keys. In
every run of lookups and counted accesses since then, a lookup answers what was inserted last for
its key, with the number of accesses of the key counted so far modulo 2 to the 32, and answers
nothing for other keys; counting an access answers the new count; and only the counts in the slots
change. -/
theorem tryLookup_of_usage {insertions : List (Bytes × Slot)} {m : Mapping}
    {files published : Files} {count : Nat}
    (h : (IndexBuilder.ofInsertions .legacy insertions).publish m files = .ok count published) :
    ∃ place : Bytes → Nat,
      (∀ key s, lastInserted? insertions key = some s →
        (published.view m).Holds (headerSize + place key) (s.toBytes .legacy)) ∧
      (∀ key key' s s', lastInserted? insertions key = some s →
        lastInserted? insertions key' = some s' → key ≠ key' →
        place key + Format.legacy.slotSize ≤ place key' ∨
          place key' + Format.legacy.slotSize ≤ place key) ∧
      ∀ u, Usage.Reached ⟨m, .legacy⟩ published u →
        (∀ key, Index.tryLookup ⟨m, .legacy⟩ u.files key =
          .ok ((lastInserted? insertions key).map fun s => {
            offset := s.offset
            length := s.length
            legacy := some {
              insertedAt := s.insertedAt
              accessCount := .ofNat (u.accesses key)
              counterAt := place key + Slot.counterField } })) ∧
        (∀ key l, (key, l) ∈ u.locators → (Index.recordAccess ⟨m, .legacy⟩ l u.files).1 =
          some (.ofNat (u.accesses key + 1))) ∧
        (∀ i, (∀ key s, lastInserted? insertions key = some s →
          Usage.OutsideCount (place key) i) → (u.files.view m).get i = (published.view m).get i) ∧
        ∀ l, l ≠ m.location → u.files.file l = published.file l := by
  obtain ⟨t, hshown, hfind, hheld⟩ := IndexBuilder.shown_of_publish h
  have hlocate (key : Bytes) (s : Slot) (hs : lastInserted? insertions key = some s) :
      t.locate? .legacy key = some (s, placeIn t key) := by
    rw [← hfind key, ← t.map_locate? .legacy] at hs
    obtain ⟨⟨slot, node⟩, hloc, rfl⟩ := Option.map_eq_some_iff.mp hs
    rw [placeIn, hloc]
    rfl
  have hlast (key : Bytes) (slot : Slot) (node : Nat)
      (hloc : t.locate? .legacy key = some (slot, node)) :
      lastInserted? insertions key = some slot ∧ placeIn t key = node := by
    rw [← hfind key, ← t.map_locate? .legacy, placeIn, hloc]
    exact ⟨rfl, rfl⟩
  refine ⟨placeIn t, ?_, ?_, ?_⟩
  · intro key s hs
    exact hheld key s _ (hlocate key s hs)
  · intro key key' s s' hs hs' hne
    exact Trie.locate?_apart hshown (hlocate key s hs) (hlocate key' s' hs') hne
  · intro u hu
    have hinv := hu.inv (Trie.counted_of_holds hshown hheld)
    refine ⟨?_, ?_, ?_, hinv.files⟩
    · intro key
      rw [hinv.tryLookup key]
      cases hs : lastInserted? insertions key with
      | some s => rw [hlocate key s hs]; rfl
      | none =>
          cases hloc : t.locate? .legacy key with
          | none => rfl
          | some found => cases (hlast key found.1 found.2 hloc).1.symm.trans hs
    · intro key l known
      obtain ⟨_, _, _, hanswer, _⟩ := hinv.recordAccess known
      exact hanswer
    · intro i houtside
      refine hinv.frame i ?_
      intro key slot node hloc
      obtain ⟨hs, hplace⟩ := hlast key slot node hloc
      rw [← hplace]
      exact houtside key slot hs

theorem tryLookup_of_usage_sample :
    ∃ u l counterAt,
      (IndexBuilder.ofInsertions .legacy sampleInsertions).publish sampleMapping .empty =
        .ok 94 samplePublished ∧
      Usage.Reached ⟨sampleMapping, .legacy⟩ samplePublished u ∧ ([7], l) ∈ u.locators ∧
      (Index.recordAccess ⟨sampleMapping, .legacy⟩ l u.files).1 = some 3 ∧
      Index.tryLookup ⟨sampleMapping, .legacy⟩ u.files [7] =
        .ok (some ⟨32, 6, some ⟨2, 2, counterAt⟩⟩) ∧
      Index.tryLookup ⟨sampleMapping, .legacy⟩ u.files [8] = .ok none := by
  have hpublish : (IndexBuilder.ofInsertions .legacy sampleInsertions).publish sampleMapping
      .empty = .ok 94 samplePublished := Attempt.eq_ok_of_perform (by decide +kernel)
  obtain ⟨place, _, _, hrun⟩ := tryLookup_of_usage hpublish
  have hstart : Usage.Reached ⟨sampleMapping, .legacy⟩ samplePublished _ := .start
  have hknown := Usage.mem_learn_iff.mpr (.inr ⟨rfl, (hrun _ hstart).1 [7]⟩)
  have hcounted := ((hstart.step (.lookup [7])).step (.record _ _ hknown)).step (.record _ _ hknown)
  obtain ⟨hlookup, hrecord, _, _⟩ := hrun _ hcounted
  exact ⟨_, _, _, hpublish, hcounted, hknown, hrecord _ _ hknown, hlookup [7], hlookup [8]⟩

end Index

end Columnlet

import Columnlet.Proofs.Index.Walk

/-! # Published indexes read back

A lookup in an index that has been published finds for each key its last insertion, whatever the
window held before. -/

namespace Columnlet

/-! ## Publishing -/

theorem Trie.encode_eq_ok {format : Format} {t : Trie} {bs : Bytes}
    (h : t.encode format = .ok bs) :
    ∃ root lower,
      nodeBytes format (nodeSize format t.edge t.value t.children) t.edge t.value t.children =
        .ok root ∧
      t.children.encode format (nodeSize format t.edge t.value t.children) = .ok lower ∧
      bs = root ++ lower := by
  obtain ⟨root, hroot, h⟩ := except_bind_eq_ok_iff.mp h
  obtain ⟨lower, hlower, h⟩ := except_bind_eq_ok_iff.mp h
  exact ⟨root, lower, hroot, hlower, (Except.ok.inj h).symm⟩

/-- A region that holds the bytes of a trie behind its header shows the trie, and holds its value
slots as written. -/
theorem Trie.shown_of_holds {n : Nat} {format : Format} {r : Region n} {t : Trie} {bs : Bytes}
    (h : t.encode format = .ok bs) (hfits : t.Fits) (hr : r.Holds Index.headerSize bs) :
    t.Shown format r ∧
      ∀ key slot place, t.locate? format key = some (slot, place) →
        r.Holds (Index.headerSize + place) (slot.toBytes format) := by
  obtain ⟨root, lower, hroot, hlower, rfl⟩ := encode_eq_ok h
  obtain ⟨hrootHeld, hlowerHeld⟩ := Region.holds_append.mp hr
  rw [length_nodeBytes hroot hfits.edge hfits.width] at hlowerHeld
  obtain ⟨hnode, hvalue⟩ := nodeShown_of_holds 0 hroot hfits.edge hfits.width hrootHeld
  obtain ⟨hchildren, hheld⟩ := Forest.shown_of_holds hlower hfits.children hlowerHeld
  refine ⟨⟨hnode, hchildren⟩, ?_⟩
  intro key slot place hkey
  rcases follow_eq_some hkey with ⟨_, hroot⟩ | ⟨rest, hbelow, _⟩
  · obtain ⟨s, hs, hpair⟩ := Option.map_eq_some_iff.mp hroot
    cases hpair
    exact hvalue slot hs
  · exact hheld rest slot place hbelow

theorem IndexBuilder.encode_eq_ok {b : IndexBuilder} {bs : Bytes} (h : b.encode = .ok bs) :
    ∃ t, Trie.ofEntries b.entries = .ok t ∧ t.encode b.format = .ok bs := by
  unfold encode at h
  split at h
  · rename_i bytes hbytes
    cases h
    exact except_bind_eq_ok_iff.mp hbytes
  · cases h

theorem IndexBuilder.publish_eq_ok {b : IndexBuilder} {m : Mapping} {files after : Files}
    {count : Nat} (h : b.publish m files = .ok count after) :
    ∃ bs r, b.encode = .ok bs ∧ count = bs.length ∧
      (files.view m).write? Index.headerSize bs = some r ∧ after = files.commit m r := by
  obtain ⟨r, hin, rfl⟩ := Mapping.attempt_eq_ok_iff.mp h
  obtain ⟨bs, _, hread, h⟩ := Attempt.bind_eq_ok_iff.mp hin
  obtain ⟨hencode, rfl⟩ := Attempt.ofExcept_eq_ok_iff.mp hread
  obtain ⟨_, _, hroom, h⟩ := Attempt.bind_eq_ok_iff.mp h
  obtain ⟨_, rfl⟩ := Attempt.ofExcept_eq_ok_iff.mp hroom
  obtain ⟨_, _, hwrite, h⟩ := Attempt.bind_eq_ok_iff.mp h
  cases h
  exact ⟨bs, r, hencode, rfl, Attempt.changes_eq_ok_iff.mp hwrite, rfl⟩

/-- A publish touches neither the header nor another file. -/
theorem IndexBuilder.frame_of_publish {b : IndexBuilder} {m : Mapping} {files after : Files}
    {count : Nat} (h : b.publish m files = .ok count after) :
    (∀ i, i < Index.headerSize → (after.view m).get i = (files.view m).get i) ∧
      ∀ l, l ≠ m.location → after.file l = files.file l := by
  obtain ⟨bs, r, _, _, hwrite, rfl⟩ := publish_eq_ok h
  refine ⟨?_, fun l hl => Files.file_commit_of_ne hl⟩
  intro i hi
  rw [Files.view_commit_self]
  exact Region.get_of_write?_of_outside hwrite (.inl hi)

/-- What a successful publish leaves in its window: the trie of the last insertions, with slots as
they are written first. -/
theorem IndexBuilder.shown_of_publish {format : Format} {insertions : List (Bytes × Slot)}
    {m : Mapping} {files after : Files} {count : Nat}
    (h : (ofInsertions format insertions).publish m files = .ok count after) :
    ∃ t : Trie, t.Shown format (after.view m) ∧
      (∀ key, t.find? key = lastInserted? insertions key) ∧
      ∀ key slot place, t.locate? format key = some (slot, place) →
        (after.view m).Holds (Index.headerSize + place) (slot.toBytes format) := by
  obtain ⟨hformat, hsorted, hlookup⟩ := Entries.ofInsertions_spec format insertions
  obtain ⟨bs, r, hencode, _, hwrite, rfl⟩ := publish_eq_ok h
  obtain ⟨t, htrie, hbytes⟩ := encode_eq_ok hencode
  rw [hformat] at hbytes
  obtain ⟨hfits, hfind⟩ := Trie.ofEntries_spec htrie hsorted
  rw [Files.view_commit_self]
  obtain ⟨hshown, hheld⟩ := Trie.shown_of_holds hbytes hfits (Region.holds_of_write? hwrite)
  exact ⟨t, hshown, fun key => (hfind key).trans (hlookup key), hheld⟩

theorem Trie.Shown.minSize_le {n : Nat} {format : Format} {r : Region n} {t : Trie}
    (h : t.Shown format r) : Index.minSize ≤ n := by
  have hbound := h.1.headerHeld.bound
  rw [Bytes.length_bigEndian] at hbound
  exact hbound

/-! ## Looking up -/

/-- A locator gives back what was inserted; in the legacy layout also the time, and no accesses. -/
def Locator.Recovers (format : Format) (l : Locator) (s : Slot) : Prop :=
  l.offset = s.offset ∧ l.length = s.length ∧
    match format with
    | .current => l.legacy = none
    | .legacy => ∃ counterAt, l.legacy = some ⟨s.insertedAt, 0, counterAt⟩

theorem Slot.recovers_locatorIn {n : Nat} {format : Format} {r : Region n} {s : Slot} {slot : Nat}
    (h : r.Holds (Index.headerSize + slot) (s.toBytes format)) :
    (s.locatorIn format r slot).Recovers format s := by
  refine ⟨rfl, rfl, ?_⟩
  cases format with
  | current => rfl
  | legacy =>
      refine ⟨slot + counterField, ?_⟩
      rw [locatorIn, counter?_of_holds h]
      rfl

/-- After a successful publish the window is an index in which every key is found as it was
inserted last, and no other key is found; no lookup fails. -/
theorem tryLookup_publish {format : Format} {insertions : List (Bytes × Slot)} {m : Mapping}
    {files after : Files} {count : Nat}
    (h : (IndexBuilder.ofInsertions format insertions).publish m files = .ok count after) :
    Index.ofMapping m format = .ok ⟨m, format⟩ ∧
      ∀ key, match lastInserted? insertions key with
        | some s => ∃ l, Index.tryLookup ⟨m, format⟩ after key = .ok (some l) ∧ l.Recovers format s
        | none => Index.tryLookup ⟨m, format⟩ after key = .ok none := by
  obtain ⟨t, hshown, hfind, hheld⟩ := IndexBuilder.shown_of_publish h
  have hroom : ¬ m.size < Index.minSize := Nat.not_lt.mpr hshown.minSize_le
  refine ⟨by simp [Index.ofMapping, Mapping.require, hroom, bind, Except.bind, pure, Except.pure],
    ?_⟩
  intro key
  have hlookup : Index.tryLookup ⟨m, format⟩ after key =
      Index.report format (after.view m) (t.locate? format key) :=
    Index.lookupIn_of_shown hshown key
  have hlocate := t.map_locate? format key
  rw [hfind key] at hlocate
  rw [hlookup]
  cases hkey : t.locate? format key with
  | none =>
      rw [hkey] at hlocate
      rw [← hlocate]
      rfl
  | some found =>
      obtain ⟨slot, place⟩ := found
      rw [hkey] at hlocate
      rw [← hlocate]
      exact ⟨_, rfl, Slot.recovers_locatorIn (hheld key slot place hkey)⟩

/-- Insertions of the empty key, of a key and of a longer one, with a key inserted twice. -/
def sampleInsertions : List (Bytes × Slot) :=
  [([7], ⟨5, 9, 1⟩), ([], ⟨1, 2, 3⟩), ([7, 8], ⟨64, 3, 4⟩), ([7], ⟨32, 6, 2⟩)]

/-- A window of 256 bytes. -/
def sampleMapping : Mapping := ⟨"index", ["index"], 256⟩

/-- The files once the sample has been published in the legacy layout. -/
def samplePublished : Files :=
  (((IndexBuilder.ofInsertions .legacy sampleInsertions).publish sampleMapping).perform .empty).2

theorem tryLookup_publish_sample :
    ∃ count after,
      (IndexBuilder.ofInsertions .legacy sampleInsertions).publish sampleMapping .empty =
        .ok count after ∧
      (∃ l, Index.tryLookup ⟨sampleMapping, .legacy⟩ after [7] = .ok (some l) ∧
        l.Recovers .legacy ⟨32, 6, 2⟩) ∧
      Index.tryLookup ⟨sampleMapping, .legacy⟩ after [8] = .ok none := by
  have hpublish : (IndexBuilder.ofInsertions .legacy sampleInsertions).publish sampleMapping
      .empty = .ok 94 _ := Attempt.eq_ok_of_perform (by decide +kernel)
  exact ⟨_, _, hpublish, (tryLookup_publish hpublish).2 [7], (tryLookup_publish hpublish).2 [8]⟩

end Columnlet

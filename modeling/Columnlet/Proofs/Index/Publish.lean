import Columnlet.Proofs.Coordinator
import Columnlet.Proofs.Files
import Columnlet.Proofs.Index.RoundTrip

/-! # What a publish changes

A publish that fails changes no byte of any file. One that succeeds writes the encoding behind the
header of its window, and no other byte. -/

namespace Columnlet

/-! ## Why there is no encoding -/

/-- Causes that lie in the keys themselves: a node has more children than its header can tell, or is
further off than a child slot can tell. -/
inductive BuildError.Unencodable : BuildError → Prop
  | tooManyChildren {depth count : Nat} (h : NodeHeader.maxChildren < count) :
      Unencodable (.tooManyChildren depth count)
  | childTooFar {offset : Nat} (h : 0x100000000000000 ≤ offset) :
      Unencodable (.childTooFar offset)

variable {cause : BuildError} {format : Format}

namespace Forest

theorem unencodable_of_checkWidth {depth : Nat} {children : Forest}
    (h : children.checkWidth depth = .error cause) : cause.Unencodable := by
  unfold checkWidth at h
  split at h
  · rename_i hwide
    cases h
    exact .tooManyChildren hwide
  · cases h

theorem unencodable_of_ofEntries {depth : Nat} {entries : Entries}
    (h : ofEntries depth entries = .error cause) : cause.Unencodable := by
  induction entries using Entries.divide_induction generalizing depth with
  | nil =>
      rw [ofEntries] at h
      cases h
  | skip slot rest ih =>
      rw [ofEntries] at h
      exact ih h
  | run branch first slot rest ihc ihs =>
      rw [ofEntries] at h
      rcases except_bind_eq_error_iff.mp h with hchildren | ⟨children, -, h⟩
      · exact ihc hchildren
      rcases except_bind_eq_error_iff.mp h with hwidth | ⟨_, -, h⟩
      · exact unencodable_of_checkWidth hwidth
      rcases except_bind_eq_error_iff.mp h with hsiblings | ⟨siblings, -, h⟩
      · exact ihs hsiblings
      · cases h

theorem unencodable_of_slots {forest : Forest} {offset : Nat}
    (h : forest.slots format offset = .error cause) : cause.Unencodable := by
  induction forest generalizing offset with
  | nil => cases h
  | cons branch edge value children siblings _ ih =>
      unfold slots ChildSlot.of? at h
      split at h
      · rename_i hfar
        split at hfar
        · cases hfar
        · rename_i hfar'
          cases h
          exact .childTooFar (by omega)
      · rcases except_bind_eq_error_iff.mp h with hsiblings | ⟨later, -, h⟩
        · exact ih hsiblings
        · cases h

end Forest

theorem Trie.unencodable_of_nodeBytes {offset : Nat} {edge : Bytes} {value : Option Slot}
    {children : Forest} (h : nodeBytes format offset edge value children = .error cause) :
    cause.Unencodable := by
  rcases except_bind_eq_error_iff.mp h with hslots | ⟨slots, -, h⟩
  · exact Forest.unencodable_of_slots hslots
  · cases h

theorem Forest.unencodable_of_encode {forest : Forest} {offset : Nat}
    (h : forest.encode format offset = .error cause) : cause.Unencodable := by
  induction forest generalizing offset with
  | nil => cases h
  | cons branch edge value children siblings ihc ihs =>
      rcases except_bind_eq_error_iff.mp h with hnode | ⟨node, -, h⟩
      · exact Trie.unencodable_of_nodeBytes hnode
      rcases except_bind_eq_error_iff.mp h with hlower | ⟨lower, -, h⟩
      · exact ihc hlower
      rcases except_bind_eq_error_iff.mp h with hlater | ⟨later, -, h⟩
      · exact ihs hlater
      · cases h

theorem Trie.unencodable_of_ofEntries {entries : Entries}
    (h : ofEntries entries = .error cause) : cause.Unencodable := by
  rcases except_bind_eq_error_iff.mp h with hchildren | ⟨children, -, h⟩
  · exact Forest.unencodable_of_ofEntries hchildren
  rcases except_bind_eq_error_iff.mp h with hwidth | ⟨_, -, h⟩
  · exact Forest.unencodable_of_checkWidth hwidth
  · cases h

theorem Trie.unencodable_of_encode {t : Trie} (h : t.encode format = .error cause) :
    cause.Unencodable := by
  rcases except_bind_eq_error_iff.mp h with hroot | ⟨root, -, h⟩
  · exact unencodable_of_nodeBytes hroot
  rcases except_bind_eq_error_iff.mp h with hlower | ⟨lower, -, h⟩
  · exact Forest.unencodable_of_encode hlower
  · cases h

namespace IndexBuilder

/-- What a builder cannot encode, it cannot for the sake of its keys. -/
theorem unencodable_of_encode {b : IndexBuilder} {e : Error} (h : b.encode = .error e) :
    ∃ cause, e = .indexBuild cause ∧ cause.Unencodable := by
  unfold encode at h
  split at h
  · cases h
  · rename_i cause hcause
    cases h
    refine ⟨cause, rfl, ?_⟩
    rcases except_bind_eq_error_iff.mp hcause with htrie | ⟨t, -, hbytes⟩
    · exact Trie.unencodable_of_ofEntries htrie
    · exact Trie.unencodable_of_encode hbytes

/-! ## Into a region -/

variable {b : IndexBuilder} {m : Mapping} {bytes : Bytes}

theorem publishIn_of_error {e : Error} (r : Region m.size) (h : b.encode = .error e) :
    b.publishIn m r = .error e r := by
  have hencode : (Attempt.ofExcept b.encode : Attempt (Region m.size) Bytes) r = .error e r :=
    Attempt.ofExcept_eq_error_iff.mpr ⟨h, rfl⟩
  rw [publishIn, Attempt.bind_of_error hencode]

theorem publishIn_of_lt (r : Region m.size) (h : b.encode = .ok bytes)
    (hroom : m.size < Index.headerSize + bytes.length) :
    b.publishIn m r =
      .error (.regionTooSmall m.path (Index.headerSize + bytes.length) m.size) r := by
  have hencode : (Attempt.ofExcept b.encode : Attempt (Region m.size) Bytes) r = .ok bytes r :=
    Attempt.ofExcept_eq_ok_iff.mpr ⟨h, rfl⟩
  rw [publishIn, Attempt.bind_of_ok hencode, Mapping.require_eq_error_iff.mpr ⟨hroom, rfl⟩]
  exact Attempt.bind_of_error rfl

/-- What passes the check of its size is written: the write checks for nothing else. -/
theorem publishIn_of_le (r : Region m.size) (h : b.encode = .ok bytes)
    (hroom : Index.headerSize + bytes.length ≤ m.size) :
    ∃ after, b.publishIn m r = .ok bytes.length after ∧
      r.write? Index.headerSize bytes = some after := by
  obtain ⟨after, hwrite⟩ := r.write?_of_le Index.headerSize bytes hroom
  have hencode : (Attempt.ofExcept b.encode : Attempt (Region m.size) Bytes) r = .ok bytes r :=
    Attempt.ofExcept_eq_ok_iff.mpr ⟨h, rfl⟩
  have hchanges : Attempt.changes (fun s : Region m.size => s.write? Index.headerSize bytes)
      (.indexBuild .noRoom) r = .ok () after := Attempt.changes_eq_ok_iff.mpr hwrite
  refine ⟨after, ?_, hwrite⟩
  rw [publishIn, Attempt.bind_of_ok hencode, Mapping.require_eq_ok_iff.mpr hroom]
  exact (Attempt.bind_of_ok rfl).trans (Attempt.bind_of_ok hchanges)

end IndexBuilder

/-! ## Through a window -/

/-- The files after an encoding has been published through a window. -/
structure Published (m : Mapping) (bytes : Bytes) (files after : Files) : Prop where
  held : (after.view m).Holds Index.headerSize bytes
  around : ∀ i, i < Index.headerSize ∨ Index.headerSize + bytes.length ≤ i →
    (after.view m).get i = (files.view m).get i
  bytesOnly : Files.BytesOnly m files after

/-- No file and no directory has changed. -/
structure Files.Untouched (files after : Files) : Prop where
  file : ∀ l, after.file l = files.file l
  directories : after.directories = files.directories

namespace Files

theorem untouched_commit_view (files : Files) (m : Mapping) :
    files.Untouched (files.commit m (files.view m)) := ⟨file_commit_view files m, rfl⟩

theorem Untouched.tryLookup {files after : Files} (h : files.Untouched after) (index : Index)
    (key : Bytes) : index.tryLookup after key = index.tryLookup files key := by
  rw [Index.tryLookup, view_eq_of_file_eq (h.file _), ← Index.tryLookup]

end Files

/-- A publish leaves the flag and the count of readers, whichever window they are seen through. -/
theorem Published.state {m : Mapping} {bytes : Bytes} {files after : Files}
    (h : Published m bytes files after) (c : Coordinator) : c.state after = c.state files := by
  by_cases hl : c.mapping.location = m.location
  · apply Header.ofRegion_congr
    intro i hi
    have haround := h.around i (.inl (Nat.lt_of_lt_of_le hi (by decide)))
    rw [Files.view, Files.view, ← hl] at haround
    exact haround
  · rw [Coordinator.state, Files.view_eq_of_file_eq (h.bytesOnly.others _ hl), ← Coordinator.state]

theorem published_of_write? {m : Mapping} {bytes : Bytes} {files : Files} {r : Region m.size}
    (h : (files.view m).write? Index.headerSize bytes = some r) :
    Published m bytes files (files.commit m r) := by
  refine ⟨?_, ?_, Files.bytesOnly_commit files m r⟩
  · rw [Files.view_commit_self]
    exact Region.holds_of_write? h
  · intro i hi
    rw [Files.view_commit_self]
    exact Region.get_of_write?_of_outside h hi

/-- A publish succeeds exactly if its keys have an encoding for which there is room behind the
header. It then changes the bytes for that encoding and no others, so that the flag and the count of
readers stay; else it fails for want of an encoding or of room, and every lookup answers what it
did. -/
theorem IndexBuilder.publish_outcome (b : IndexBuilder) (m : Mapping) (files : Files) :
    match b.encode with
    | .error e =>
        (∃ cause, e = .indexBuild cause ∧ cause.Unencodable) ∧
          ∃ after, b.publish m files = .error e after ∧ files.Untouched after ∧
            ∀ (index : Index) (key : Bytes), index.tryLookup after key = index.tryLookup files key
    | .ok bytes =>
        if Index.headerSize + bytes.length ≤ m.size then
          ∃ after, b.publish m files = .ok bytes.length after ∧ Published m bytes files after ∧
            ∀ c : Coordinator, c.state after = c.state files
        else
          ∃ after, b.publish m files =
              .error (.regionTooSmall m.path (Index.headerSize + bytes.length) m.size) after ∧
            files.Untouched after ∧
            ∀ (index : Index) (key : Bytes),
              index.tryLookup after key = index.tryLookup files key := by
  have huntouched := files.untouched_commit_view m
  split
  case h_1 e hencode =>
    exact ⟨unencodable_of_encode hencode, _,
      Mapping.attempt_of_error (publishIn_of_error _ hencode), huntouched, huntouched.tryLookup⟩
  case h_2 bytes hencode =>
    split
    case isTrue hroom =>
      obtain ⟨r, hpublish, hwrite⟩ := publishIn_of_le (files.view m) hencode hroom
      have hpublished := published_of_write? hwrite
      exact ⟨_, Mapping.attempt_of_ok hpublish, hpublished, hpublished.state⟩
    case isFalse hroom =>
      exact ⟨_, Mapping.attempt_of_error (publishIn_of_lt _ hencode (Nat.lt_of_not_le hroom)),
        huntouched, huntouched.tryLookup⟩

end Columnlet

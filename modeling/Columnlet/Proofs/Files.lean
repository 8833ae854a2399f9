import Columnlet.Proofs.Attempt

/-! # Opening windows

Opening a window may create a file and may lengthen one, and leaves the bytes of all files. -/

namespace Columnlet

namespace Files

/-- The memory of a file, as a window of a size shows it. -/
def region (files : Files) (l : Location) (n : Nat) : Region n := ⟨(files.file l).memory⟩

/-- No byte of a file has been changed, although files may be longer. -/
def SameBytes (files after : Files) : Prop :=
  ∀ l, (after.file l).memory = (files.file l).memory

theorem SameBytes.region_eq {files after : Files} (h : files.SameBytes after) (l : Location)
    (n : Nat) : after.region l n = files.region l n := by
  rw [region, region, h l]

theorem SameBytes.view_eq {files after : Files} (h : files.SameBytes after) (m : Mapping) :
    after.view m = files.view m := h.region_eq m.location m.size

theorem region_commit (files : Files) (path : String) (l : Location) {n : Nat} (r : Region n) :
    (files.commit ⟨path, l, n⟩ r).region l n = r :=
  view_commit_self files ⟨path, l, n⟩ r

theorem sameBytes_put {files : Files} {l : Location} {f : File}
    (h : f.memory = (files.file l).memory) : files.SameBytes (files.put l f) := by
  intro other
  rw [file, get?_put]
  by_cases hl : other = l
  · rw [if_pos hl, hl, ← h]
    rfl
  · rw [if_neg hl]
    rfl

theorem sameBytes_commit_view (files : Files) (m : Mapping) :
    files.SameBytes (files.commit m (files.view m)) := by
  intro l
  rw [file_commit_view]

theorem openMapping_eq_ok_iff {path : String} {size : Nat} {files after : Files} {m : Mapping} :
    openMapping path size files = .ok m after ↔
      (size ≠ 0 ∧ size < lengthBound ∧ size ≤ widestWindow) ∧
      ∃ l, files.locate path = .ok l ∧ m = ⟨path, l, size⟩ ∧
        after = files.put l ((files.file l).lengthen size) := by
  have hget : (get : Attempt Files Files) files = .ok files files := rfl
  by_cases hzero : size = 0
  · rw [openMapping, if_pos hzero]
    constructor
    · intro h
      cases h
    · rintro ⟨⟨hne, -⟩, -⟩
      exact absurd hzero hne
  · simp only [openMapping]
    rw [if_neg hzero, Attempt.bind_of_ok hget]
    cases hlocate : files.locate path with
    | error cause =>
        constructor
        · intro h
          cases h
        · rintro ⟨-, l, hl, -⟩
          cases hl
    | ok l =>
        by_cases hlong : lengthBound ≤ size
        · simp only [if_pos hlong]
          constructor
          · intro h
            cases h
          · rintro ⟨⟨-, hshort, -⟩, -⟩
            omega
        · by_cases hwide : widestWindow < size
          · simp only [if_neg hlong, if_pos hwide]
            constructor
            · intro h
              cases h
            · rintro ⟨⟨-, -, hnarrow⟩, -⟩
              omega
          · simp only [if_neg hlong, if_neg hwide]
            constructor
            · intro h
              cases h
              exact ⟨⟨hzero, by omega, by omega⟩, l, rfl, rfl, rfl⟩
            · rintro ⟨-, l', hl, rfl, rfl⟩
              cases hl
              rfl

/-- If a window of at least one byte cannot be opened, it is for the sake of its file. -/
theorem openMapping_eq_error {path : String} {size : Nat} {files after : Files} {e : Error}
    (hsize : size ≠ 0) (h : openMapping path size files = .error e after) :
    ∃ cause, e = .file cause := by
  have hget : (get : Attempt Files Files) files = .ok files files := rfl
  simp only [openMapping] at h
  rw [if_neg hsize, Attempt.bind_of_ok hget] at h
  cases hlocate : files.locate path with
  | error cause =>
      rw [hlocate] at h
      cases h
      exact ⟨cause, rfl⟩
  | ok l =>
      simp only [hlocate] at h
      split at h
      · cases h
        exact ⟨_, rfl⟩
      · split at h
        · cases h
          exact ⟨_, rfl⟩
        · cases h

theorem locate_of_openMapping {path : String} {size : Nat} {files after : Files} {m : Mapping}
    (h : openMapping path size files = .ok m after) : files.locate path = .ok m.location := by
  obtain ⟨-, l, hl, rfl, -⟩ := openMapping_eq_ok_iff.mp h
  exact hl

/-! ## What stays -/

variable {files after last : Files} {l : Location}

/-- The file at a location and the directories are as they were. -/
structure Kept (l : Location) (files after : Files) : Prop where
  file : after.file l = files.file l
  directories : after.directories = files.directories

theorem Kept.refl (l : Location) (files : Files) : files.Kept l files := ⟨rfl, rfl⟩

theorem Kept.trans (h : files.Kept l after) (h' : after.Kept l last) : files.Kept l last :=
  ⟨h'.file.trans h.file, h'.directories.trans h.directories⟩

theorem Kept.region_eq (h : files.Kept l after) (n : Nat) :
    after.region l n = files.region l n := by
  rw [region, region, h.file]

theorem kept_put {place : Location} (h : l ≠ place) (files : Files) (f : File) :
    files.Kept l (files.put place f) := by
  refine ⟨?_, rfl⟩
  rw [file, file, get?_put, if_neg h]

theorem kept_commit {m : Mapping} (h : l ≠ m.location) (files : Files) (r : Region m.size) :
    files.Kept l (files.commit m r) := kept_put h files _

theorem directories_attempt {α : Type} (m : Mapping) (a : Attempt (Region m.size) α) :
    (m.attempt a).Moves fun files after => after.directories = files.directories := by
  intro files
  rw [Mapping.perform_attempt]
  rfl

theorem kept_attempt {α : Type} {m : Mapping} (h : l ≠ m.location)
    (a : Attempt (Region m.size) α) : (m.attempt a).Moves (Kept l) := by
  intro files
  rw [Mapping.perform_attempt]
  exact kept_commit h files _

/-- No byte of a file has been changed, and no directory. -/
structure Quiet (files after : Files) : Prop where
  bytes : files.SameBytes after
  directories : after.directories = files.directories

theorem Quiet.refl (files : Files) : files.Quiet files := ⟨fun _ => rfl, rfl⟩

theorem Quiet.trans (files after last : Files) (h : files.Quiet after) (h' : after.Quiet last) :
    files.Quiet last :=
  ⟨fun l => (h'.bytes l).trans (h.bytes l), h'.directories.trans h.directories⟩

theorem quiet_put {f : File} (h : f.memory = (files.file l).memory) :
    files.Quiet (files.put l f) := ⟨sameBytes_put h, rfl⟩

theorem quiet_commit_view (files : Files) (m : Mapping) :
    files.Quiet (files.commit m (files.view m)) := ⟨sameBytes_commit_view files m, rfl⟩

/-- Opening a window leaves the files or puts one back that is no shorter and has the same bytes,
whether it succeeds or not. -/
theorem moves_openMapping_of {R : Files → Files → Prop} (hrefl : ∀ files, R files files)
    (hput : ∀ files l (f : File), f.memory = (files.file l).memory →
      (files.file l).length ≤ f.length → R files (files.put l f)) (path : String) (size : Nat) :
    (openMapping path size).Moves R := by
  intro files
  have hget : (get : Attempt Files Files) files = .ok files files := rfl
  rw [Attempt.perform, EStateM.run]
  by_cases hzero : size = 0
  · rw [openMapping, if_pos hzero]
    exact hrefl files
  · simp only [openMapping]
    rw [if_neg hzero, Attempt.bind_of_ok hget]
    cases files.locate path with
    | error cause => exact hrefl files
    | ok l =>
        have hlonger := hput files l ((files.file l).lengthen size) rfl (Nat.le_max_left ..)
        by_cases hlong : lengthBound ≤ size
        · simp only [if_pos hlong]
          exact hput files l (files.file l) rfl (Nat.le_refl _)
        · by_cases hwide : widestWindow < size
          · simp only [if_neg hlong, if_pos hwide]
            exact hlonger
          · simp only [if_neg hlong, if_neg hwide]
            exact hlonger

/-- Opening a window changes no byte, whether it succeeds or not. -/
theorem moves_openMapping (path : String) (size : Nat) : (openMapping path size).Moves Quiet :=
  moves_openMapping_of .refl (fun _ _ _ hmemory _ => quiet_put hmemory) path size

/-- Nothing but bytes of the file behind a window has changed. -/
structure BytesOnly (m : Mapping) (files after : Files) : Prop where
  length : (after.file m.location).length = (files.file m.location).length
  others : ∀ l, l ≠ m.location → after.file l = files.file l
  directories : after.directories = files.directories

theorem bytesOnly_commit (files : Files) (m : Mapping) (r : Region m.size) :
    BytesOnly m files (files.commit m r) := by
  refine ⟨?_, fun _ hl => file_commit_of_ne hl, rfl⟩
  rw [file, commit, get?_put, if_pos rfl]
  rfl

/-! ## Finding files again -/

theorem hasDirectory_congr (h : after.directories = files.directories) (l : Location) :
    after.hasDirectory l = files.hasDirectory l := by
  rw [hasDirectory, hasDirectory, h]

theorem walk_of_directories (h : after.directories = files.directories) {dir : Location}
    {words : List String} (hwalk : files.walk dir words = .ok l) :
    after.walk dir words = .ok l := by
  induction words generalizing dir with
  | nil => exact hwalk
  | cons word words ih =>
      simp only [walk, hasDirectory_congr h] at hwalk ⊢
      split at hwalk
      · rename_i hdots
        rw [if_pos hdots]
        exact ih hwalk
      · rename_i hdots
        rw [if_neg hdots]
        split at hwalk
        · cases hwalk
        · rename_i hshort
          rw [if_neg hshort]
          split at hwalk
          · rename_i hdirectory
            rw [if_pos hdirectory]
            exact ih hwalk
          · split at hwalk <;> cases hwalk

/-- Where a file is depends on its name and on the directories, not on other files. -/
theorem locate_of_directories (h : after.directories = files.directories) {name : String}
    (hlocate : files.locate name = .ok l) : after.locate name = .ok l := by
  have happroach {found : Location × String} (hfound : files.approach name = .ok found) :
      after.approach name = .ok found := by
    unfold approach at hfound ⊢
    split at hfound
    · cases hfound
    · rename_i hnul
      rw [if_neg hnul]
      split at hfound
      · cases hfound
      · rename_i hlong
        rw [if_neg hlong]
        split at hfound
        · cases hfound
        · rename_i hempty
          rw [if_neg hempty]
          simp only at hfound ⊢
          cases hwalk : files.walk (Location.start name) (Location.words name).dropLast with
          | error cause =>
              rw [hwalk] at hfound
              cases hfound
          | ok dir =>
              rw [hwalk] at hfound
              rw [walk_of_directories h hwalk]
              exact hfound
  unfold locate at hlocate ⊢
  obtain ⟨found, hfound, hrest⟩ := except_bind_eq_ok_iff.mp hlocate
  refine except_bind_eq_ok_iff.mpr ⟨found, happroach hfound, ?_⟩
  simp only [hasDirectory_congr h]
  exact hrest

end Files

end Columnlet

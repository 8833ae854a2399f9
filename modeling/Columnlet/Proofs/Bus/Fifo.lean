import Columnlet.Proofs.Bus.Record
import Columnlet.Proofs.Files

/-! # Buses as queues

Writers and readers share the file of a bus, and are opened at any time. What is sent through any of
the writers joins one queue, which only a writer that does not keep the records empties, and every
reader goes through the queue in order. -/

namespace Columnlet

open Attempt (Moves)

/-! ## Opening -/

namespace Bus

theorem openFile_eq_ok_iff {path : String} {fileSize recordSize : UInt64} {files after : Files}
    {b : Bus} :
    openFile path fileSize recordSize files = .ok b after ↔
      (recordSize ≠ 0 ∧ headerSize + strideOf recordSize ≤ fileSize.toNat) ∧
      ∃ m, Files.openMapping path fileSize.toNat files = .ok m after ∧ b = ⟨m, recordSize⟩ := by
  by_cases hzero : recordSize = 0
  · rw [openFile, if_pos hzero]
    constructor
    · intro h
      cases h
    · rintro ⟨⟨hne, -⟩, -⟩
      exact absurd hzero hne
  · simp only [openFile]
    rw [if_neg hzero, Attempt.bind_eq_ok_iff]
    constructor
    · rintro ⟨m, opened, hopen, hrest⟩
      obtain ⟨-, l, -, rfl, -⟩ := Files.openMapping_eq_ok_iff.mp hopen
      obtain ⟨_, _, hchecked, hlast⟩ := Attempt.bind_eq_ok_iff.mp hrest
      obtain ⟨hcheck, rfl⟩ := Attempt.ofExcept_eq_ok_iff.mp hchecked
      cases hlast
      exact ⟨⟨hzero, (checkRoom_eq_ok_iff fileSize.toNat_lt_size).mp hcheck⟩, _, hopen, rfl⟩
    · rintro ⟨⟨-, hroom⟩, m, hopen, rfl⟩
      obtain ⟨-, l, -, rfl, -⟩ := Files.openMapping_eq_ok_iff.mp hopen
      refine ⟨_, _, hopen, Attempt.bind_eq_ok_iff.mpr ⟨(), _, ?_, rfl⟩⟩
      exact Attempt.ofExcept_eq_ok_iff.mpr
        ⟨(checkRoom_eq_ok_iff fileSize.toNat_lt_size).mpr hroom, rfl⟩

/-- A bus that has been opened is a window of the size asked for, which has room for its records. -/
theorem openFile_eq_ok {path : String} {fileSize recordSize : UInt64} {files after : Files}
    {b : Bus} (h : openFile path fileSize recordSize files = .ok b after) :
    ∃ l, b = ⟨⟨path, l, fileSize.toNat⟩, recordSize⟩ ∧ Grid fileSize.toNat recordSize := by
  obtain ⟨⟨-, hroom⟩, m, hmapping, rfl⟩ := openFile_eq_ok_iff.mp h
  obtain ⟨-, l, -, rfl, -⟩ := Files.openMapping_eq_ok_iff.mp hmapping
  exact ⟨l, rfl, hroom, fileSize.toNat_lt_size⟩

/-- Opening a bus leaves of the files what opening its window leaves of them. -/
theorem moves_openFile_of {R : Files → Files → Prop} (hrefl : ∀ files, R files files)
    (htrans : ∀ files after last, R files after → R after last → R files last) {path : String}
    {fileSize : UInt64} (hmapping : (Files.openMapping path fileSize.toNat).Moves R)
    (recordSize : UInt64) : (openFile path fileSize recordSize).Moves R := by
  by_cases hzero : recordSize = 0
  · rw [openFile, if_pos hzero]
    exact fun files => hrefl files
  · simp only [openFile]
    rw [if_neg hzero]
    refine hmapping.bind htrans fun m => ?_
    refine (Moves.ofExcept hrefl _).bind htrans fun _ => ?_
    exact Moves.pure hrefl _

theorem moves_openFile (path : String) (fileSize recordSize : UInt64) :
    (openFile path fileSize recordSize).Moves Files.Quiet :=
  moves_openFile_of Files.Quiet.refl Files.Quiet.trans (Files.moves_openMapping path _) recordSize

/-- Opening a bus changes no byte, whether it succeeds or not. -/
theorem openFile_cases (path : String) (fileSize recordSize : UInt64) (files : Files) :
    (∃ e after, openFile path fileSize recordSize files = .error e after ∧ files.Quiet after) ∨
    ∃ l after, openFile path fileSize recordSize files =
      .ok ⟨⟨path, l, fileSize.toNat⟩, recordSize⟩ after ∧ files.Quiet after ∧
      Grid fileSize.toNat recordSize := by
  have hmoves := moves_openFile path fileSize recordSize
  cases hopen : openFile path fileSize recordSize files with
  | error e after => exact .inl ⟨e, after, rfl, hmoves.of_error hopen⟩
  | ok b after =>
      obtain ⟨l, rfl, hg⟩ := openFile_eq_ok hopen
      exact .inr ⟨l, after, rfl, hmoves.of_ok hopen, hg⟩

/-- Preparing a bus fails only if its records are to be kept and its limit does not stand between
them, and changes nothing then. -/
theorem prepareIn_eq_error {b : Bus} {append : Bool} {r after : Region b.mapping.size} {e : Error}
    (hg : Grid b.mapping.size b.recordSize) (h : b.prepareIn append r = .error e after) :
    after = r ∧ append = true ∧ limitIn r ≠ 0 ∧
      ((limitIn r).toNat < headerSize ∨ b.mapping.size < (limitIn r).toNat ∨
        ((limitIn r).toNat - headerSize) % b.stride ≠ 0) ∧
      e = .config (.limitOffGrid b.mapping.path (limitIn r) b.recordSize) := by
  have hget : (get : Attempt (Region b.mapping.size) (Region b.mapping.size)) r = .ok r r := rfl
  cases append with
  | false =>
      obtain ⟨emptied, hempty, -⟩ := prepareIn_of_truncate b r hg
      cases hempty.symm.trans h
  | true =>
      simp only [prepareIn] at h
      rw [if_pos trivial, Attempt.bind_of_ok hget] at h
      split at h
      · cases h
      · rename_i hset
        split at h
        · rename_i hoff
          cases h
          exact ⟨rfl, rfl, hset, hoff, rfl⟩
        · cases h

/-- Opening a bus for writing either changes no byte and fails, or prepares the region. -/
theorem openWriter_cases (path : String) (fileSize recordSize : UInt64) (append : Bool)
    (files : Files) :
    (∃ e after, openWriter path fileSize recordSize append files = .error e after ∧
      files.Quiet after) ∨
    ∃ l opened r, openWriter path fileSize recordSize append files =
        .ok ⟨⟨path, l, fileSize.toNat⟩, recordSize⟩
          (opened.commit ⟨path, l, fileSize.toNat⟩ r) ∧
      files.Quiet opened ∧
      prepareIn ⟨⟨path, l, fileSize.toNat⟩, recordSize⟩ append
        (opened.view ⟨path, l, fileSize.toNat⟩) = .ok () r := by
  simp only [openWriter]
  rcases openFile_cases path fileSize recordSize files with
    ⟨e, after, hopen, hquiet⟩ | ⟨l, opened, hopen, hquiet, hg⟩
  · exact .inl ⟨e, after, Attempt.bind_of_error hopen, hquiet⟩
  · rw [Attempt.bind_of_ok hopen]
    cases hprepare : prepareIn ⟨⟨path, l, fileSize.toNat⟩, recordSize⟩ append
        (opened.view ⟨path, l, fileSize.toNat⟩) with
    | error e r =>
        refine .inl ⟨e, _, Attempt.bind_of_error (Mapping.attempt_of_error hprepare), ?_⟩
        rw [(prepareIn_eq_error hg hprepare).1]
        exact hquiet.trans _ _ _ (opened.quiet_commit_view _)
    | ok u r =>
        refine .inr ⟨l, opened, r, ?_, hquiet, hprepare⟩
        rw [Attempt.bind_of_ok (Mapping.attempt_of_ok hprepare)]
        rfl

theorem openWriter_eq_ok {path : String} {fileSize recordSize : UInt64} {append : Bool}
    {files after : Files} {b : Bus}
    (h : openWriter path fileSize recordSize append files = .ok b after) :
    ∃ l opened r, b = ⟨⟨path, l, fileSize.toNat⟩, recordSize⟩ ∧
      after = opened.commit ⟨path, l, fileSize.toNat⟩ r ∧ files.Quiet opened ∧
      prepareIn ⟨⟨path, l, fileSize.toNat⟩, recordSize⟩ append
        (opened.view ⟨path, l, fileSize.toNat⟩) = .ok () r := by
  rcases openWriter_cases path fileSize recordSize append files with
    ⟨e, failed, hfail, -⟩ | ⟨l, opened, r, hok, hquiet, hprepare⟩
  · cases hfail.symm.trans h
  · cases hok.symm.trans h
    exact ⟨l, opened, r, rfl, rfl, hquiet, hprepare⟩

/-- A failed opening for writing changes no byte and no directory. -/
theorem quiet_of_openWriter {path : String} {fileSize recordSize : UInt64} {append : Bool}
    {files after : Files} {e : Error}
    (h : openWriter path fileSize recordSize append files = .error e after) :
    files.Quiet after := by
  rcases openWriter_cases path fileSize recordSize append files with
    ⟨e', failed, hfail, hquiet⟩ | ⟨l, opened, r, hok, _, _⟩
  · cases hfail.symm.trans h
    exact hquiet
  · cases hok.symm.trans h

theorem sameBytes_of_openWriter {path : String} {fileSize recordSize : UInt64} {append : Bool}
    {files after : Files} {e : Error}
    (h : openWriter path fileSize recordSize append files = .error e after) :
    files.SameBytes after := (quiet_of_openWriter h).bytes

theorem moves_openReader (path : String) (fileSize recordSize : UInt64) (timeout : Nat) :
    (BusReader.openFile path fileSize recordSize timeout).Moves Files.Quiet :=
  (moves_openFile path fileSize recordSize).bind Files.Quiet.trans fun _ =>
    Moves.pure Files.Quiet.refl _

/-- A reader stands at the first record of its window; opening changes no byte. -/
theorem openReader_eq_ok {path : String} {fileSize recordSize : UInt64} {timeout : Nat}
    {files after : Files} {reader : BusReader}
    (h : BusReader.openFile path fileSize recordSize timeout files = .ok reader after) :
    (∃ l, reader = ⟨⟨⟨path, l, fileSize.toNat⟩, recordSize⟩, timeout, .start⟩) ∧
      files.SameBytes after := by
  obtain ⟨b, _, hopen, hreader⟩ := Attempt.bind_eq_ok_iff.mp h
  cases hreader
  obtain ⟨l, rfl, -⟩ := openFile_eq_ok hopen
  exact ⟨⟨l, rfl⟩, ((moves_openReader _ _ _ _).of_ok h).bytes⟩

theorem sameBytes_of_openReader {path : String} {fileSize recordSize : UInt64} {timeout : Nat}
    {files after : Files} {e : Error}
    (h : BusReader.openFile path fileSize recordSize timeout files = .error e after) :
    files.SameBytes after := ((moves_openReader _ _ _ _).of_error h).bytes

theorem openFile_of_openWriter {path : String} {fileSize recordSize : UInt64} {append : Bool}
    {before files : Files} {b : Bus}
    (h : openWriter path fileSize recordSize append before = .ok b files) :
    ∃ opened, openFile path fileSize recordSize before = .ok b opened ∧
      files.directories = before.directories := by
  obtain ⟨b', opened, hopen, hrest⟩ := Attempt.bind_eq_ok_iff.mp h
  obtain ⟨_, prepared, hprepare, hlast⟩ := Attempt.bind_eq_ok_iff.mp hrest
  cases hlast
  have hkept := (Files.directories_attempt b.mapping (b.prepareIn append)).of_ok hprepare
  obtain ⟨-, m, hmapping, rfl⟩ := openFile_eq_ok_iff.mp hopen
  obtain ⟨-, l, -, -, rfl⟩ := Files.openMapping_eq_ok_iff.mp hmapping
  exact ⟨_, hopen, hkept⟩

theorem grid_of_openWriter {path : String} {fileSize recordSize : UInt64} {append : Bool}
    {before files : Files} {b : Bus}
    (h : openWriter path fileSize recordSize append before = .ok b files) :
    Grid fileSize.toNat recordSize := by
  obtain ⟨opened, hopen, -⟩ := openFile_of_openWriter h
  obtain ⟨_, -, hg⟩ := openFile_eq_ok hopen
  exact hg

/-- While the directories stay, a bus that has been opened once can be opened again. -/
theorem openFile_again {path : String} {fileSize recordSize : UInt64} {before opened files : Files}
    {b : Bus} (h : openFile path fileSize recordSize before = .ok b opened)
    (hdirectories : files.directories = before.directories) :
    ∃ after, openFile path fileSize recordSize files = .ok b after ∧ files.SameBytes after := by
  obtain ⟨hsizes, m, hmapping, rfl⟩ := openFile_eq_ok_iff.mp h
  obtain ⟨hrange, l, hlocate, rfl, -⟩ := Files.openMapping_eq_ok_iff.mp hmapping
  have hagain := Files.openMapping_eq_ok_iff.mpr
    ⟨hrange, l, Files.locate_of_directories hdirectories hlocate, rfl, rfl⟩
  exact ⟨_, openFile_eq_ok_iff.mpr ⟨hsizes, _, hagain, rfl⟩, Files.sameBytes_put rfl⟩

/-! ## Through a window -/

theorem directories_send (b : Bus) (payload : Bytes) :
    (b.send payload).Moves fun files after => after.directories = files.directories :=
  Files.directories_attempt b.mapping _

/-- What a bus that holds a count of records does with a payload. -/
def verdict (b : Bus) (held : Nat) (payload : Bytes) : Except Error Unit :=
  if b.recordSize.toNat < payload.length then
    .error (.recordTooLarge payload.length b.recordSize.toNat)
  else if held < b.capacity then .ok ()
  else .error .channelFull

variable {path : String} {l : Location} {fileSize recordSize : UInt64} {files : Files}
  {accepted : List Bytes}

theorem lt_capacity_iff (hg : Grid fileSize.toNat recordSize) {held : Nat} :
    held < capacity ⟨⟨path, l, fileSize.toNat⟩, recordSize⟩ ↔
      slotAt recordSize (held + 1) ≤ fileSize.toNat := by
  have hroom := hg.room
  rw [capacity, stride, slotAt, ← Nat.succ_le_iff, Nat.le_div_iff_mul_le (strideOf_pos recordSize)]
  simp only [Nat.succ_eq_add_one]
  omega

/-- The records that a bus counts are those in front of its limit. -/
theorem size_of_limit {count : Nat}
    (hlimit : (limitIn (files.region l fileSize.toNat)).toNat = slotAt recordSize count) :
    size ⟨⟨path, l, fileSize.toNat⟩, recordSize⟩ files = .ok count := by
  have hbase : headerSize ≤ slotAt recordSize count := Nat.le_add_right ..
  have hview : files.view ⟨path, l, fileSize.toNat⟩ = files.region l fileSize.toNat := rfl
  simp only [size, hview]
  rw [if_neg (by rw [hlimit]; exact Nat.not_lt.mpr hbase), limitIn_sub hlimit, stride,
    Nat.mul_div_cancel _ (strideOf_pos recordSize)]

/-- Opening a bus for writing without its records empties it. -/
theorem queued_of_openWriter_empty {b : Bus} {after : Files}
    (hg : Grid fileSize.toNat recordSize)
    (hopen : openWriter path fileSize recordSize false files = .ok b after)
    (hplace : b.mapping.location = l) :
    b = ⟨⟨path, l, fileSize.toNat⟩, recordSize⟩ ∧
      Queued (after.region l fileSize.toNat) recordSize [] := by
  obtain ⟨place, opened, r, rfl, rfl, -, hprepare⟩ := openWriter_eq_ok hopen
  cases hplace
  obtain ⟨emptied, hempty, hqueued⟩ := prepareIn_of_truncate
    ⟨⟨path, place, fileSize.toNat⟩, recordSize⟩ (opened.view ⟨path, place, fileSize.toNat⟩) hg
  cases hempty.symm.trans hprepare
  refine ⟨rfl, ?_⟩
  rw [Files.region_commit]
  exact hqueued

/-- Opening a bus for writing with its records keeps them. -/
theorem queued_of_openWriter_append {b : Bus} {after : Files}
    (hs : Sizes fileSize.toNat recordSize)
    (hcarried : Carries (files.region l fileSize.toNat) recordSize accepted)
    (hopen : openWriter path fileSize recordSize true files = .ok b after)
    (hplace : b.mapping.location = l) :
    b = ⟨⟨path, l, fileSize.toNat⟩, recordSize⟩ ∧
      Queued (after.region l fileSize.toNat) recordSize accepted := by
  obtain ⟨place, opened, r, rfl, rfl, hquiet, hprepare⟩ := openWriter_eq_ok hopen
  cases hplace
  rw [← hquiet.bytes.region_eq] at hcarried
  refine ⟨rfl, ?_⟩
  rw [Files.region_commit]
  rcases hcarried with hq | ⟨hzero, rfl⟩
  · cases (prepareIn_of_queued ⟨⟨path, place, fileSize.toNat⟩, recordSize⟩ hq).symm.trans hprepare
    exact hq
  · obtain ⟨prepared, hfirst, hqueued⟩ := prepareIn_of_blank
      ⟨⟨path, place, fileSize.toNat⟩, recordSize⟩ hs.grid hzero
    cases hfirst.symm.trans hprepare
    exact hqueued

/-- A payload is accepted if a record has room for it and the bus for a record, and otherwise no file
is changed. -/
theorem send_cases {count : Nat} (path : String) (hg : Grid fileSize.toNat recordSize)
    (hlimit : (limitIn (files.region l fileSize.toNat)).toNat = slotAt recordSize count)
    (payload : Bytes) :
    (∃ e after, send ⟨⟨path, l, fileSize.toNat⟩, recordSize⟩ payload files = .error e after ∧
      verdict ⟨⟨path, l, fileSize.toNat⟩, recordSize⟩ count payload = .error e ∧
      ∀ place, after.file place = files.file place) ∨
    ∃ after, send ⟨⟨path, l, fileSize.toNat⟩, recordSize⟩ payload files = .ok () after ∧
      verdict ⟨⟨path, l, fileSize.toNat⟩, recordSize⟩ count payload = .ok () ∧
      Accepted (files.region l fileSize.toNat) (after.region l fileSize.toNat) recordSize count
        payload := by
  rcases sendIn_cases hg hlimit payload with
    ⟨hlarge, hsend⟩ | ⟨hlen, hfull, hsend⟩ | ⟨r, hsend, haccepted⟩
  · refine .inl ⟨_, _, Mapping.attempt_of_error hsend, ?_, Files.file_commit_view files _⟩
    rw [verdict, if_pos hlarge]
  · refine .inl ⟨_, _, Mapping.attempt_of_error hsend, ?_, Files.file_commit_view files _⟩
    rw [verdict, if_neg (Nat.not_lt.mpr hlen),
      if_neg (mt (lt_capacity_iff hg).mp (Nat.not_le.mpr hfull))]
  · refine .inr ⟨_, Mapping.attempt_of_ok hsend, ?_, ?_⟩
    · rw [verdict, if_neg (Nat.not_lt.mpr haccepted.short),
        if_pos ((lt_capacity_iff hg).mpr haccepted.fits)]
    · rw [Files.region_commit]
      exact haccepted

end Bus

/-! ## Runs -/

/-- A reader in a run: what it has answered so far, and whether the bus has not been emptied since
the reader was opened. -/
structure Session where
  reader : BusReader
  returned : List Bytes := []
  current : Bool := true

/-- A session after one more poll. -/
def Session.poll (s : Session) (now : Nat) (files : Files) : Session where
  reader := (s.reader.poll now files).2.1
  returned := s.returned ++ (s.reader.poll now files).1.toList
  current := s.current

/-- A bus in a run: the files, what it accepted since it was last emptied, and the writers and
readers opened so far. -/
structure Traffic where
  files : Files
  accepted : List Bytes := []
  writers : List Bus := []
  sessions : List Session := []

namespace Traffic

/-- The steps of a run over one file. Every writer may send and every reader may poll at any time;
opening may fail. -/
inductive Step (l : Location) (fileSize recordSize : UInt64) : Traffic → Traffic → Prop
  | empty {t : Traffic} (path : String) (b : Bus) (files : Files)
      (success : Bus.openWriter path fileSize recordSize false t.files = .ok b files)
      (place : b.mapping.location = l) :
      Step l fileSize recordSize t {
        files
        accepted := []
        writers := b :: t.writers
        sessions := t.sessions.map fun s => { s with current := false } }
  | append {t : Traffic} (path : String) (b : Bus) (files : Files)
      (success : Bus.openWriter path fileSize recordSize true t.files = .ok b files)
      (place : b.mapping.location = l) :
      Step l fileSize recordSize t { t with files, writers := b :: t.writers }
  | failWriter {t : Traffic} (path : String) (append : Bool) (e : Error) (files : Files)
      (failure : Bus.openWriter path fileSize recordSize append t.files = .error e files) :
      Step l fileSize recordSize t { t with files }
  | openReader {t : Traffic} (path : String) (timeout : Nat) (reader : BusReader) (files : Files)
      (success : BusReader.openFile path fileSize recordSize timeout t.files = .ok reader files)
      (place : reader.bus.mapping.location = l) :
      Step l fileSize recordSize t { t with files, sessions := { reader } :: t.sessions }
  | failReader {t : Traffic} (path : String) (timeout : Nat) (e : Error) (files : Files)
      (failure : BusReader.openFile path fileSize recordSize timeout t.files = .error e files) :
      Step l fileSize recordSize t { t with files }
  | accept {t : Traffic} (b : Bus) (payload : Bytes) (files : Files) (writer : b ∈ t.writers)
      (success : b.send payload t.files = .ok () files) :
      Step l fileSize recordSize t { t with files, accepted := t.accepted ++ [payload] }
  | refuse {t : Traffic} (b : Bus) (payload : Bytes) (e : Error) (files : Files)
      (writer : b ∈ t.writers) (failure : b.send payload t.files = .error e files) :
      Step l fileSize recordSize t { t with files }
  | poll {t : Traffic} (i : Nat) (s : Session) (now : Nat) (session : t.sessions[i]? = some s) :
      Step l fileSize recordSize t { t with
        files := (s.reader.poll now t.files).2.2
        sessions := t.sessions.set i (s.poll now t.files) }

/-- What a bus can come to, from a file that is not there, or from any file that is emptied. -/
inductive Reached (l : Location) (fileSize recordSize : UInt64) : Traffic → Prop
  | missing (files : Files) (absent : files.get? l = none) :
      Reached l fileSize recordSize { files }
  | emptied (before files : Files) (path : String) (b : Bus)
      (success : Bus.openWriter path fileSize recordSize false before = .ok b files)
      (place : b.mapping.location = l) :
      Reached l fileSize recordSize { files, writers := [b] }
  | step {t next : Traffic} (before : Reached l fileSize recordSize t)
      (step : Step l fileSize recordSize t next) : Reached l fileSize recordSize next

/-- A session has answered the records in front of its cursor, as far as it is current. -/
structure Follows (l : Location) (fileSize recordSize : UInt64) (accepted : List Bytes)
    (s : Session) : Prop where
  bus : ∃ path, s.reader.bus = ⟨⟨path, l, fileSize.toNat⟩, recordSize⟩
  place : ∃ i, s.reader.cursor.position = Bus.slotAt recordSize i ∧
    (s.current = true → i ≤ accepted.length ∧ s.returned = accepted.take i)

/-- The file carries what has been accepted, and is prepared for more once there is a writer. -/
structure Inv (l : Location) (fileSize recordSize : UInt64) (t : Traffic) : Prop where
  carried : Bus.Carries (t.files.region l fileSize.toNat) recordSize t.accepted
  queued : t.writers ≠ [] → Bus.Queued (t.files.region l fileSize.toNat) recordSize t.accepted
  writers : ∀ b ∈ t.writers, ∃ path, b = ⟨⟨path, l, fileSize.toNat⟩, recordSize⟩
  sessions : ∀ s ∈ t.sessions, Follows l fileSize recordSize t.accepted s

variable {l : Location} {fileSize recordSize : UInt64} {files : Files} {accepted : List Bytes}
  {s : Session} {t : Traffic}

theorem Follows.append (h : Follows l fileSize recordSize accepted s) (payload : Bytes) :
    Follows l fileSize recordSize (accepted ++ [payload]) s := by
  obtain ⟨i, hposition, hcurrent⟩ := h.place
  refine ⟨h.bus, i, hposition, ?_⟩
  intro hc
  obtain ⟨hi, hreturned⟩ := hcurrent hc
  refine ⟨?_, ?_⟩
  · rw [List.length_append]
    omega
  · rw [hreturned, List.take_append_of_le_length hi]

theorem Follows.expire (h : Follows l fileSize recordSize accepted s) (other : List Bytes) :
    Follows l fileSize recordSize other { s with current := false } := by
  obtain ⟨i, hposition, _⟩ := h.place
  refine ⟨h.bus, i, hposition, ?_⟩
  intro hc
  cases hc

/-- A reader in front of a record polls it, and changes no file. -/
theorem poll_eq {reader : BusReader} {path : String} {i : Nat}
    (hs : Bus.Sizes fileSize.toNat recordSize)
    (hcarried : Bus.Carries (files.region l fileSize.toNat) recordSize accepted)
    (hbus : reader.bus = ⟨⟨path, l, fileSize.toNat⟩, recordSize⟩)
    (hposition : reader.cursor.position = Bus.slotAt recordSize i) (now : Nat) :
    reader.poll now files = (accepted[i]?,
      { reader with cursor := if i < accepted.length then
          reader.cursor.advance (Bus.strideOf recordSize) else reader.cursor },
      files.commit reader.bus.mapping (files.view reader.bus.mapping)) := by
  obtain ⟨bus, timeout, cursor⟩ := reader
  simp only at hbus hposition
  subst hbus
  have hpoll := Bus.pollIn_of_carries timeout now hs hcarried hposition
  have hview : files.view ⟨path, l, fileSize.toNat⟩ = files.region l fileSize.toNat := rfl
  simp only [BusReader.poll, Bus.stride, hview, hpoll]

theorem Follows.sameBytes (hs : Bus.Sizes fileSize.toNat recordSize)
    (hcarried : Bus.Carries (files.region l fileSize.toNat) recordSize accepted)
    (h : Follows l fileSize recordSize accepted s) (now : Nat) :
    files.SameBytes (s.reader.poll now files).2.2 := by
  obtain ⟨path, hbus⟩ := h.bus
  obtain ⟨i, hposition, _⟩ := h.place
  rw [poll_eq hs hcarried hbus hposition]
  exact files.sameBytes_commit_view _

/-- A current session is answered the first payload that it has not been answered yet. -/
theorem Follows.answer (hs : Bus.Sizes fileSize.toNat recordSize)
    (hcarried : Bus.Carries (files.region l fileSize.toNat) recordSize accepted)
    (h : Follows l fileSize recordSize accepted s) (hcurrent : s.current = true) (now : Nat) :
    (s.reader.poll now files).1 = accepted[s.returned.length]? := by
  obtain ⟨path, hbus⟩ := h.bus
  obtain ⟨i, hposition, hreturned⟩ := h.place
  obtain ⟨hi, hreturned⟩ := hreturned hcurrent
  rw [poll_eq hs hcarried hbus hposition, hreturned, List.length_take, Nat.min_eq_left hi]

theorem Follows.poll (hs : Bus.Sizes fileSize.toNat recordSize)
    (hcarried : Bus.Carries (files.region l fileSize.toNat) recordSize accepted)
    (h : Follows l fileSize recordSize accepted s) (now : Nat) :
    Follows l fileSize recordSize accepted (s.poll now files) := by
  obtain ⟨path, hbus⟩ := h.bus
  obtain ⟨i, hposition, hreturned⟩ := h.place
  have hpoll := poll_eq hs hcarried hbus hposition now
  refine ⟨⟨path, ?_⟩, ?_⟩
  · rw [Session.poll, hpoll]
    exact hbus
  · by_cases hi : i < accepted.length
    · refine ⟨i + 1, ?_, ?_⟩
      · rw [Session.poll, hpoll]
        simp only [if_pos hi, Cursor.advance, hposition, Bus.slotAt_succ]
      · intro hcurrent
        refine ⟨hi, ?_⟩
        rw [Session.poll, hpoll, (hreturned hcurrent).2, List.getElem?_eq_getElem hi]
        exact (List.take_succ_eq_append_getElem hi).symm
    · refine ⟨i, ?_, ?_⟩
      · rw [Session.poll, hpoll]
        simp only [if_neg hi, hposition]
      · intro hcurrent
        refine ⟨(hreturned hcurrent).1, ?_⟩
        rw [Session.poll, hpoll, (hreturned hcurrent).2,
          List.getElem?_eq_none (Nat.le_of_not_lt hi)]
        exact List.append_nil _

/-! ## The invariant -/

theorem Inv.of_sameBytes (h : Inv l fileSize recordSize t) (hsame : t.files.SameBytes files) :
    Inv l fileSize recordSize { t with files } := by
  have hregion := hsame.region_eq l fileSize.toNat
  refine ⟨?_, ?_, h.writers, h.sessions⟩
  · rw [hregion]
    exact h.carried
  · rw [hregion]
    exact h.queued

theorem Inv.openWriter {b : Bus} {path : String} {sessions : List Session}
    (h : Inv l fileSize recordSize t) (hb : b = ⟨⟨path, l, fileSize.toNat⟩, recordSize⟩)
    (hqueued : Bus.Queued (files.region l fileSize.toNat) recordSize accepted)
    (hsessions : ∀ s ∈ sessions, Follows l fileSize recordSize accepted s) :
    Inv l fileSize recordSize ⟨files, accepted, b :: t.writers, sessions⟩ := by
  refine ⟨.inl hqueued, fun _ => hqueued, ?_, hsessions⟩
  intro other hother
  rcases List.mem_cons.mp hother with rfl | hold
  · exact ⟨path, hb⟩
  · exact h.writers other hold

theorem Inv.step {next : Traffic} (hs : Bus.Sizes fileSize.toNat recordSize)
    (h : Inv l fileSize recordSize t) (hstep : Step l fileSize recordSize t next) :
    Inv l fileSize recordSize next := by
  cases hstep with
  | empty path b files success place =>
      obtain ⟨hb, hqueued⟩ := Bus.queued_of_openWriter_empty hs.grid success place
      apply h.openWriter hb hqueued
      intro s hsession
      obtain ⟨old, hold, rfl⟩ := List.mem_map.mp hsession
      exact (h.sessions old hold).expire []
  | append path b files success place =>
      obtain ⟨hb, hqueued⟩ := Bus.queued_of_openWriter_append hs h.carried success place
      exact h.openWriter hb hqueued h.sessions
  | failWriter path append e files failure =>
      exact h.of_sameBytes (Bus.sameBytes_of_openWriter failure)
  | openReader path timeout reader files success place =>
      obtain ⟨⟨l', rfl⟩, hsame⟩ := Bus.openReader_eq_ok success
      cases place
      obtain ⟨hcarried, hqueued, hwriters, hsessions⟩ := h.of_sameBytes hsame
      refine ⟨hcarried, hqueued, hwriters, ?_⟩
      intro s hsession
      rcases List.mem_cons.mp hsession with rfl | hold
      · exact ⟨⟨path, rfl⟩, 0, by simp [Cursor.start, Bus.slotAt], fun _ => ⟨Nat.zero_le _, rfl⟩⟩
      · exact hsessions s hold
  | failReader path timeout e files failure =>
      exact h.of_sameBytes (Bus.sameBytes_of_openReader failure)
  | accept b payload files writer success =>
      obtain ⟨path, rfl⟩ := h.writers b writer
      have hbefore := h.queued (List.ne_nil_of_mem writer)
      rcases Bus.send_cases path hs.grid hbefore.limit payload with
        ⟨e, after, hfail, _, _⟩ | ⟨after, hok, _, haccepted⟩
      · cases hfail.symm.trans success
      · cases hok.symm.trans success
        have hqueued := hbefore.snoc haccepted
        refine ⟨.inl hqueued, fun _ => hqueued, h.writers, ?_⟩
        intro s hsession
        exact (h.sessions s hsession).append payload
  | refuse b payload e files writer failure =>
      obtain ⟨path, rfl⟩ := h.writers b writer
      rcases Bus.send_cases path hs.grid (h.queued (List.ne_nil_of_mem writer)).limit payload with
        ⟨e', after, hfail, _, hsame⟩ | ⟨after, hok, _, _⟩
      · cases hfail.symm.trans failure
        exact h.of_sameBytes fun place => by rw [hsame]
      · cases hok.symm.trans failure
  | poll i s now session =>
      have hfollows := h.sessions s (List.mem_of_getElem? session)
      obtain ⟨hcarried, hqueued, hwriters, hsessions⟩ :=
        h.of_sameBytes (hfollows.sameBytes hs h.carried now)
      refine ⟨hcarried, hqueued, hwriters, ?_⟩
      intro other hother
      rcases List.mem_or_eq_of_mem_set hother with hold | rfl
      · exact hsessions other hold
      · exact hfollows.poll hs h.carried now

theorem Reached.inv (hs : Bus.Sizes fileSize.toNat recordSize)
    (h : Reached l fileSize recordSize t) : Inv l fileSize recordSize t := by
  induction h with
  | missing files absent =>
      refine ⟨.inr ⟨?_, rfl⟩, fun hnone => absurd rfl hnone, by simp, by simp⟩
      rw [Files.region, Files.file, absent]
      exact Bus.limitIn_blank _ (Nat.le_trans (Nat.le_add_right ..) hs.room)
  | emptied before files path b success place =>
      obtain ⟨hb, hqueued⟩ := Bus.queued_of_openWriter_empty hs.grid success place
      refine ⟨.inl hqueued, fun _ => hqueued, ?_, by simp⟩
      intro other hother
      rw [List.mem_singleton.mp hother]
      exact ⟨path, hb⟩
  | step _ hstep ih => exact ih.step hs hstep

/-- In every run, a bus is a queue that loses nothing: a writer counts what has been accepted since
the bus was last emptied, a payload is refused if it is too large or if there is no room for its
record, without a change to any file, and what a reader has answered since is the beginning of
what has been accepted, of which it answers the next payload. -/
theorem fifo_of_reached (hsmall : recordSize.toNat < UInt32.size)
    (hroom : Bus.headerSize + (Bus.recordHeaderSize + recordSize.toNat + 7) / 8 * 8 ≤
      fileSize.toNat) (ht : Reached l fileSize recordSize t) :
    (∀ b ∈ t.writers, b.size t.files = .ok t.accepted.length ∧ ∀ payload,
      ((b.send payload).perform t.files).1 = b.verdict t.accepted.length payload ∧
      (b.verdict t.accepted.length payload ≠ .ok () →
        ∀ place, ((b.send payload).perform t.files).2.file place = t.files.file place)) ∧
    ∀ s ∈ t.sessions, s.current = true → s.returned <+: t.accepted ∧
      ∀ now, (s.reader.poll now t.files).1 = t.accepted[s.returned.length]? := by
  have hs : Bus.Sizes fileSize.toNat recordSize :=
    ⟨hsmall, hroom, fileSize.toNat_lt_size⟩
  have hinv := ht.inv hs
  refine ⟨?_, ?_⟩
  · intro b hb
    have hqueued := hinv.queued (List.ne_nil_of_mem hb)
    obtain ⟨path, rfl⟩ := hinv.writers b hb
    refine ⟨Bus.size_of_limit hqueued.limit, ?_⟩
    intro payload
    rcases Bus.send_cases path hs.grid hqueued.limit payload with
      ⟨e, after, hfail, hverdict, hsame⟩ | ⟨after, hok, hverdict, _⟩
    · rw [Attempt.perform, EStateM.run, hfail, hverdict]
      exact ⟨rfl, fun _ => hsame⟩
    · rw [Attempt.perform, EStateM.run, hok, hverdict]
      exact ⟨rfl, fun hne => absurd rfl hne⟩
  · intro s hsession hcurrent
    have hfollows := hinv.sessions s hsession
    refine ⟨?_, hfollows.answer hs hinv.carried hcurrent⟩
    obtain ⟨i, _, hreturned⟩ := hfollows.place
    rw [(hreturned hcurrent).2]
    exact List.take_prefix _ _

/-- A bus with room for one record of four bytes. -/
def sampleBus : Bus := ⟨⟨"bus", ["bus"], 24⟩, 4⟩

/-- The files once the bus has been opened for writing. -/
def sampleFiles : Files := ((Bus.openWriter "bus" 24 4 false).perform .empty).2

theorem fifo_of_reached_sample :
    ∃ t s, Reached ["bus"] 24 4 t ∧ t.accepted = [[1, 2, 3]] ∧ t.sessions = [s] ∧
      sampleBus.size t.files = .ok 1 ∧
      ((sampleBus.send [5]).perform t.files).1 = .error .channelFull ∧
      (s.reader.poll 0 t.files).1 = some [1, 2, 3] := by
  have hopen : Bus.openWriter "bus" 24 4 false .empty = .ok sampleBus sampleFiles :=
    Attempt.eq_ok_of_perform (by decide +kernel)
  have hstart : Reached ["bus"] 24 4 { files := sampleFiles, writers := [sampleBus] } :=
    .emptied .empty sampleFiles "bus" sampleBus hopen rfl
  have hreader : BusReader.openFile "bus" 24 4 0 sampleFiles = .ok ⟨sampleBus, 0, .start⟩
      ((BusReader.openFile "bus" 24 4 0).perform sampleFiles).2 :=
    Attempt.eq_ok_of_perform (by decide +kernel)
  have hread := hstart.step (.openReader "bus" 0 _ _ hreader rfl)
  have hsmall : (4 : UInt64).toNat < UInt32.size := by decide
  have hroom : Bus.headerSize + (Bus.recordHeaderSize + (4 : UInt64).toNat + 7) / 8 * 8 ≤
      (24 : UInt64).toNat := by decide
  have hwriter := (fifo_of_reached hsmall hroom hread).1 sampleBus (List.mem_singleton_self _)
  have hsend := Attempt.eq_ok_of_perform (x := ()) (by rw [(hwriter.2 [1, 2, 3]).1]; decide)
  have haccept := hread.step (.accept sampleBus [1, 2, 3] _ (List.mem_singleton_self _) hsend)
  obtain ⟨hwriters, hsessions⟩ := fifo_of_reached hsmall hroom haccept
  obtain ⟨hsize, hsent⟩ := hwriters sampleBus (List.mem_singleton_self _)
  refine ⟨_, _, haccept, rfl, rfl, hsize, ?_, ?_⟩
  · rw [(hsent [5]).1]
    rfl
  · exact (hsessions _ (List.mem_singleton_self _) rfl).2 0

end Traffic

end Columnlet

import Columnlet.Proofs.Bus.Fifo

/-! # Writers that do all or nothing

Opening a bus that keeps its records fails without a change to any byte, or finds the limit between
the records of the window, or makes a bus that has never been written to an empty one. From then on
the limit stays between the records of the window. So there is always room for a record that has
been reserved, and a payload that is refused is refused before anything is written. -/

namespace Columnlet

open Attempt (Moves)

namespace Files

variable {files : Files} {l : Location}

/-- No file has become shorter. -/
def Lengthened (files after : Files) : Prop :=
  ∀ l, (files.file l).length ≤ (after.file l).length

theorem Lengthened.refl (files : Files) : files.Lengthened files := fun _ => Nat.le_refl _

theorem Lengthened.trans (files after last : Files) (h : files.Lengthened after)
    (h' : after.Lengthened last) : files.Lengthened last := fun l => Nat.le_trans (h l) (h' l)

theorem lengthened_put {f : File} (h : (files.file l).length ≤ f.length) :
    files.Lengthened (files.put l f) := by
  intro other
  rw [file, file, get?_put]
  by_cases hl : other = l
  · rw [if_pos hl, hl]
    exact h
  · exact Nat.le_of_eq (by rw [if_neg hl])

theorem lengthened_attempt {α : Type} (m : Mapping) (a : Attempt (Region m.size) α) :
    (m.attempt a).Moves Lengthened := by
  intro files
  rw [Mapping.perform_attempt]
  exact lengthened_put (Nat.le_refl _)

theorem lengthened_openMapping (path : String) (size : Nat) :
    (openMapping path size).Moves Lengthened :=
  moves_openMapping_of .refl (fun _ _ _ _ hlength => lengthened_put hlength) path size

/-- No byte of a file has been changed or cut off. -/
structure Grown (files after : Files) : Prop where
  bytes : files.SameBytes after
  lengths : files.Lengthened after

end Files

namespace Bus

variable {n count : Nat} {path : String} {l : Location} {fileSize recordSize : UInt64}
  {append : Bool} {files after : Files} {b : Bus} {r s : Region n} {payload : Bytes}

/-! ## Opening -/

theorem lengthened_openWriter (path : String) (fileSize recordSize : UInt64) (append : Bool) :
    (openWriter path fileSize recordSize append).Moves Files.Lengthened := by
  have hmapping := Files.lengthened_openMapping path fileSize.toNat
  have hopen := moves_openFile_of Files.Lengthened.refl Files.Lengthened.trans hmapping recordSize
  refine hopen.bind Files.Lengthened.trans fun b => ?_
  refine (Files.lengthened_attempt b.mapping _).bind Files.Lengthened.trans fun _ => ?_
  exact Moves.pure Files.Lengthened.refl _

theorem reserved_of_openWriter
    (h : openWriter path fileSize recordSize append files = .ok b after)
    (hplace : b.mapping.location = l) :
    b = ⟨⟨path, l, fileSize.toNat⟩, recordSize⟩ ∧
      ∃ count, Reserved (after.region l fileSize.toNat) recordSize count := by
  have hg := grid_of_openWriter h
  obtain ⟨place, opened, prepared, rfl, rfl, -, hprepare⟩ := openWriter_eq_ok h
  cases hplace
  refine ⟨rfl, ?_⟩
  rw [Files.region_commit]
  exact reserved_of_prepareIn (b := ⟨⟨path, place, fileSize.toNat⟩, recordSize⟩) hg hprepare

/-- The limit of a bus was zero and has become that of an empty bus, and no other byte of a file has
been changed or cut off. -/
structure Started (b : Bus) (files after : Files) : Prop where
  before : limitIn (files.view b.mapping) = 0
  limit : (limitIn (after.view b.mapping)).toNat = headerSize
  rest : ∀ offset, headerSize ≤ offset →
    (after.view b.mapping).get offset = (files.view b.mapping).get offset
  others : ∀ place, place ≠ b.mapping.location →
    (after.file place).memory = (files.file place).memory
  lengths : files.Lengthened after

/-- Opening a bus that keeps its records sets a limit of zero at most. -/
theorem openWriter_append_cases (path : String) (fileSize recordSize : UInt64) (files : Files) :
    (∃ e after, openWriter path fileSize recordSize true files = .error e after ∧
      files.Grown after) ∨
    ∃ b after, openWriter path fileSize recordSize true files = .ok b after ∧
      (files.Grown after ∨ b.Started files after) := by
  have hlengths := lengthened_openWriter path fileSize recordSize true
  rcases openWriter_cases path fileSize recordSize true files with
    ⟨e, after, hfail, hquiet⟩ | ⟨l, opened, r, hok, hquiet, hprepare⟩
  · exact .inl ⟨e, after, hfail, hquiet.bytes, hlengths.of_error hfail⟩
  have hheader := (grid_of_openWriter hok).headerSize_le
  have hview : opened.view ⟨path, l, fileSize.toNat⟩ = files.view ⟨path, l, fileSize.toNat⟩ :=
    hquiet.bytes.region_eq l fileSize.toNat
  refine .inr ⟨_, _, hok, ?_⟩
  rcases prepareIn_append_cases hprepare with ⟨hzero, rfl⟩ | ⟨rfl, -⟩
  · obtain ⟨hset, hkept⟩ := setLimit_spec (opened.view ⟨path, l, fileSize.toNat⟩) headerSize hheader
    rw [hview] at hzero
    refine .inr ⟨hzero, ?_, ?_, ?_, hlengths.of_ok hok⟩
    · rw [Files.view_commit_self]
      exact limitIn_of_holds hset (by decide)
    · intro offset hoffset
      rw [Files.view_commit_self, hkept offset hoffset, hview]
    · intro place hplace
      rw [Files.file_commit_of_ne hplace, hquiet.bytes place]
  · refine .inl ⟨?_, hlengths.of_ok hok⟩
    exact (hquiet.trans _ _ _ (opened.quiet_commit_view _)).bytes

/-! ## Sending -/

/-- Add a record, with a way to deal with a record that cannot be filled. -/
def sendOr (recover : Nat → Region n → Region n) (recordSize : UInt64) (stride : Nat)
    (payload : Bytes) : Attempt (Region n) Unit := do
  if recordSize.toNat < payload.length then
    throw (.recordTooLarge payload.length recordSize.toNat)
  let record ← reserveIn stride
  (fillIn stride record payload).onError (recover record)

theorem sendOr_abandonIn : sendOr (n := n) abandonIn = sendIn := rfl

/-- A record that has been reserved stands at the limit, and there is room for it. -/
theorem Reserved.record_eq (h : Reserved r recordSize count) {record : Nat}
    (hreserve : reserveIn (strideOf recordSize) r = .ok record s) :
    record = slotAt recordSize count ∧ slotAt recordSize (count + 1) ≤ n := by
  rw [slotAt_succ, ← h.limit]
  rcases Nat.lt_or_ge n ((limitIn r).toNat + strideOf recordSize) with hfull | hroom
  · cases (reserveIn_of_lt hfull).symm.trans hreserve
  · cases (reserveIn_of_le hroom).symm.trans hreserve
    exact ⟨rfl, hroom⟩

theorem Reserved.reserve (hg : Grid n recordSize) (h : Reserved r recordSize count) {record : Nat}
    (hreserve : reserveIn (strideOf recordSize) r = .ok record s) :
    Reserved s recordSize (count + 1) := by
  obtain ⟨-, hroom⟩ := h.record_eq hreserve
  have hnext := slotAt_succ recordSize count
  rw [← h.limit] at hnext
  cases (reserveIn_of_le (by rw [← hnext]; exact hroom)).symm.trans hreserve
  rw [← hnext]
  exact reserved_of_holds hg hroom (setLimit_spec r _ hg.headerSize_le).1

/-- A record that has been reserved can be filled, whatever the region holds by then. -/
theorem Reserved.fillIn_ok (h : Reserved r recordSize count) {record : Nat}
    (hreserve : reserveIn (strideOf recordSize) r = .ok record s)
    (hlen : payload.length ≤ recordSize.toNat) (later : Region n) :
    ∃ filled, fillIn (strideOf recordSize) record payload later = .ok () filled := by
  obtain ⟨rfl, hroom⟩ := h.record_eq hreserve
  have hmod := slotAt_mod recordSize count
  rw [slotAt_succ] at hroom
  obtain ⟨filled, hfill, -⟩ := fillIn_spec later hlen
    (show slotAt recordSize count % 4 = 0 by omega) hroom
  exact ⟨filled, hfill⟩

/-- A record that has been reserved is filled, so it makes no difference what would be done with one
that cannot be filled. -/
theorem Reserved.sendOr_eq (h : Reserved r recordSize count)
    (recover : Nat → Region n → Region n) (payload : Bytes) :
    sendOr recover recordSize (strideOf recordSize) payload r =
      sendIn recordSize (strideOf recordSize) payload r := by
  rw [← sendOr_abandonIn]
  by_cases hlarge : recordSize.toNat < payload.length
  · rw [sendOr, sendOr, if_pos hlarge, if_pos hlarge]
    rfl
  · rw [sendOr, sendOr, if_neg hlarge, if_neg hlarge]
    cases hreserve : reserveIn (strideOf recordSize) r with
    | error e s =>
        exact (Attempt.bind_of_error hreserve).trans (Attempt.bind_of_error hreserve).symm
    | ok record s =>
        obtain ⟨filled, hfill⟩ := h.fillIn_ok hreserve (Nat.le_of_not_lt hlarge) s
        refine (Attempt.bind_of_ok hreserve).trans (Eq.trans ?_ (Attempt.bind_of_ok hreserve).symm)
        exact (Attempt.onError_of_ok hfill).trans (Attempt.onError_of_ok hfill).symm

theorem Reserved.le_capacity (h : Reserved (files.region l fileSize.toNat) recordSize count)
    (path : String) :
    count ≤ capacity ⟨⟨path, l, fileSize.toNat⟩, recordSize⟩ := by
  have hfits := h.fits
  rw [slotAt] at hfits
  rw [capacity, stride, Nat.le_div_iff_mul_le (strideOf_pos recordSize)]
  exact Nat.le_sub_of_add_le' hfits

/-- One more record is reserved for a payload that has been accepted. -/
theorem Accepted.reserved (h : Accepted r s recordSize count payload) :
    Reserved s recordSize (count + 1) := ⟨h.limit, h.fits⟩

/-- What a writer of a bus that holds a count of records can rely on. The count and the limit agree
within the window. A record that is reserved is aligned, inside the window, and can be filled,
whatever the window shows by then; so it makes no difference what is done with one that cannot be
filled. A payload is refused only for its size or for want of room, without a change to any file. -/
structure Unfailing (b : Bus) (files : Files) (count : Nat) : Prop where
  stride : b.stride = (recordHeaderSize + b.recordSize.toNat + 7) / 8 * 8
  limit : (limitIn (files.view b.mapping)).toNat = headerSize + count * b.stride
  capacity : count ≤ b.capacity
  size : b.size files = .ok count
  reserve : ∀ record reserved, reserveIn b.stride (files.view b.mapping) = .ok record reserved →
    record % 8 = 0 ∧ headerSize ≤ record ∧ record + b.stride ≤ b.mapping.size
  fill : ∀ record reserved, reserveIn b.stride (files.view b.mapping) = .ok record reserved →
    ∀ payload : Bytes, payload.length ≤ b.recordSize.toNat → ∀ later : Region b.mapping.size,
      ∃ filled, fillIn b.stride record payload later = .ok () filled
  recover : ∀ recover payload, sendOr recover b.recordSize b.stride payload (files.view b.mapping) =
    sendIn b.recordSize b.stride payload (files.view b.mapping)
  send : ∀ payload, ((b.send payload).perform files).1 = b.verdict count payload
  refuse : ∀ payload, ((b.send payload).perform files).1 ≠ .ok () →
    ∀ place, ((b.send payload).perform files).2.file place = files.file place

theorem Reserved.unfailing (hg : Grid fileSize.toNat recordSize)
    (h : Reserved (files.region l fileSize.toNat) recordSize count) (path : String) :
    Unfailing ⟨⟨path, l, fileSize.toNat⟩, recordSize⟩ files count where
  stride := rfl
  limit := h.limit
  capacity := h.le_capacity path
  size := size_of_limit h.limit
  reserve := by
    intro record reserved hreserve
    obtain ⟨rfl, hroom⟩ := h.record_eq hreserve
    refine ⟨slotAt_mod recordSize count, Nat.le_add_right .., ?_⟩
    rw [slotAt_succ] at hroom
    exact hroom
  fill := fun record reserved hreserve payload hlen => h.fillIn_ok hreserve hlen
  recover := h.sendOr_eq
  send := by
    intro payload
    rw [Attempt.perform, EStateM.run]
    rcases send_cases path hg h.limit payload with
      ⟨e, after, hfail, hverdict, -⟩ | ⟨after, hok, hverdict, -⟩
    · rw [hfail, hverdict]
    · rw [hok, hverdict]
  refuse := by
    intro payload hrefused
    rw [Attempt.perform, EStateM.run] at hrefused ⊢
    rcases send_cases path hg h.limit payload with
      ⟨e, after, hfail, -, hsame⟩ | ⟨after, hok, -, -⟩
    · rw [hfail]
      exact hsame
    · rw [hok] at hrefused
      exact absurd rfl hrefused

end Bus

/-! ## Runs -/

/-- Writers of a bus in a run: the files, and the writers opened so far. -/
structure Senders where
  files : Files
  writers : List Bus

namespace Senders

/-- The steps of a run over one file. A bus is opened for writing, with its records kept or not and
by any of its names, or that fails; and every writer may send any payload at any time. -/
inductive Step (l : Location) (fileSize recordSize : UInt64) : Senders → Senders → Prop
  | opened {t : Senders} (path : String) (append : Bool) (b : Bus) (files : Files)
      (success : Bus.openWriter path fileSize recordSize append t.files = .ok b files)
      (place : b.mapping.location = l) :
      Step l fileSize recordSize t ⟨files, b :: t.writers⟩
  | failed {t : Senders} (path : String) (append : Bool) (e : Error) (files : Files)
      (failure : Bus.openWriter path fileSize recordSize append t.files = .error e files) :
      Step l fileSize recordSize t { t with files }
  | sent {t : Senders} (b : Bus) (payload : Bytes) (writer : b ∈ t.writers) :
      Step l fileSize recordSize t { t with files := ((b.send payload).perform t.files).2 }

/-- What a bus can come to, from any file that it has been opened on for writing. -/
inductive Reached (l : Location) (fileSize recordSize : UInt64) : Senders → Prop
  | opened (before files : Files) (path : String) (append : Bool) (b : Bus)
      (success : Bus.openWriter path fileSize recordSize append before = .ok b files)
      (place : b.mapping.location = l) : Reached l fileSize recordSize ⟨files, [b]⟩
  | step {t next : Senders} (before : Reached l fileSize recordSize t)
      (step : Step l fileSize recordSize t next) : Reached l fileSize recordSize next

/-- The limit is between the records of the window that all writers share. -/
structure Inv (l : Location) (fileSize recordSize : UInt64) (t : Senders) : Prop where
  grid : Bus.Grid fileSize.toNat recordSize
  reserved : ∃ count, Bus.Reserved (t.files.region l fileSize.toNat) recordSize count
  writers : ∀ b ∈ t.writers, ∃ path, b = ⟨⟨path, l, fileSize.toNat⟩, recordSize⟩

variable {l : Location} {path : String} {fileSize recordSize : UInt64} {append : Bool} {b : Bus}
  {before files : Files} {writers : List Bus} {t next : Senders}

theorem inv_of_openWriter
    (hopen : Bus.openWriter path fileSize recordSize append before = .ok b files)
    (hplace : b.mapping.location = l)
    (hwriters : ∀ b ∈ writers, ∃ path, b = ⟨⟨path, l, fileSize.toNat⟩, recordSize⟩) :
    Inv l fileSize recordSize ⟨files, b :: writers⟩ := by
  obtain ⟨hb, hreserved⟩ := Bus.reserved_of_openWriter hopen hplace
  refine ⟨Bus.grid_of_openWriter hopen, hreserved, ?_⟩
  intro other hother
  rcases List.mem_cons.mp hother with rfl | hold
  · exact ⟨path, hb⟩
  · exact hwriters other hold

theorem Inv.step (h : Inv l fileSize recordSize t) (hstep : Step l fileSize recordSize t next) :
    Inv l fileSize recordSize next := by
  obtain ⟨hg, ⟨count, hreserved⟩, hwriters⟩ := h
  cases hstep with
  | opened path append b files success place =>
      exact inv_of_openWriter success place hwriters
  | failed path append e files failure =>
      refine ⟨hg, ⟨count, ?_⟩, hwriters⟩
      rw [(Bus.sameBytes_of_openWriter failure).region_eq]
      exact hreserved
  | sent b payload writer =>
      obtain ⟨path, rfl⟩ := hwriters b writer
      refine ⟨hg, ?_, hwriters⟩
      dsimp only
      rw [Attempt.perform, EStateM.run]
      rcases Bus.send_cases path hg hreserved.limit payload with
        ⟨e, after, hfail, -, hsame⟩ | ⟨after, hok, -, haccepted⟩
      · rw [hfail]
        refine ⟨count, ?_⟩
        rw [Files.region, hsame]
        exact hreserved
      · rw [hok]
        exact ⟨count + 1, haccepted.reserved⟩

theorem Reached.inv (h : Reached l fileSize recordSize t) : Inv l fileSize recordSize t := by
  induction h with
  | opened before files path append b success place =>
      exact inv_of_openWriter success place (by simp)
  | step _ hstep ih => exact ih.step hstep

/-- Opening a bus that keeps its records fails without a change to any byte, or succeeds and sets a
limit of zero at most. From any opening on, all writers agree on how many records the bus holds, and
none of them fails half-way. -/
theorem all_or_nothing (recordSize : UInt64) :
    (∀ path fileSize files,
      (∃ e after, Bus.openWriter path fileSize recordSize true files = .error e after ∧
        files.Grown after) ∨
      ∃ b after, Bus.openWriter path fileSize recordSize true files = .ok b after ∧
        (files.Grown after ∨ b.Started files after)) ∧
    ∀ l fileSize t, Reached l fileSize recordSize t →
      ∃ count, ∀ b ∈ t.writers, b.Unfailing t.files count := by
  refine ⟨fun path fileSize => Bus.openWriter_append_cases path fileSize recordSize, ?_⟩
  intro l fileSize t ht
  obtain ⟨hg, ⟨count, hreserved⟩, hwriters⟩ := ht.inv
  refine ⟨count, ?_⟩
  intro b hb
  obtain ⟨path, rfl⟩ := hwriters b hb
  exact hreserved.unfailing hg path

open Traffic (sampleBus sampleFiles)

theorem all_or_nothing_sample :
    (∃ after, Bus.openWriter "bus" 24 4 true .empty = .ok sampleBus after ∧
      sampleBus.Started .empty after) ∧
    ∃ t, Reached ["bus"] 24 4 t ∧ sampleBus ∈ t.writers ∧ sampleBus.size t.files = .ok 1 ∧
      ((sampleBus.send [5]).perform t.files).1 = .error .channelFull ∧
      ∀ place, ((sampleBus.send [5]).perform t.files).2.file place = t.files.file place := by
  obtain ⟨hopening, hsending⟩ := all_or_nothing 4
  refine ⟨?_, ?_⟩
  · have hopen : Bus.openWriter "bus" 24 4 true .empty = .ok sampleBus
        ((Bus.openWriter "bus" 24 4 true).perform .empty).2 :=
      Attempt.eq_ok_of_perform (by decide +kernel)
    rcases hopening "bus" 24 .empty with ⟨e, after, hfail, -⟩ | ⟨b, after, hok, hchange⟩
    · cases hfail.symm.trans hopen
    · cases hok.symm.trans hopen
      refine ⟨_, hopen, ?_⟩
      rcases hchange with hgrown | hstarted
      · -- The limit has become eight, so not all bytes are as they were.
        have hlimit := congrArg Bus.limitIn (hgrown.bytes.region_eq ["bus"] 24)
        exact absurd hlimit (by decide +kernel)
      · exact hstarted
  · have hopen : Bus.openWriter "bus" 24 4 false .empty = .ok sampleBus sampleFiles :=
      Attempt.eq_ok_of_perform (by decide +kernel)
    have hstart : Reached ["bus"] 24 4 ⟨sampleFiles, [sampleBus]⟩ :=
      .opened .empty sampleFiles "bus" false sampleBus hopen rfl
    have hsent := hstart.step (.sent sampleBus [1, 2, 3] (List.mem_singleton_self _))
    obtain ⟨count, hunfailing⟩ := hsending ["bus"] 24 _ hsent
    have hwriter := hunfailing sampleBus (List.mem_singleton_self _)
    have hlimit : (Bus.limitIn (((sampleBus.send [1, 2, 3]).perform sampleFiles).2.region
        ["bus"] (24 : UInt64).toNat)).toNat = Bus.slotAt 4 1 := by
      decide +kernel
    have hcount : sampleBus.size ((sampleBus.send [1, 2, 3]).perform sampleFiles).2 = .ok 1 :=
      Bus.size_of_limit hlimit
    obtain rfl : count = 1 := Except.ok.inj (hwriter.size.symm.trans hcount)
    have hfull : sampleBus.verdict 1 [5] = .error .channelFull := rfl
    refine ⟨_, hsent, List.mem_singleton_self _, hwriter.size, ?_, ?_⟩
    · rw [hwriter.send, hfull]
    · refine hwriter.refuse [5] ?_
      rw [hwriter.send, hfull]
      simp

end Senders

end Columnlet

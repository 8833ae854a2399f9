import Columnlet.Bus.Reader
import Columnlet.Proofs.Bus.Poll
import Columnlet.Proofs.Reader.Opening

/-! # Reports after a failed opening

Opening a reader that fails leaves the reports on its bus, unless it has emptied the bus by then as
its settings say. -/

namespace Columnlet

/-! ## What can be drained -/

/-- What a reader answers that is drained again and again, each time at a time and up to a count. -/
def BusReader.gather (reader : BusReader) : List (Nat × Nat) → Files → List Bytes
  | [], _ => []
  | (now, max) :: drains, files =>
    let (payloads, next, after) := reader.drain now max files
    payloads ++ next.gather drains after

/-- What a reader of a bus answers that is opened afresh; a bus that cannot be opened answers
nothing. -/
def BusConfig.gather (bus : BusConfig) (timeout : Nat) (drains : List (Nat × Nat))
    (files : Files) : List Bytes :=
  match BusReader.openFile bus.path bus.fileSize bus.recordSize timeout files with
  | .ok reader opened => reader.gather drains opened
  | .error _ _ => []

variable {bus : BusConfig} {b : Bus} {before opened files after : Files}

/-- What is drained depends on what the window of the bus shows. -/
theorem BusReader.gather_congr {reader : BusReader}
    (h : after.view reader.bus.mapping = files.view reader.bus.mapping)
    (drains : List (Nat × Nat)) : reader.gather drains after = reader.gather drains files := by
  induction drains generalizing reader files after with
  | nil => rfl
  | cons turn drains ih =>
      obtain ⟨now, max⟩ := turn
      simp only [gather, drain, h]
      congr 1
      apply ih
      simp only [Files.view_commit_self]

theorem Bus.drainIn_of_not_ahead {n : Nat} {stride : Nat} {c : Cursor} {r : Region n}
    (h : ¬ Ahead stride c r) (timeout now max : Nat) :
    drainIn stride timeout now max c r = ([], c, r) := by
  have hstop : stride = 0 ∨ (limitIn r).toNat < c.position + stride :=
    Decidable.not_not.mp fun hgo => h (ahead_of_not hgo)
  have hlook : look stride timeout now c r = (.none c, r) := by rw [look, if_pos hstop]
  cases max with
  | zero => rfl
  | succ max => rw [drainIn, pollIn_of_none hlook]

/-- A bus whose limit leaves no room for a record answers nothing. -/
theorem BusReader.gather_of_not_ahead {reader : BusReader}
    (h : ¬ Bus.Ahead reader.bus.stride reader.cursor (files.view reader.bus.mapping))
    (drains : List (Nat × Nat)) : reader.gather drains files = [] := by
  induction drains generalizing files with
  | nil => rfl
  | cons turn drains ih =>
      obtain ⟨now, max⟩ := turn
      simp only [gather, drain, Bus.drainIn_of_not_ahead h, List.nil_append]
      apply ih
      rwa [Files.view_commit_self]

namespace BusConfig

variable (timeout : Nat) (drains : List (Nat × Nat))

/-- While the directories stay, a bus that could be opened once is drained through its window. -/
theorem gather_of_openFile
    (h : Bus.openFile bus.path bus.fileSize bus.recordSize before = .ok b opened)
    (hdirectories : files.directories = before.directories) :
    bus.gather timeout drains files = BusReader.gather ⟨b, timeout, .start⟩ drains files := by
  obtain ⟨again, hagain, hsame⟩ := Bus.openFile_again h hdirectories
  have hreader : BusReader.openFile bus.path bus.fileSize bus.recordSize timeout files =
      .ok ⟨b, timeout, .start⟩ again := Attempt.bind_of_ok hagain
  rw [gather, hreader]
  exact BusReader.gather_congr (hsame.view_eq _) drains

theorem gather_of_error {e : Error}
    (h : Bus.openFile bus.path bus.fileSize bus.recordSize files = .error e after) :
    bus.gather timeout drains files = [] := by
  have hreader : BusReader.openFile bus.path bus.fileSize bus.recordSize timeout files =
      .error e after := Attempt.bind_of_error h
  rw [gather, hreader]

/-- What can be drained is the same as long as no byte and no directory changes. -/
theorem gather_of_quiet (h : files.Quiet after) :
    bus.gather timeout drains after = bus.gather timeout drains files := by
  cases hopen : Bus.openFile bus.path bus.fileSize bus.recordSize files with
  | ok b opened =>
      rw [gather_of_openFile timeout drains hopen h.directories,
        gather_of_openFile timeout drains hopen rfl]
      exact BusReader.gather_congr (h.bytes.view_eq _) drains
  | error e failed =>
      cases hagain : Bus.openFile bus.path bus.fileSize bus.recordSize after with
      | ok b opened =>
          obtain ⟨_, hfirst, -⟩ := Bus.openFile_again hagain h.directories.symm
          cases hopen.symm.trans hfirst
      | error e' failed' =>
          rw [gather_of_error timeout drains hopen, gather_of_error timeout drains hagain]

end BusConfig

/-! ## Opening the bus -/

/-- Behind the header of a bus stands no record. -/
theorem Bus.not_ahead_of_le {n : Nat} {stride : Nat} {r : Region n}
    (h : (limitIn r).toNat ≤ headerSize) : ¬ Ahead stride .start r := by
  rintro ⟨hstride, hroom⟩
  have hpos := Nat.pos_of_ne_zero hstride
  have hstart : Cursor.start.position = headerSize := rfl
  omega

theorem Bus.limitIn_setLimit_le {n : Nat} (r : Region n) :
    (limitIn (setLimit r headerSize)).toNat ≤ headerSize := by
  by_cases hn : headerSize ≤ n
  · exact Nat.le_of_eq (limitIn_of_holds (setLimit_spec r headerSize hn).1 (by decide))
  · have hnone : (setLimit r headerSize).aligned? 8 0 = none := by
      have hshort : ¬ 0 + 8 ≤ n := by simpa [headerSize] using hn
      rw [Region.aligned?, if_pos rfl, Region.little?, Region.read?, if_neg hshort]
      rfl
    rw [limitIn, hnone]
    decide

namespace BusConfig

variable (timeout : Nat) (drains : List (Nat × Nat))

/-- Opening a bus that keeps its records changes nothing of what can be drained. -/
theorem gather_of_openWriter_append
    (h : Bus.openWriter bus.path bus.fileSize bus.recordSize true files = .ok b after) :
    bus.gather timeout drains after = bus.gather timeout drains files := by
  obtain ⟨_, hopen, hdirectories⟩ := Bus.openFile_of_openWriter h
  obtain ⟨l, opened, r, rfl, rfl, hquiet, hprepare⟩ := Bus.openWriter_eq_ok h
  rw [gather_of_openFile timeout drains hopen hdirectories,
    gather_of_openFile timeout drains hopen rfl]
  rcases Bus.prepareIn_append_cases hprepare with ⟨hzero, rfl⟩ | ⟨rfl, -⟩
  · rw [BusReader.gather_of_not_ahead, BusReader.gather_of_not_ahead]
    · apply Bus.not_ahead_of_le
      rw [← hquiet.bytes.view_eq, hzero]
      decide
    · apply Bus.not_ahead_of_le
      rw [Files.view_commit_self]
      exact Bus.limitIn_setLimit_le _
  · apply BusReader.gather_congr
    rw [Files.view_commit_self, hquiet.bytes.view_eq]

/-- Nothing can be drained from a bus that has been emptied. -/
theorem gather_of_openWriter_truncate
    (h : Bus.openWriter bus.path bus.fileSize bus.recordSize false files = .ok b after) :
    bus.gather timeout drains after = [] := by
  obtain ⟨_, hopen, hdirectories⟩ := Bus.openFile_of_openWriter h
  obtain ⟨l, opened, r, rfl, rfl, -, hprepare⟩ := Bus.openWriter_eq_ok h
  obtain ⟨cleared, -, rfl⟩ := Bus.exists_cleared_of_prepareIn hprepare
  rw [gather_of_openFile timeout drains hopen hdirectories]
  apply BusReader.gather_of_not_ahead
  apply Bus.not_ahead_of_le
  rw [Files.view_commit_self]
  exact Bus.limitIn_setLimit_le _

end BusConfig

/-! ## Opening a reader -/

namespace Reader

variable {σ : Type} {config : Config} {channel : Option (MissChannel σ)} {e : Error}

/-- Opening a reader empties the bus of its settings: they are valid and say that its records are
not to be kept, no channel is given in its place, and its file can be opened. -/
structure Empties (config : Config) (channel : Option (MissChannel σ)) (bus : BusConfig)
    (files : Files) : Prop where
  valid : config.validate = .ok ()
  own : channel = none
  truncates : bus.append = false
  opens : ∃ b opened, Bus.openFile bus.path bus.fileSize bus.recordSize files = .ok b opened

theorem not_empties_of_openWriter_error
    (h : Bus.openWriter bus.path bus.fileSize bus.recordSize bus.append files = .error e after) :
    ¬ Empties config channel bus files := by
  intro hempties
  obtain ⟨b, opened, hopen⟩ := hempties.opens
  rw [hempties.truncates] at h
  rcases Attempt.bind_eq_error_iff.mp h with hfail | ⟨b', opened', hagain, hrest⟩
  · cases hopen.symm.trans hfail
  rcases Attempt.bind_eq_error_iff.mp hrest with hprepare | ⟨_, _, -, hlast⟩
  · obtain ⟨r, hin, -⟩ := Mapping.attempt_eq_error_iff.mp hprepare
    obtain ⟨l, rfl, hg⟩ := Bus.openFile_eq_ok hagain
    exact Bool.false_ne_true (Bus.prepareIn_eq_error hg hin).2.1
  · cases hlast

/-- A bus that cannot be opened for writing has not been emptied, and keeps what can be drained. -/
theorem gather_of_openWriter_error
    (h : Bus.openWriter bus.path bus.fileSize bus.recordSize bus.append files = .error e after)
    (timeout : Nat) (drains : List (Nat × Nat)) :
    (¬ Empties config channel bus files →
        bus.gather timeout drains after = bus.gather timeout drains files) ∧
      (Empties config channel bus files → bus.gather timeout drains after = []) :=
  ⟨fun _ => BusConfig.gather_of_quiet timeout drains (Bus.quiet_of_openWriter h),
    fun hempties => absurd hempties (not_empties_of_openWriter_error h)⟩

/-- What can be drained once the channel has been opened. -/
theorem gather_of_openChannel {target : MissChannel σ} (hvalid : config.validate = .ok ())
    (hbus : config.missChannel = some bus)
    (h : openChannel config channel files = .ok target opened) (timeout : Nat)
    (drains : List (Nat × Nat)) :
    (¬ Empties config channel bus files →
        bus.gather timeout drains opened = bus.gather timeout drains files) ∧
      (Empties config channel bus files → bus.gather timeout drains opened = []) := by
  unfold openChannel at h
  cases channel with
  | some given =>
      cases h
      exact ⟨fun _ => rfl, fun hempties => nomatch hempties.own⟩
  | none =>
      rw [hbus] at h
      obtain ⟨b, _, hopen, hlast⟩ := Attempt.bind_eq_ok_iff.mp h
      cases hlast
      obtain ⟨_, hfile, -⟩ := Bus.openFile_of_openWriter hopen
      cases happend : bus.append with
      | true =>
          rw [happend] at hopen
          refine ⟨fun _ => BusConfig.gather_of_openWriter_append timeout drains hopen, ?_⟩
          intro hempties
          cases happend.symm.trans hempties.truncates
      | false =>
          rw [happend] at hopen
          refine ⟨fun hkept => absurd ⟨hvalid, rfl, happend, b, _, hfile⟩ hkept, fun _ => ?_⟩
          exact BusConfig.gather_of_openWriter_truncate timeout drains hopen

/-- If a reader cannot be opened, whatever could be drained from its bus before can be drained
after, unless the bus has been emptied on the way; then nothing can. -/
theorem gather_of_openWith_error (hbus : config.missChannel = some bus)
    (h : openWith config channel files = .error e after) (timeout : Nat)
    (drains : List (Nat × Nat)) :
    (¬ Empties config channel bus files →
        bus.gather timeout drains after = bus.gather timeout drains files) ∧
      (Empties config channel bus files → bus.gather timeout drains after = []) := by
  cases hvalid : config.validate with
  | error cause =>
      cases (openWith_of_invalid hvalid).symm.trans h
      refine ⟨fun _ => rfl, fun hempties => ?_⟩
      cases hvalid.symm.trans hempties.valid
  | ok u =>
      have hmoves (path : String) (size : Nat) := Files.moves_openMapping path size
      cases (openWith_eq_error_iff hvalid).mp h with
      | bus hnone hbus' hopen _ =>
          cases hbus.symm.trans hbus'
          exact gather_of_openWriter_error hopen timeout drains
      | stop hnone hbus' hstop =>
          cases hbus.symm.trans hbus'
          have hrecord := ((Config.validate_eq_ok_iff.mp hvalid).bus bus hbus).2.2
          exact gather_of_openWriter_error (BusConfig.openWriter_of_stops hrecord hstop) timeout
            drains
      | content hchannel hopen =>
          rw [BusConfig.gather_of_quiet timeout drains ((hmoves _ _).of_error hopen)]
          exact gather_of_openChannel hvalid hbus hchannel timeout drains
      | index hchannel hcontent hopen =>
          rw [BusConfig.gather_of_quiet timeout drains ((hmoves _ _).of_error hopen),
            BusConfig.gather_of_quiet timeout drains ((hmoves _ _).of_ok hcontent)]
          exact gather_of_openChannel hvalid hbus hchannel timeout drains

/-- Settings of a content file in a directory that is not there, and of a bus beside it. -/
def sampleAstray (append : Bool) : Config where
  index := ⟨"index", 64⟩
  content := ⟨"no/content", 64⟩
  missChannel := some { path := "mq", fileSize := 72, recordSize := 16, append }

/-- The files once a report has been sent through the bus. -/
def samplePending : Files :=
  (Attempt.perform (do
    let b ← Bus.openWriter "mq" 72 16 false
    b.send [0x6b, 0x65, 0x70, 0x74]) .empty).2

/-- The files once a reader of the settings could not be opened. -/
def sampleAfter (append : Bool) : Files :=
  ((openWith (sampleAstray append) (none : Option (MissChannel Unit))).perform samplePending).2

theorem gather_of_openWith_error_sample :
    ∃ bus, (sampleAstray true).missChannel = some bus ∧
      bus.gather 2000 [(0, 1)] (sampleAfter true) = [[0x6b, 0x65, 0x70, 0x74]] := by
  have hfail : openWith (sampleAstray true) (none : Option (MissChannel Unit)) samplePending =
      .error (.file .notFound) (sampleAfter true) := Attempt.eq_error_of_perform (by decide +kernel)
  have hkept := (gather_of_openWith_error rfl hfail 2000 [(0, 1)]).1
  refine ⟨_, rfl, (hkept fun hempties => nomatch hempties.truncates).trans ?_⟩
  decide +kernel

/-- A report is lost when a reader that does not keep the reports finds no place for its content. -/
theorem gather_of_truncating_error :
    ∃ bus, (sampleAstray false).missChannel = some bus ∧
      openWith (sampleAstray false) (none : Option (MissChannel Unit)) samplePending =
        .error (.file .notFound) (sampleAfter false) ∧
      bus.gather 2000 [(0, 1)] samplePending = [[0x6b, 0x65, 0x70, 0x74]] ∧
      bus.gather 2000 [(0, 1)] (sampleAfter false) = [] :=
  ⟨_, rfl, Attempt.eq_error_of_perform (by decide +kernel), by decide +kernel, by decide +kernel⟩

end Reader

end Columnlet

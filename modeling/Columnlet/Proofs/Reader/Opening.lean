import Columnlet.Proofs.Bus.Fifo
import Columnlet.Proofs.Index.Prefix
import Columnlet.Reader

/-! # Opening readers

A reader is opened in steps: its settings are checked, then its bus, its content file and its index
are opened. Settings that pass the check leave no fault but one of the files themselves. -/

namespace Columnlet

/-! ## Settings -/

namespace Config

/-- Settings in which nothing is missing or too small. -/
structure Valid (c : Config) : Prop where
  contentPath : c.content.path ≠ ""
  contentSize : 0 < c.content.size
  indexPath : c.index.path ≠ ""
  indexSize : Index.minSize ≤ c.index.size.toNat
  bus : ∀ bus, c.missChannel = some bus →
    bus.path ≠ "" ∧ 0 < bus.fileSize ∧ 0 < bus.recordSize

theorem insist_eq_ok_iff {condition : Bool} {cause : ConfigError} :
    insist condition cause = .ok () ↔ condition = true := by
  cases condition <;> simp [insist]

theorem insist_bind_eq_ok_iff {condition : Bool} {cause : ConfigError} {u : Unit}
    {rest : Except ConfigError Unit} :
    (insist condition cause >>= fun _ => rest) = .ok u ↔ condition = true ∧ rest = .ok u := by
  cases condition <;> simp [insist, bind, Except.bind]

theorem validate_eq_ok_iff {c : Config} : c.validate = .ok () ↔ c.Valid := by
  have hsize : Index.minSize ≤ c.index.size.toNat → 0 < c.index.size := by
    intro hroot
    rw [UInt64.lt_iff_toNat_lt]
    exact Nat.lt_of_lt_of_le (by decide) hroot
  simp only [validate, insist_bind_eq_ok_iff, decide_eq_true_eq]
  constructor
  · rintro ⟨hcontentPath, hcontentSize, hindexPath, -, hindexSize, hbus⟩
    refine ⟨hcontentPath, hcontentSize, hindexPath, hindexSize, ?_⟩
    intro bus hsome
    rw [hsome] at hbus
    simpa only [insist_bind_eq_ok_iff, insist_eq_ok_iff, decide_eq_true_eq] using hbus
  · intro h
    refine ⟨h.contentPath, h.contentSize, h.indexPath, hsize h.indexSize, h.indexSize, ?_⟩
    cases hbus : c.missChannel with
    | none => rfl
    | some bus =>
        simpa only [insist_bind_eq_ok_iff, insist_eq_ok_iff, decide_eq_true_eq] using h.bus bus hbus

end Config

/-! ## Buses -/

/-- Why a bus whose sizes are positive cannot be opened for writing: its file cannot be, there is
no room for a record whose end is a number of 64 bits, or its records are to be kept and its limit
does not stand between them. -/
inductive BusConfig.Fault (bus : BusConfig) : Error → Prop
  | file (cause : FileError) : bus.Fault (.file cause)
  | noRecord (hend : Bus.headerSize + Bus.strideOf bus.recordSize < UInt64.size)
      (hsmall : bus.fileSize.toNat < Bus.headerSize + Bus.strideOf bus.recordSize) :
      bus.Fault (.regionTooSmall bus.path (Bus.headerSize + Bus.strideOf bus.recordSize)
        bus.fileSize.toNat)
  | offGrid {limit : UInt64} (hkept : bus.append = true) (hset : limit ≠ 0)
      (hroom : Bus.headerSize + Bus.strideOf bus.recordSize ≤ bus.fileSize.toNat)
      (hlimit : limit.toNat < Bus.headerSize ∨ bus.fileSize.toNat < limit.toNat ∨
        (limit.toNat - Bus.headerSize) % Bus.strideOf bus.recordSize ≠ 0) :
      bus.Fault (.config (.limitOffGrid bus.path limit bus.recordSize))

variable {bus : BusConfig} {files after : Files} {e : Error}

/-- Opening a bus stops at a sum that is no number of 64 bits, once its file has been opened. -/
inductive BusConfig.Stops (bus : BusConfig) (files : Files) : Error → Files → Prop
  | overflow {mapping : Mapping} {after : Files} {cause : Overflow}
      (hmapping : Files.openMapping bus.path bus.fileSize.toNat files = .ok mapping after)
      (hwide : UInt64.size ≤ Bus.headerSize + Bus.strideOf bus.recordSize)
      (hsum : Bus.firstEnd bus.recordSize = .error (.overflow cause)) :
      bus.Stops files (.overflow cause) after

theorem BusConfig.fault_of_openFile (hfile : 0 < bus.fileSize) (hrecord : 0 < bus.recordSize)
    (h : Bus.openFile bus.path bus.fileSize bus.recordSize files = .error e after) :
    bus.Fault e ∨ bus.Stops files e after := by
  have hsize : bus.fileSize.toNat ≠ 0 := Nat.ne_of_gt (UInt64.lt_iff_toNat_lt.mp hfile)
  simp only [Bus.openFile] at h
  rw [if_neg (UInt64.pos_iff_ne_zero.mp hrecord)] at h
  rcases Attempt.bind_eq_error_iff.mp h with hmapping | ⟨m, opened, hmapping, hrest⟩
  · obtain ⟨cause, rfl⟩ := Files.openMapping_eq_error hsize hmapping
    exact .inl (.file cause)
  · obtain ⟨-, l, -, rfl, -⟩ := Files.openMapping_eq_ok_iff.mp hmapping
    rcases Attempt.bind_eq_error_iff.mp hrest with hchecked | ⟨_, _, -, hlast⟩
    · obtain ⟨hcheck, rfl⟩ := Attempt.ofExcept_eq_error_iff.mp hchecked
      rcases Bus.checkRoom_cases ⟨bus.path, l, bus.fileSize.toNat⟩ bus.recordSize with
        ⟨-, -, hroom⟩ | ⟨hend, hsmall, hfail⟩ | ⟨hwide, cause, hsum, hstop⟩
      · cases hroom.symm.trans hcheck
      · cases hfail.symm.trans hcheck
        exact .inl (.noRecord hend hsmall)
      · cases hstop.symm.trans hcheck
        exact .inr (.overflow hmapping hwide hsum)
    · cases hlast

theorem BusConfig.fault_of_openWriter (hfile : 0 < bus.fileSize) (hrecord : 0 < bus.recordSize)
    (h : Bus.openWriter bus.path bus.fileSize bus.recordSize bus.append files = .error e after) :
    bus.Fault e ∨ bus.Stops files e after := by
  rcases Attempt.bind_eq_error_iff.mp h with hopen | ⟨b, opened, hopen, hrest⟩
  · exact fault_of_openFile hfile hrecord hopen
  · obtain ⟨l, rfl, hg⟩ := Bus.openFile_eq_ok hopen
    rcases Attempt.bind_eq_error_iff.mp hrest with hprepare | ⟨_, _, -, hlast⟩
    · obtain ⟨r, hin, -⟩ := Mapping.attempt_eq_error_iff.mp hprepare
      obtain ⟨-, hkept, hset, hlimit, rfl⟩ := Bus.prepareIn_eq_error hg hin
      exact .inl (.offGrid hkept hset hg.room hlimit)
    · cases hlast

theorem BusConfig.openWriter_of_stops (hrecord : 0 < bus.recordSize) (h : bus.Stops files e after) :
    Bus.openWriter bus.path bus.fileSize bus.recordSize bus.append files = .error e after := by
  obtain @⟨m, opened, cause, hmapping, -, hsum⟩ := h
  have hcheck : Bus.checkRoom m bus.recordSize = .error (.overflow cause) := by
    rw [Bus.checkRoom, hsum]
    rfl
  refine Attempt.bind_of_error ?_
  rw [Bus.openFile, if_neg (UInt64.pos_iff_ne_zero.mp hrecord)]
  refine (Attempt.bind_of_ok hmapping).trans (Attempt.bind_of_error ?_)
  exact Attempt.ofExcept_eq_error_iff.mpr ⟨hcheck, rfl⟩

/-! ## The steps of opening -/

namespace Reader

variable {σ : Type} {config : Config} {channel : Option (MissChannel σ)}

/-- A step at which opening a reader of valid settings ends, and the files it leaves: the bus,
unless a channel is given, then the content file, then the index. At the bus it may end with an
error, or stop without one. -/
inductive Fails (config : Config) (channel : Option (MissChannel σ)) (files : Files) :
    Error → Files → Prop
  | bus {bus : BusConfig} {e : Error} {after : Files} (hnone : channel = none)
      (hbus : config.missChannel = some bus)
      (hopen : Bus.openWriter bus.path bus.fileSize bus.recordSize bus.append files =
        .error e after)
      (hfault : bus.Fault e) : Fails config channel files e after
  | stop {bus : BusConfig} {e : Error} {after : Files} (hnone : channel = none)
      (hbus : config.missChannel = some bus) (hstop : bus.Stops files e after) : Fails config channel files e after
  | content {target : MissChannel σ} {opened after : Files} {cause : FileError}
      (hchannel : openChannel config channel files = .ok target opened)
      (hopen : Files.openMapping config.content.path config.content.size.toNat opened =
        .error (.file cause) after) : Fails config channel files (.file cause) after
  | index {target : MissChannel σ} {content : Mapping} {opened mapped after : Files}
      {cause : FileError} (hchannel : openChannel config channel files = .ok target opened)
      (hcontent : Files.openMapping config.content.path config.content.size.toNat opened =
        .ok content mapped)
      (hopen : Files.openMapping config.index.path config.index.size.toNat mapped =
        .error (.file cause) after) : Fails config channel files (.file cause) after

theorem openChannel_eq_error_iff :
    openChannel config channel files = .error e after ↔
      channel = none ∧ ∃ bus, config.missChannel = some bus ∧
        Bus.openWriter bus.path bus.fileSize bus.recordSize bus.append files = .error e after := by
  unfold openChannel
  cases channel with
  | some given =>
      constructor
      · intro h
        cases h
      · rintro ⟨hnone, -⟩
        cases hnone
  | none =>
      cases config.missChannel with
      | none =>
          constructor
          · intro h
            cases h
          · rintro ⟨-, bus, hbus, -⟩
            cases hbus
      | some bus =>
          rw [Attempt.bind_eq_error_iff]
          constructor
          · rintro (hopen | ⟨b, opened, -, hlast⟩)
            · exact ⟨rfl, bus, rfl, hopen⟩
            · cases hlast
          · rintro ⟨-, bus', hbus, hopen⟩
            cases hbus
            exact .inl hopen

/-- Whatever has been opened as an index of valid settings makes a reader. -/
theorem ofParts_of_le {index : Index} (h : Index.minSize ≤ index.mapping.size) (content : Content)
    (target : MissChannel σ) : ofParts index content target = .ok ⟨index, content, target⟩ := by
  have hroom : Header.width ≤ index.mapping.size := Nat.le_trans (by decide) h
  rw [ofParts, Coordinator.ofMapping, Mapping.require_eq_ok_iff.mpr hroom,
    Mapping.requireWord_of_le rfl (Nat.le_trans (by decide) hroom),
    Mapping.requireWord_of_le rfl hroom]
  rfl

theorem openWith_of_invalid {cause : ConfigError} (h : config.validate = .error cause) :
    openWith config channel files = .error (.config cause) files := by
  rw [openWith, h]
  exact Attempt.bind_of_error rfl

/-- Opening a reader of valid settings, as far as it can fail. -/
theorem openWith_eq_error_iff (h : config.validate = .ok ()) :
    openWith config channel files = .error e after ↔ Fails config channel files e after := by
  have hvalid := Config.validate_eq_ok_iff.mp h
  have hcontentSize : config.content.size.toNat ≠ 0 :=
    Nat.ne_of_gt (UInt64.lt_iff_toNat_lt.mp hvalid.contentSize)
  have hindexSize : config.index.size.toNat ≠ 0 :=
    Nat.ne_of_gt (Nat.lt_of_lt_of_le (by decide) hvalid.indexSize)
  have hchecked : (Attempt.ofExcept (config.validate.mapError .config) : Attempt Files Unit)
      files = .ok () files := by
    rw [h]
    rfl
  rw [openWith, Attempt.bind_of_ok hchecked]
  constructor
  · intro hfail
    rcases Attempt.bind_eq_error_iff.mp hfail with hchannel | ⟨target, opened, hchannel, hfail⟩
    · obtain ⟨hnone, bus, hbus, hopen⟩ := openChannel_eq_error_iff.mp hchannel
      obtain ⟨-, hfile, hrecord⟩ := hvalid.bus bus hbus
      rcases BusConfig.fault_of_openWriter hfile hrecord hopen with hfault | hstop
      · exact .bus hnone hbus hopen hfault
      · exact .stop hnone hbus hstop
    rcases Attempt.bind_eq_error_iff.mp hfail with hcontent | ⟨content, mapped, hcontent, hfail⟩
    · obtain ⟨cause, rfl⟩ := Files.openMapping_eq_error hcontentSize hcontent
      exact .content hchannel hcontent
    rcases Attempt.bind_eq_error_iff.mp hfail with hindex | ⟨m, last, hindex, hfail⟩
    · obtain ⟨cause, rfl⟩ := Files.openMapping_eq_error hindexSize hindex
      exact .index hchannel hcontent hindex
    -- A window of the size of a valid index passes the checks that remain.
    obtain ⟨-, l, -, rfl, -⟩ := Files.openMapping_eq_ok_iff.mp hindex
    rw [Attempt.bind_of_ok (Attempt.ofExcept_eq_ok_iff.mpr
      ⟨Index.ofMapping_of_le hvalid.indexSize config.format, rfl⟩)] at hfail
    obtain ⟨hmade, -⟩ := Attempt.ofExcept_eq_error_iff.mp hfail
    rw [ofParts_of_le hvalid.indexSize] at hmade
    cases hmade
  · intro hfails
    refine Attempt.bind_eq_error_iff.mpr ?_
    cases hfails with
    | bus hnone hbus hopen _ =>
        exact .inl (openChannel_eq_error_iff.mpr ⟨hnone, _, hbus, hopen⟩)
    | stop hnone hbus hstop =>
        have hopen := BusConfig.openWriter_of_stops (hvalid.bus _ hbus).2.2 hstop
        exact .inl (openChannel_eq_error_iff.mpr ⟨hnone, _, hbus, hopen⟩)
    | content hchannel hopen => exact .inr ⟨_, _, hchannel, Attempt.bind_of_error hopen⟩
    | index hchannel hcontent hopen =>
        refine .inr ⟨_, _, hchannel, ?_⟩
        rw [Attempt.bind_of_ok hcontent]
        exact Attempt.bind_of_error hopen

/-- The settings are checked before anything else: while they have a fault, opening a reader tells
that fault and leaves all files as they are. Once they have none, opening fails only if a file
cannot be opened, or if the bus has no room for a record or has its limit off its records, and stops
only if the end of a record of the bus is no number of 64 bits; whatever else is checked on the way,
passes. -/
theorem openWith_outcome (config : Config) (channel : Option (MissChannel σ)) (files : Files) :
    match config.validate with
    | .error cause => openWith config channel files = .error (.config cause) files
    | .ok () => ∀ e after,
        openWith config channel files = .error e after ↔ Fails config channel files e after := by
  split
  case h_1 cause hfault => exact openWith_of_invalid hfault
  case h_2 hvalid => exact fun e after => openWith_eq_error_iff hvalid

/-- Valid settings of a bus whose first record would end at 2 to the power of 64. -/
def sampleEndless : Config where
  index := ⟨"index", 64⟩
  content := ⟨"content", 64⟩
  missChannel := some { path := "mq", fileSize := 4, recordSize := 18446744073709551596 }

/-- Such settings pass the check, but opening a reader does not come to tell that the bus has no
room for a record: it stops, and the file of the bus is there. -/
theorem openWith_of_endless :
    sampleEndless.validate = .ok () ∧
      (∃ after, openWith sampleEndless (none : Option (MissChannel Unit)) .empty =
          .error (.overflow .add) after ∧
        after.get? ["mq"] = some { length := 4 }) ∧
      ∀ bus, sampleEndless.missChannel = some bus → ¬ bus.Fault (.overflow .add) := by
  refine ⟨rfl, ⟨_, Attempt.eq_error_of_perform (by decide +kernel), by decide +kernel⟩, ?_⟩
  rintro bus - hfault
  cases hfault

end Reader

end Columnlet

import Columnlet.Proofs.Bus.Fifo
import Columnlet.Proofs.Key
import Columnlet.Proofs.Reader.Read

/-! # Misses on a bus

A reader that reports its misses to a bus in a file of its own puts the key of every miss there
until the bus is full, in the order of the reads; every later miss is counted as a report that
failed. -/

namespace Columnlet

open Files (Kept)

/-! ## One read -/

/-- No miss has been counted, and no failure to report one. -/
structure Counters.SameMisses (c after : Counters) : Prop where
  misses : after.misses = c.misses
  failures : after.missReportFailures = c.missReportFailures

namespace Reader

variable {σ : Type}

/-- How the answer to a read bears on a file that is not of the index or the content: it reports a
miss, and does nothing else to it. -/
theorem answer_reports (reader : Reader σ) (key : Key) (s : ReadState σ) {l : Location}
    (hindex : l ≠ reader.index.mapping.location) (hcontent : l ≠ reader.content.mapping.location) :
    ((reader.answer key s).1 ≠ .miss ∧ s.files.Kept l (reader.answer key s).2.files ∧
      s.counters.SameMisses (reader.answer key s).2.counters) ∨
    (reader.answer key s).1 = .miss ∧ ∃ inside, s.files.Kept l inside.files ∧
      s.counters.SameMisses inside.counters ∧
      (reader.answer key s).2 = reader.reportMiss key inside := by
  unfold answer
  cases reader.index.tryLookup s.files key.toBytes with
  | error e =>
      exact .inr ⟨rfl, { s with counters := s.counters.malform }, .refl .., ⟨rfl, rfl⟩, rfl⟩
  | ok found =>
      cases found with
      | none => exact .inr ⟨rfl, s, .refl .., ⟨rfl, rfl⟩, rfl⟩
      | some locator =>
          have hread := Files.kept_attempt hcontent
            (Content.readIn reader.content.format locator)
          simp only [Content.read]
          cases hcopy : reader.content.mapping.attempt
              (Content.readIn reader.content.format locator) s.files with
          | error e files =>
              exact .inr ⟨rfl, { s with files, counters := s.counters.malform },
                hread.of_error hcopy, ⟨rfl, rfl⟩, rfl⟩
          | ok payload files =>
              refine .inl ⟨by simp, (hread.of_ok hcopy).trans ?_, ⟨rfl, rfl⟩⟩
              simp only [Index.recordAccess]
              split
              · exact .refl ..
              · exact Files.kept_commit hindex _ _

theorem read_reports (reader : Reader σ) (key : Key) (s : ReadState σ) {l : Location}
    (hindex : l ≠ reader.index.mapping.location) (hcontent : l ≠ reader.content.mapping.location) :
    ((reader.read key s).1 ≠ .miss ∧ s.files.Kept l (reader.read key s).2.files ∧
      s.counters.SameMisses (reader.read key s).2.counters) ∨
    (reader.read key s).1 = .miss ∧ ∃ inside, s.files.Kept l inside.files ∧
      s.counters.SameMisses inside.counters ∧
      (reader.reportMiss key inside).files.Kept l (reader.read key s).2.files ∧
      (reader.read key s).2.counters = (reader.reportMiss key inside).counters := by
  cases hent : (reader.coordinator.state s.files).enter with
  | error reason =>
      rw [read_of_refused hent]
      exact .inl ⟨by simp, .refl .., by cases reason <;> exact ⟨rfl, rfl⟩⟩
  | ok h' =>
      have henter : s.files.Kept l (reader.coordinator.update (fun _ => h') s.files) :=
        Files.kept_commit hindex _ _
      have hleave (files : Files) : files.Kept l (reader.coordinator.leave files) :=
        Files.kept_commit hindex _ _
      rw [read_of_enter hent]
      rcases reader.answer_reports key
          { s with files := reader.coordinator.update (fun _ => h') s.files } hindex hcontent with
        ⟨hout, hkept, hsame⟩ | ⟨hout, inside, hkept, hsame, hreport⟩
      · exact .inl ⟨hout, (henter.trans hkept).trans (hleave _), hsame⟩
      · refine .inr ⟨hout, inside, henter.trans hkept, hsame, ?_, by rw [hreport]⟩
        rw [hreport]
        exact hleave _

end Reader

/-! ## Keys on a bus -/

namespace Bus

/-- How many keys a bus can hold: none if its records are too small for a key. -/
def keyCapacity (b : Bus) : Nat := if Key.width ≤ b.recordSize.toNat then b.capacity else 0

theorem verdict_key (b : Bus) (held : Nat) (key : Key) :
    b.verdict held key.toBytes = .ok () ↔ held < b.keyCapacity := by
  rw [verdict, keyCapacity, key.length_toBytes]
  by_cases hsmall : b.recordSize.toNat < Key.width
  · have hnot : ¬ Key.width ≤ b.recordSize.toNat := by omega
    simp [hsmall, hnot]
  · have hle : Key.width ≤ b.recordSize.toNat := by omega
    by_cases hroom : held < b.capacity <;> simp [hsmall, hle, hroom]

/-- The records of keys are short. -/
theorem length_lt_of_mem_keys {keys : List Key} {payload : Bytes}
    (h : payload ∈ keys.map Key.toBytes) : payload.length < UInt32.size := by
  obtain ⟨key, -, rfl⟩ := List.mem_map.mp h
  rw [key.length_toBytes]
  decide

end Bus

/-! ## Runs -/

/-- A reader in a run: its state, and the keys that it has missed so far. -/
structure MissLog (σ : Type) where
  state : ReadState σ
  missed : List Key

namespace MissLog

variable {σ : Type}

/-- The log after one more read. -/
def read (reader : Reader σ) (key : Key) (log : MissLog σ) : MissLog σ where
  state := (reader.read key log.state).2
  missed := log.missed ++ if (reader.read key log.state).1 = .miss then [key] else []

/-- The steps of a run: any key is read, or any file but the one at a given location is
rewritten. -/
inductive Step (reader : Reader σ) (l : Location) : MissLog σ → MissLog σ → Prop
  | read {log : MissLog σ} (key : Key) : Step reader l log (log.read reader key)
  | rewrite {log : MissLog σ} (place : Location) (file : File) (apart : l ≠ place) :
      Step reader l log
        { log with state := { log.state with files := log.state.files.put place file } }

/-- What a reader can come to that has not read anything yet. -/
inductive Reached (reader : Reader σ) (l : Location) (opened : Files) : MissLog σ → Prop
  | start (own : σ) : Reached reader l opened ⟨⟨opened, {}, own⟩, []⟩
  | step {log next : MissLog σ} (before : Reached reader l opened log)
      (step : Step reader l log next) : Reached reader l opened next

/-- The bus holds the first keys that were missed, and the others are counted as failures. -/
structure Inv (b : Bus) (opened : Files) (log : MissLog σ) : Prop where
  queued : Bus.Queued (log.state.files.region b.mapping.location b.mapping.size) b.recordSize
    ((log.missed.take b.keyCapacity).map Key.toBytes)
  directories : log.state.files.directories = opened.directories
  misses : log.state.counters.misses = .ofNat log.missed.length
  failures : log.state.counters.missReportFailures =
    .ofNat (log.missed.length - b.keyCapacity)

variable {reader : Reader σ} {path : String} {l : Location} {fileSize recordSize : UInt64}
  {opened files : Files} {log : MissLog σ} {b : Bus}

theorem Inv.of_kept (h : log.Inv b opened) (hkept : log.state.files.Kept b.mapping.location files)
    {counters : Counters} (hsame : log.state.counters.SameMisses counters) (own : σ) :
    Inv b opened ⟨⟨files, counters, own⟩, log.missed⟩ := by
  refine ⟨?_, hkept.directories.trans h.directories, hsame.misses.trans h.misses,
    hsame.failures.trans h.failures⟩
  rw [hkept.region_eq]
  exact h.queued

/-- A report of a miss to a bus. -/
theorem reportMiss_bus (hchannel : reader.channel = .bus b) (key : Key) (s : ReadState σ) :
    reader.reportMiss key s =
      match b.send key.toBytes s.files with
      | .ok _ files => { s with files, counters := s.counters.miss }
      | .error _ files => { s with files, counters := s.counters.miss.reportFailure } := by
  unfold Reader.reportMiss MissChannel.report
  rw [hchannel]
  simp only [MissChannel.bus]
  cases b.send key.toBytes s.files <;> rfl

theorem ofNat_length_snoc (keys : List Key) (key : Key) :
    UInt64.ofNat (keys ++ [key]).length = UInt64.ofNat keys.length + 1 := by
  rw [List.length_append, List.length_singleton, UInt64.ofNat_add]
  rfl

/-- A miss of which the key has joined the queue on the bus. -/
theorem Inv.accept (h : log.Inv b opened) {key : Key}
    (hroom : log.missed.length < b.keyCapacity)
    (hqueued : Bus.Queued (files.region b.mapping.location b.mapping.size) b.recordSize
      ((log.missed.take b.keyCapacity).map Key.toBytes ++ [key.toBytes]))
    (hdirectories : files.directories = log.state.files.directories) (own : σ) :
    Inv b opened ⟨⟨files, log.state.counters.miss, own⟩, log.missed ++ [key]⟩ := by
  have hlength : (log.missed ++ [key]).length = log.missed.length + 1 := by simp
  refine ⟨?_, hdirectories.trans h.directories, ?_, ?_⟩
  · rw [List.take_of_length_le (Nat.le_of_lt hroom)] at hqueued
    rw [List.take_of_length_le (by rw [hlength]; omega), List.map_append]
    exact hqueued
  · rw [ofNat_length_snoc, ← h.misses]
    rfl
  · have hnone : (log.missed ++ [key]).length - b.keyCapacity =
        log.missed.length - b.keyCapacity := by
      rw [hlength]
      omega
    rw [hnone, ← h.failures]
    rfl

/-- A miss that the bus has no room for. -/
theorem Inv.refuse (h : log.Inv b opened) (key : Key) (hfull : b.keyCapacity ≤ log.missed.length)
    (hkept : log.state.files.Kept b.mapping.location files) (own : σ) :
    Inv b opened ⟨⟨files, log.state.counters.miss.reportFailure, own⟩, log.missed ++ [key]⟩ := by
  have hlength : (log.missed ++ [key]).length = log.missed.length + 1 := by simp
  refine ⟨?_, hkept.directories.trans h.directories, ?_, ?_⟩
  · rw [List.take_append_of_le_length hfull, hkept.region_eq]
    exact h.queued
  · rw [ofNat_length_snoc, ← h.misses]
    rfl
  · have hnext : (log.missed ++ [key]).length - b.keyCapacity =
        log.missed.length - b.keyCapacity + 1 := by
      rw [hlength]
      omega
    rw [hnext, UInt64.ofNat_add, ← h.failures]
    rfl

/-- A miss that is reported adds its key to the bus while there is room, and a failure else. -/
theorem Inv.reportMiss (hg : Bus.Grid fileSize.toNat recordSize)
    (hchannel : reader.channel = .bus ⟨⟨path, l, fileSize.toNat⟩, recordSize⟩)
    (h : log.Inv ⟨⟨path, l, fileSize.toNat⟩, recordSize⟩ opened) (key : Key) :
    Inv ⟨⟨path, l, fileSize.toNat⟩, recordSize⟩ opened
      ⟨reader.reportMiss key log.state, log.missed ++ [key]⟩ := by
  have hsent := Bus.directories_send ⟨⟨path, l, fileSize.toNat⟩, recordSize⟩ key.toBytes
  have hverdict := Bus.verdict_key ⟨⟨path, l, fileSize.toNat⟩, recordSize⟩
    ((log.missed.take (Bus.keyCapacity ⟨⟨path, l, fileSize.toNat⟩, recordSize⟩)).map
      Key.toBytes).length key
  rw [reportMiss_bus hchannel]
  rcases Bus.send_cases (l := l) path hg h.queued.limit key.toBytes with
    ⟨e, after, hsend, hrefused, hsame⟩ | ⟨after, hsend, hadmitted, haccepted⟩
  · rw [hrefused, List.length_map, List.length_take] at hverdict
    have hfull : ¬ min _ _ < _ := mt hverdict.mpr (by simp)
    rw [hsend]
    exact h.refuse key (by omega) ⟨hsame l, hsent.of_error hsend⟩ _
  · have hroom := hverdict.mp hadmitted
    rw [List.length_map, List.length_take] at hroom
    rw [hsend]
    exact h.accept (by omega) (h.queued.snoc haccepted) (hsent.of_ok hsend) _

theorem Inv.step {next : MissLog σ} (hg : Bus.Grid fileSize.toNat recordSize)
    (hchannel : reader.channel = .bus ⟨⟨path, l, fileSize.toNat⟩, recordSize⟩)
    (hindex : l ≠ reader.index.mapping.location) (hcontent : l ≠ reader.content.mapping.location)
    (h : log.Inv ⟨⟨path, l, fileSize.toNat⟩, recordSize⟩ opened)
    (hstep : Step reader l log next) :
    next.Inv ⟨⟨path, l, fileSize.toNat⟩, recordSize⟩ opened := by
  cases hstep with
  | read key =>
      rcases reader.read_reports key log.state hindex hcontent with
        ⟨hout, hkept, hsame⟩ | ⟨hout, inside, hinside, hsame, hkept, hcounters⟩
      · have hread := h.of_kept hkept hsame (reader.read key log.state).2.own
        rw [read, if_neg hout, List.append_nil]
        exact hread
      · have hmiss := (h.of_kept hinside hsame inside.own).reportMiss hg hchannel key
        have hread := hmiss.of_kept hkept ⟨rfl, rfl⟩ (reader.read key log.state).2.own
        rw [read, if_pos hout]
        rw [← hcounters] at hread
        exact hread
  | rewrite place file apart =>
      exact h.of_kept (Files.kept_put apart _ _) ⟨rfl, rfl⟩ log.state.own

theorem Reached.inv (hg : Bus.Grid fileSize.toNat recordSize)
    (hchannel : reader.channel = .bus ⟨⟨path, l, fileSize.toNat⟩, recordSize⟩)
    (hindex : l ≠ reader.index.mapping.location) (hcontent : l ≠ reader.content.mapping.location)
    (hempty : Bus.Queued (opened.region l fileSize.toNat) recordSize [])
    (h : Reached reader l opened log) :
    log.Inv ⟨⟨path, l, fileSize.toNat⟩, recordSize⟩ opened := by
  induction h with
  | start own =>
      refine ⟨?_, rfl, rfl, by simp⟩
      rw [List.take_nil]
      exact hempty
  | step _ hstep ih => exact ih.step hg hchannel hindex hcontent hstep

/-- In every run, a reader that reports to a bus of its own, emptied before, puts the keys of its
first misses there, as many as the bus can hold, and counts a failure for each of the others: a bus
reader that is opened then drains exactly these keys, in the order of the reads. A bus with records
too small for a key stays empty. -/
theorem drain_of_reached {before : Files}
    (hopen : Bus.openWriter path fileSize recordSize false before = .ok b opened)
    (hchannel : reader.channel = .bus b)
    (hindex : b.mapping.location ≠ reader.index.mapping.location)
    (hcontent : b.mapping.location ≠ reader.content.mapping.location)
    (h : Reached reader b.mapping.location opened log) :
    b.size log.state.files = .ok (min b.keyCapacity log.missed.length) ∧
      log.state.counters.misses = .ofNat log.missed.length ∧
      log.state.counters.missReportFailures = .ofNat (log.missed.length - b.keyCapacity) ∧
      ∀ timeout, ∃ bus after,
        BusReader.openFile path fileSize recordSize timeout log.state.files = .ok bus after ∧
        ∀ now max,
          (bus.drain now max after).1 =
            ((log.missed.take b.keyCapacity).map Key.toBytes).take max ∧
          (bus.drain now max after).1.map Key.ofBytes? =
            ((log.missed.take b.keyCapacity).map some).take max := by
  obtain ⟨place, hfile, hdirectories⟩ := Bus.openFile_of_openWriter hopen
  have hg := Bus.grid_of_openWriter hopen
  obtain ⟨hb, hempty⟩ := Bus.queued_of_openWriter_empty hg hopen rfl
  generalize b.mapping.location = l at *
  subst hb
  have hinv := h.inv hg hchannel hindex hcontent hempty
  refine ⟨?_, hinv.misses, hinv.failures, ?_⟩
  · refine (Bus.size_of_limit hinv.queued.limit).trans ?_
    rw [List.length_map, List.length_take]
  · intro timeout
    obtain ⟨after, hagain, hsame⟩ :=
      Bus.openFile_again hfile (hinv.directories.trans hdirectories)
    refine ⟨_, after, Attempt.bind_of_ok hagain, ?_⟩
    intro now max
    have hqueued := hinv.queued
    rw [← hsame.region_eq] at hqueued
    have hdrain := Bus.drainIn_spec timeout now max hqueued
      (fun payload hmem => Bus.length_lt_of_mem_keys hmem) (c := .start) (i := 0)
      (by simp [Cursor.start, Bus.slotAt])
    rw [List.drop_zero] at hdrain
    refine ⟨hdrain, (congrArg (List.map Key.ofBytes?) hdrain).trans ?_⟩
    rw [List.map_take, List.map_map]
    congr 2
    funext key
    exact key.ofBytes?_toBytes

/-- A reader of an empty index, which reports to a bus with room for one key. -/
def sampleReader : Reader Unit where
  index := ⟨⟨"index", ["index"], 18⟩, .current⟩
  content := ⟨⟨"content", ["content"], 8⟩, .current⟩
  channel := .bus ⟨⟨"bus", ["bus"], 40⟩, 16⟩

/-- The files once the bus has been opened for writing. -/
def sampleOpened : Files := ((Bus.openWriter "bus" 40 16 false).perform .empty).2

theorem drain_of_reached_sample :
    ∃ log, Reached sampleReader ["bus"] sampleOpened log ∧
      log.missed = [⟨1, 2, 3⟩, ⟨4, 5, 6⟩] ∧ log.state.counters.missReportFailures = 1 ∧
      ∃ bus after, BusReader.openFile "bus" 40 16 0 log.state.files = .ok bus after ∧
        (bus.drain 0 5 after).1 = [Key.toBytes ⟨1, 2, 3⟩] := by
  have hopen : Bus.openWriter "bus" 40 16 false .empty =
      .ok ⟨⟨"bus", ["bus"], 40⟩, 16⟩ sampleOpened := Attempt.eq_ok_of_perform (by decide +kernel)
  have hrun : Reached sampleReader ["bus"] sampleOpened _ :=
    ((Reached.start ()).step (.read ⟨1, 2, 3⟩)).step (.read ⟨4, 5, 6⟩)
  obtain ⟨-, -, hfailures, hdrain⟩ :=
    drain_of_reached hopen rfl (by decide) (by decide) hrun
  obtain ⟨bus, after, hagain, hanswer⟩ := hdrain 0
  have hmissed : (((MissLog.mk ⟨sampleOpened, {}, ()⟩ []).read sampleReader ⟨1, 2, 3⟩).read
      sampleReader ⟨4, 5, 6⟩).missed = [⟨1, 2, 3⟩, ⟨4, 5, 6⟩] := by decide +kernel
  rw [hmissed] at hfailures hanswer
  exact ⟨_, hrun, hmissed, hfailures, bus, after, hagain, (hanswer 0 5).1⟩

end MissLog

end Columnlet

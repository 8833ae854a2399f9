import Columnlet.Index.Builder
import Columnlet.Proofs.Reader.Read

/-! # The accounts of reads

Every read is counted once, by what it comes to; it reports its key exactly when it misses; and
besides the count of accesses of what it serves it leaves every byte as it was. Nothing is assumed
of what the regions hold. -/

namespace Columnlet

variable {σ : Type}

/-! ## Keeping a record of what a channel is sent -/

/-- A payload that a channel was sent, and whether it refused it. -/
structure Sent where
  payload : Bytes
  refused : Bool
  deriving DecidableEq, Repr

/-- A channel that keeps a record of what another one is sent, and does what that one does. -/
def MissChannel.recorded (channel : MissChannel σ) : MissChannel (List Sent × σ) where
  send payload := fun (files, record, own) =>
    match channel.send payload (files, own) with
    | .ok x (files, own) => .ok x (files, record ++ [⟨payload, false⟩], own)
    | .error e (files, own) => .error e (files, record ++ [⟨payload, true⟩], own)

/-- A reader with a record of what its channel is sent. -/
def Reader.recorded (reader : Reader σ) : Reader (List Sent × σ) where
  index := reader.index
  content := reader.content
  channel := reader.channel.recorded

namespace ReadState

/-- A state with a record of what the channel was sent. -/
def withRecord (s : ReadState σ) (record : List Sent) : ReadState (List Sent × σ) where
  files := s.files
  counters := s.counters
  own := (record, s.own)

/-- A state without its record. -/
def withoutRecord (s : ReadState (List Sent × σ)) : ReadState σ where
  files := s.files
  counters := s.counters
  own := s.own.2

end ReadState

theorem MissChannel.Spares.recorded {channel : MissChannel σ} {l : Location}
    (h : channel.Spares l) : channel.recorded.Spares l := by
  rintro payload ⟨files, record, own⟩
  have hplain := h payload (files, own)
  simp only [Attempt.perform, EStateM.run, MissChannel.recorded] at hplain ⊢
  cases hsend : channel.send payload (files, own) <;> simp only [hsend] at hplain ⊢ <;> exact hplain

/-! ## What a read adds to the counts -/

namespace Counters

/-- The count of all reads. -/
def reads (c : Counters) : UInt64 := c.hits + c.misses + c.unavailable

/-- The counts before and after a read of an outcome, which met malformed data or not, and of which
the report was refused or not. -/
structure Tallied (c after : Counters) (outcome : Outcome) (malformed refused : Bool) : Prop where
  hits : after.hits = c.hits + if outcome.isHit then 1 else 0
  misses : after.misses = c.misses + if outcome = .miss then 1 else 0
  unavailable : after.unavailable =
    c.unavailable + if outcome.isHit ∨ outcome = .miss then 0 else 1
  bytesServed : after.bytesServed = c.bytesServed + .ofNat outcome.payload.length
  malformed : after.malformed = c.malformed + if malformed then 1 else 0
  failures : after.missReportFailures = c.missReportFailures + if refused then 1 else 0

theorem tallied_hit (c : Counters) (payload : Bytes) :
    Tallied c (c.hit payload.length) (.hit payload) false false := by
  constructor <;> simp [hit, unavailable, Outcome.isHit, Outcome.payload]

theorem tallied_refuse (c : Counters) (reason : Refusal) :
    Tallied c (c.refuse reason) (.unavailable reason) false false := by
  cases reason <;> constructor <;>
    simp [refuse, unavailable, Outcome.isHit, Outcome.payload, UInt64.add_assoc, UInt64.add_comm 1]

theorem tallied_miss (c : Counters) (malformed refused : Bool) :
    Tallied c (if refused then (if malformed then c.malform else c).miss.reportFailure
      else (if malformed then c.malform else c).miss) .miss malformed refused := by
  cases malformed <;> cases refused <;> constructor <;>
    simp [miss, malform, reportFailure, unavailable, Outcome.isHit, Outcome.payload]

theorem Tallied.reads {c after : Counters} {outcome : Outcome} {malformed refused : Bool}
    (h : Tallied c after outcome malformed refused) : after.reads = c.reads + 1 := by
  rw [Counters.reads, Counters.reads, h.hits, h.misses, h.unavailable]
  cases outcome <;> simp [Outcome.isHit] <;> ac_rfl

end Counters

namespace Reader

theorem Apart.recorded {reader : Reader σ} (h : reader.Apart) : reader.recorded.Apart :=
  ⟨h.room, h.layout, h.files, h.sparesIndex.recorded, h.sparesContent.recorded⟩

theorem withoutRecord_reportMiss (reader : Reader σ) (key : Key)
    (s : ReadState (List Sent × σ)) :
    (reader.recorded.reportMiss key s).withoutRecord =
      reader.reportMiss key s.withoutRecord := by
  obtain ⟨files, counters, record, own⟩ := s
  unfold reportMiss MissChannel.report
  simp only [Reader.recorded, MissChannel.recorded, ReadState.withoutRecord]
  cases reader.channel.send key.toBytes (files, own) <;> rfl

theorem withoutRecord_answer (reader : Reader σ) (key : Key) (s : ReadState (List Sent × σ)) :
    (reader.recorded.answer key s).1 = (reader.answer key s.withoutRecord).1 ∧
      (reader.recorded.answer key s).2.withoutRecord =
        (reader.answer key s.withoutRecord).2 := by
  have hreport := withoutRecord_reportMiss reader key
  simp only [answer]
  rw [show reader.recorded.index = reader.index from rfl,
    show reader.recorded.content = reader.content from rfl,
    show s.withoutRecord.files = s.files from rfl,
    show s.withoutRecord.counters = s.counters from rfl]
  cases reader.index.tryLookup s.files key.toBytes with
  | error e => exact ⟨rfl, hreport _⟩
  | ok found =>
      cases found with
      | none => exact ⟨rfl, hreport _⟩
      | some l =>
          simp only
          cases reader.content.read l s.files with
          | error e files => exact ⟨rfl, hreport _⟩
          | ok payload files => exact ⟨rfl, rfl⟩

/-- Keeping a record changes nothing else. -/
theorem withoutRecord_read (reader : Reader σ) (key : Key) (s : ReadState (List Sent × σ)) :
    (reader.recorded.read key s).1 = (reader.read key s.withoutRecord).1 ∧
      (reader.recorded.read key s).2.withoutRecord = (reader.read key s.withoutRecord).2 := by
  simp only [read]
  rw [show reader.recorded.coordinator = reader.coordinator from rfl,
    show s.withoutRecord.files = s.files from rfl]
  cases reader.coordinator.enter s.files with
  | error reason => exact ⟨rfl, rfl⟩
  | ok files =>
      obtain ⟨houtcome, hstate⟩ := withoutRecord_answer reader key { s with files }
      refine ⟨houtcome, ?_⟩
      have hfiles := congrArg ReadState.files hstate
      have hcounters := congrArg ReadState.counters hstate
      have hown := congrArg ReadState.own hstate
      simp only [ReadState.withoutRecord] at hfiles hcounters hown ⊢
      rw [hfiles, hcounters, hown]

/-! ## The account of one read -/

/-- The data for a key cannot be used: the lookup fails, or the copy of the payload does. -/
def Malformed (reader : Reader σ) (key : Key) (files : Files) : Prop :=
  (∃ e, reader.index.tryLookup files key.toBytes = .error e) ∨
    ∃ l e after, reader.index.tryLookup files key.toBytes = .ok (some l) ∧
      reader.content.read l files = .error e after

theorem malformed_iff (reader : Reader σ) (key : Key) (files : Files) :
    reader.Malformed key files ↔ reader.finds files key = .unusable := by
  unfold Malformed finds
  cases hlookup : reader.index.tryLookup files key.toBytes with
  | error e => simp
  | ok found =>
      cases found with
      | none => simp
      | some l =>
          cases hpayload : Content.payloadIn? reader.content.format
              (files.view reader.content.mapping) l with
          | none =>
              obtain ⟨e, after, hread, _⟩ := Content.read_of_payloadIn?_eq_none hpayload
              simp [hpayload, hread]
          | some payload =>
              obtain ⟨after, hread, _⟩ := Content.read_of_payloadIn? hpayload
              simp [hpayload, hread]

/-- Between two states of the files one count of accesses was bumped, the one that a locator of a
layout stands for, and no other byte of the two regions changed. -/
def CountedOnce (reader : Reader σ) (files after : Files) (l : Locator) : Prop :=
  match reader.index.format with
  | .current =>
    (∀ i, (after.view reader.index.mapping).get i = (files.view reader.index.mapping).get i) ∧
      ∃ count, (files.view reader.content.mapping).Bumped (after.view reader.content.mapping)
        l.offset.toNat count
  | .legacy =>
    (∀ i, (after.view reader.content.mapping).get i = (files.view reader.content.mapping).get i) ∧
      ∃ slot count, l.legacy = some slot ∧
        (files.view reader.index.mapping).Bumped (after.view reader.index.mapping)
          (Index.headerSize + slot.counterAt) count

/-- The account of a read: what it adds to the counts and to the record of its channel, and which
bytes it changes. -/
structure Accounted (reader : Reader σ) (key : Key) (s : ReadState (List Sent × σ))
    (outcome : Outcome) (after : ReadState (List Sent × σ)) : Prop where
  header : reader.coordinator.state after.files = reader.coordinator.state s.files
  tally : ∃ malformed refused,
    Counters.Tallied s.counters after.counters outcome malformed refused ∧
    (malformed = true ↔ outcome = .miss ∧ reader.Malformed key s.files) ∧
    (refused = true → outcome = .miss) ∧
    after.own.1 = s.own.1 ++ if outcome = .miss then [⟨key.toBytes, refused⟩] else []
  untouched : outcome.isHit = false →
    (∀ i, (after.files.view reader.index.mapping).get i =
      (s.files.view reader.index.mapping).get i) ∧
    ∀ i, (after.files.view reader.content.mapping).get i =
      (s.files.view reader.content.mapping).get i
  counted : outcome.isHit = true → ∃ l,
    reader.index.tryLookup s.files key.toBytes = .ok (some l) ∧
      reader.CountedOnce s.files after.files l

theorem tryLookup_of_finds {reader : Reader σ} {files : Files} {key : Key} {l : Locator}
    {payload : Bytes} (h : reader.finds files key = .found l payload) :
    reader.index.tryLookup files key.toBytes = .ok (some l) ∧
      Content.payloadIn? reader.content.format (files.view reader.content.mapping) l =
        some payload := by
  unfold finds at h
  split at h
  · cases h
  · cases h
  · rename_i l' hlookup
    split at h
    · cases h
    · rename_i payload' hpayload
      cases h
      exact ⟨hlookup, hpayload⟩

theorem Served.countedOnce {reader : Reader σ} (h : reader.Apart) {files after : Files}
    {l : Locator} (hs : reader.Served files after l) : reader.CountedOnce files after l := by
  obtain ⟨hindex, hcontent⟩ := hs
  rw [h.layout] at hcontent
  unfold CountedOnce
  cases hformat : reader.index.format with
  | current =>
      rw [hformat] at hindex hcontent
      exact ⟨hindex, hcontent⟩
  | legacy =>
      rw [hformat] at hindex hcontent
      have hsame : after.view reader.content.mapping = files.view reader.content.mapping := hcontent
      refine ⟨?_, hindex⟩
      intro i
      rw [hsame]

theorem Served.state_eq {reader : Reader σ} {files after : Files} {l : Locator}
    (hs : reader.Served files after l) :
    reader.coordinator.state after = reader.coordinator.state files := by
  apply state_congr
  intro i hi
  exact hs.index.get_of_lt (Nat.lt_of_lt_of_le hi (by decide))

theorem Untouched.state_eq {reader : Reader σ} {files after : Files}
    (hs : reader.Untouched files after) :
    reader.coordinator.state after = reader.coordinator.state files :=
  state_congr fun i _ => hs.index i

/-- What a report of a miss adds to the record and to the counts. -/
theorem reportMiss_recorded (reader : Reader σ) (key : Key) (s : ReadState (List Sent × σ)) :
    ∃ refused, (reader.recorded.reportMiss key s).own.1 = s.own.1 ++ [⟨key.toBytes, refused⟩] ∧
      (reader.recorded.reportMiss key s).counters =
        if refused then s.counters.miss.reportFailure else s.counters.miss := by
  obtain ⟨files, counters, record, own⟩ := s
  unfold reportMiss MissChannel.report
  simp only [recorded, MissChannel.recorded]
  cases reader.channel.send key.toBytes (files, own) with
  | ok x after => exact ⟨false, rfl, rfl⟩
  | error e after => exact ⟨true, rfl, rfl⟩

/-- A miss is accounted for, if its data are malformed exactly when it counts them so. -/
theorem accounted_miss {reader : Reader σ} {key : Key} {s : ReadState (List Sent × σ)}
    {entered after : Files} (malformed : Bool)
    (hmalformed : malformed = true ↔ reader.Malformed key s.files)
    (hsame : reader.Untouched s.files after) :
    reader.Accounted key s .miss
      { reader.recorded.reportMiss key { s with
          files := entered
          counters := if malformed then s.counters.malform else s.counters } with
        files := after } := by
  obtain ⟨refused, hrecord, hcounters⟩ := reader.reportMiss_recorded key { s with
    files := entered
    counters := if malformed then s.counters.malform else s.counters }
  refine ⟨hsame.state_eq, ⟨malformed, refused, ?_, ?_, fun _ => rfl, hrecord⟩, ?_, ?_⟩
  · have htally := Counters.tallied_miss s.counters malformed refused
    rw [← hcounters] at htally
    exact htally
  · simpa using hmalformed
  · intro _
    exact ⟨hsame.index, fun i => by rw [hsame.content]⟩
  · intro hhit
    cases hhit

/-- Every read is accounted for, whatever the regions hold. -/
theorem accounted_read {reader : Reader σ} (h : reader.Apart) (key : Key)
    (s : ReadState (List Sent × σ)) :
    reader.Accounted key s (reader.recorded.read key s).1 (reader.recorded.read key s).2 := by
  have hmalformed := reader.malformed_iff key s.files
  have hreads := reads h.recorded key s
  generalize (reader.recorded.read key s).1 = outcome at hreads ⊢
  generalize (reader.recorded.read key s).2 = last at hreads ⊢
  cases hreads with
  | refused reason hent =>
      have htallied := Counters.tallied_refuse s.counters reason
      refine ⟨rfl, ⟨false, false, htallied, by simp, by simp, by simp⟩, ?_, ?_⟩
      · intro _
        exact ⟨fun _ => rfl, fun _ => rfl⟩
      · intro hhit
        cases hhit
  | absent entered after h' hent hfind hsame =>
      have hgood : ¬ reader.Malformed key s.files := by
        rw [hmalformed, show reader.finds s.files key = .absent from hfind]
        simp
      exact accounted_miss false (by simpa using hgood) ⟨hsame.index, hsame.content⟩
  | unusable entered after h' hent hfind hsame =>
      exact accounted_miss true (by simpa using hmalformed.mpr hfind)
        ⟨hsame.index, hsame.content⟩
  | served l payload after h' hent hfind hserved =>
      have hserved : reader.Served s.files after l := ⟨hserved.index, hserved.content⟩
      have hfind : reader.finds s.files key = .found l payload := hfind
      have hlookup := (tryLookup_of_finds hfind).1
      refine ⟨hserved.state_eq,
        ⟨false, false, Counters.tallied_hit s.counters payload, by simp, by simp, by simp⟩, ?_, ?_⟩
      · intro hno
        cases hno
      · intro _
        exact ⟨l, hlookup, hserved.countedOnce h⟩

/-! ## Runs of reads -/

/-- Reads one after another. -/
def readAll (reader : Reader σ) : List Key → ReadState σ → List Outcome × ReadState σ
  | [], s => ([], s)
  | key :: keys, s =>
    let (outcome, s) := reader.read key s
    let (outcomes, s) := reader.readAll keys s
    (outcome :: outcomes, s)

/-- The keys of the reads that missed, as they are written. -/
def missedKeys (keys : List Key) (outcomes : List Outcome) : List Bytes :=
  ((keys.zip outcomes).filter fun read => read.2 = .miss).map fun read => read.1.toBytes

theorem withoutRecord_readAll (reader : Reader σ) (keys : List Key)
    (s : ReadState (List Sent × σ)) :
    (reader.recorded.readAll keys s).1 = (reader.readAll keys s.withoutRecord).1 ∧
      (reader.recorded.readAll keys s).2.withoutRecord =
        (reader.readAll keys s.withoutRecord).2 := by
  induction keys generalizing s with
  | nil => exact ⟨rfl, rfl⟩
  | cons key keys ih =>
      obtain ⟨houtcome, hstate⟩ := withoutRecord_read reader key s
      obtain ⟨houtcomes, hlast⟩ := ih (reader.recorded.read key s).2
      rw [hstate] at houtcomes hlast
      simp only [readAll, houtcome, houtcomes, hlast]
      exact ⟨trivial, trivial⟩

/-- What a run of reads leaves: the header as it was, a count for each read, and a report for each
read that missed. -/
theorem readAll_totals {reader : Reader σ} (h : reader.Apart) (keys : List Key)
    (s : ReadState (List Sent × σ)) :
    reader.coordinator.state (reader.recorded.readAll keys s).2.files =
        reader.coordinator.state s.files ∧
      (reader.recorded.readAll keys s).2.counters.reads =
        s.counters.reads + .ofNat keys.length ∧
      (reader.recorded.readAll keys s).2.own.1.map Sent.payload =
        s.own.1.map Sent.payload ++ missedKeys keys (reader.recorded.readAll keys s).1 := by
  induction keys generalizing s with
  | nil => simp [readAll, missedKeys]
  | cons key keys ih =>
      obtain ⟨hheader, hreads, hrecord⟩ := ih (reader.recorded.read key s).2
      have hread := accounted_read h key s
      obtain ⟨malformed, refused, htally, _, _, hsent⟩ := hread.tally
      refine ⟨hheader.trans hread.header, ?_, ?_⟩
      · refine hreads.trans ?_
        rw [htally.reads, UInt64.add_assoc]
        congr 1
        apply UInt64.toNat_inj.mp
        simp [UInt64.toNat_add, Nat.add_comm]
      · refine hrecord.trans ?_
        rw [hsent]
        by_cases hmiss : (reader.recorded.read key s).1 = .miss <;>
          simp [readAll, missedKeys, hmiss]

theorem readAll_append (reader : Reader σ) (before after : List Key) (s : ReadState σ) :
    reader.readAll (before ++ after) s =
      ((reader.readAll before s).1 ++ (reader.readAll after (reader.readAll before s).2).1,
        (reader.readAll after (reader.readAll before s).2).2) := by
  induction before generalizing s with
  | nil => rfl
  | cons key before ih => simp only [List.cons_append, readAll, ih]

theorem length_readAll (reader : Reader σ) (keys : List Key) (s : ReadState σ) :
    (reader.readAll keys s).1.length = keys.length := by
  induction keys generalizing s with
  | nil => rfl
  | cons key keys ih => simp only [readAll, List.length_cons, ih]

/-- In a run of reads of any keys, over regions that hold any bytes, each read is accounted for. The
run leaves the header as it was, counts each read once, and reports exactly the keys that were
missed; keeping the record of the reports changes nothing else. -/
theorem readAll_accounted {reader : Reader σ} (h : reader.Apart) (keys : List Key)
    (s : ReadState σ) :
    (reader.recorded.readAll keys (s.withRecord [])).1 = (reader.readAll keys s).1 ∧
      (reader.recorded.readAll keys (s.withRecord [])).2.withoutRecord =
        (reader.readAll keys s).2 ∧
      (∀ before key rest inside, keys = before ++ key :: rest →
        inside = (reader.recorded.readAll before (s.withRecord [])).2 →
        (reader.readAll keys s).1[before.length]? = some (reader.recorded.read key inside).1 ∧
          reader.Accounted key inside (reader.recorded.read key inside).1
            (reader.recorded.read key inside).2) ∧
      reader.coordinator.state (reader.readAll keys s).2.files =
        reader.coordinator.state s.files ∧
      (reader.readAll keys s).2.counters.reads = s.counters.reads + .ofNat keys.length ∧
      (reader.recorded.readAll keys (s.withRecord [])).2.own.1.map Sent.payload =
        missedKeys keys (reader.readAll keys s).1 := by
  obtain ⟨houtcomes, hlast⟩ := withoutRecord_readAll reader keys (s.withRecord [])
  obtain ⟨hheader, hreads, hrecord⟩ := readAll_totals h keys (s.withRecord [])
  have hstate : (s.withRecord []).withoutRecord = s := rfl
  rw [hstate] at houtcomes hlast
  refine ⟨houtcomes, hlast, ?_, ?_, ?_, ?_⟩
  · rintro before key rest inside rfl rfl
    refine ⟨?_, accounted_read h key _⟩
    rw [← houtcomes, readAll_append, List.getElem?_append_right (Nat.le_of_eq (length_readAll ..))]
    simp [length_readAll, readAll]
  · rw [← hlast]
    exact hheader
  · rw [← hlast]
    exact hreads
  · rw [hrecord, houtcomes]
    rfl

/-- A reader that reports to a queue. -/
def sampleReader : Reader (Array Queue) where
  index := ⟨⟨"index", ["index"], 192⟩, .legacy⟩
  content := ⟨⟨"content", ["content"], 8⟩, .legacy⟩
  channel := .queue 0

/-- The files once a payload has been stored and two places published, the second of which is not
inside the content file. -/
def sampleFiles : Files :=
  (Attempt.perform (do
    sampleReader.content.put 4 [7, 9]
    let builder := (IndexBuilder.empty .legacy).insert (Key.toBytes ⟨1, 2, 3⟩) 4 2 0
    (builder.insert (Key.toBytes ⟨1, 2, 4⟩) 6 4 0).publish sampleReader.index.mapping) .empty).2

/-- Before the reads, with room for one report in the queue. -/
def sampleState : ReadState (Array Queue) := ⟨sampleFiles, {}, #[.empty 1]⟩

/-- A key that is served, one whose data are malformed, and one that is not in the index. -/
def sampleKeys : List Key := [⟨1, 2, 3⟩, ⟨1, 2, 4⟩, ⟨4, 5, 6⟩]

theorem readAll_accounted_sample :
    sampleReader.Apart ∧
      (sampleReader.readAll sampleKeys sampleState).1 = [.hit [7, 9], .miss, .miss] ∧
      (sampleReader.readAll sampleKeys sampleState).2.counters =
        { hits := 1, misses := 2, malformed := 1, missReportFailures := 1, bytesServed := 2 } ∧
      (sampleReader.readAll sampleKeys sampleState).2.counters.reads = 3 ∧
      (sampleReader.recorded.readAll sampleKeys (sampleState.withRecord [])).2.own.1.map
        Sent.payload = [Key.toBytes ⟨1, 2, 4⟩, Key.toBytes ⟨4, 5, 6⟩] := by
  have hapart : sampleReader.Apart :=
    ⟨by decide, rfl, by decide, MissChannel.spares_queue _ _, MissChannel.spares_queue _ _⟩
  have houtcomes : (sampleReader.readAll sampleKeys sampleState).1 =
      [.hit [7, 9], .miss, .miss] := by decide +kernel
  obtain ⟨-, -, -, -, hreads, hreports⟩ := readAll_accounted hapart sampleKeys sampleState
  rw [houtcomes] at hreports
  exact ⟨hapart, houtcomes, by decide +kernel, hreads, hreports⟩

end Reader

end Columnlet

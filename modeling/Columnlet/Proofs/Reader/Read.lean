import Columnlet.Proofs.Content
import Columnlet.Proofs.Coordinator
import Columnlet.Proofs.Index.Lookup
import Columnlet.Reader

/-! # What a read does

All ways in which a read can go, with what each leaves of the files, the counts and the channel,
whatever bytes the regions hold. -/

namespace Columnlet

/-! ## Channels apart from a file -/

/-- A channel leaves the file at a location as it is, however a report ends. -/
def MissChannel.Spares {σ : Type} (channel : MissChannel σ) (l : Location) : Prop :=
  ∀ payload s, (((channel.send payload).perform s).2.1).file l = s.1.file l

theorem MissChannel.spares_queue (i : Nat) (l : Location) : (queue i).Spares l := by
  rintro payload ⟨files, queues⟩
  simp only [Attempt.perform, EStateM.run, queue]
  cases queues[i]? with
  | none => rfl
  | some q => cases hsend : Queue.send payload q <;> simp only [hsend]

namespace Reader

variable {σ : Type}

/-- The parts of a reader agree on the layout and share no file, and the index has room for a
header and a root. -/
structure Apart (reader : Reader σ) : Prop where
  room : Index.minSize ≤ reader.index.mapping.size
  layout : reader.content.format = reader.index.format
  files : reader.content.mapping.location ≠ reader.index.mapping.location
  sparesIndex : reader.channel.Spares reader.index.mapping.location
  sparesContent : reader.channel.Spares reader.content.mapping.location

/-! ## What the regions answer -/

/-- What there is for a key. -/
inductive Finding where
  | absent
  | unusable
  | found (l : Locator) (payload : Bytes)

/-- What an index and a content file have for a key. -/
def finds (reader : Reader σ) (files : Files) (key : Key) : Finding :=
  match reader.index.tryLookup files key.toBytes with
  | .error _ => .unusable
  | .ok none => .absent
  | .ok (some l) =>
    match Content.payloadIn? reader.content.format (files.view reader.content.mapping) l with
    | none => .unusable
    | some payload => .found l payload

/-- Two states of the files in which the regions of a reader show the same bytes. -/
structure Untouched (reader : Reader σ) (files after : Files) : Prop where
  index : ∀ i, (after.view reader.index.mapping).get i = (files.view reader.index.mapping).get i
  content : after.view reader.content.mapping = files.view reader.content.mapping

/-- Two states of the files between which a payload has been served: an access has been counted
where the layout keeps the count. -/
structure Served (reader : Reader σ) (files after : Files) (l : Locator) : Prop where
  index : Index.Touched reader.index.format (files.view reader.index.mapping)
    (after.view reader.index.mapping) l
  content : Content.Touched reader.content.format (files.view reader.content.mapping)
    (after.view reader.content.mapping) l.offset.toNat

/-- Every way in which a read can go. -/
inductive Reads (reader : Reader σ) (key : Key) (s : ReadState σ) : Outcome → ReadState σ → Prop
  | refused (reason : Refusal) (h : (reader.coordinator.state s.files).enter = .error reason) :
      Reads reader key s (.unavailable reason) { s with counters := s.counters.refuse reason }
  | absent (entered after : Files) (h' : Header)
      (h : (reader.coordinator.state s.files).enter = .ok h')
      (finding : reader.finds s.files key = .absent) (same : reader.Untouched s.files after) :
      Reads reader key s .miss
        { reader.reportMiss key { s with files := entered } with files := after }
  | unusable (entered after : Files) (h' : Header)
      (h : (reader.coordinator.state s.files).enter = .ok h')
      (finding : reader.finds s.files key = .unusable) (same : reader.Untouched s.files after) :
      Reads reader key s .miss
        { reader.reportMiss key { s with files := entered, counters := s.counters.malform } with
          files := after }
  | served (l : Locator) (payload : Bytes) (after : Files) (h' : Header)
      (h : (reader.coordinator.state s.files).enter = .ok h')
      (finding : reader.finds s.files key = .found l payload)
      (served : reader.Served s.files after l) :
      Reads reader key s (.hit payload)
        { s with files := after, counters := s.counters.hit payload.length }

/-- Every way in which a read that has been admitted can be answered. -/
inductive Answers (reader : Reader σ) (key : Key) (s : ReadState σ) :
    Outcome → ReadState σ → Prop
  | absent (finding : reader.finds s.files key = .absent) :
      Answers reader key s .miss (reader.reportMiss key s)
  | unusable (read : Files) (finding : reader.finds s.files key = .unusable)
      (same : ∀ l, read.file l = s.files.file l) :
      Answers reader key s .miss
        (reader.reportMiss key { s with files := read, counters := s.counters.malform })
  | served (l : Locator) (payload : Bytes) (read : Files)
      (finding : reader.finds s.files key = .found l payload)
      (counts : Index.Counts reader.index.format (s.files.view reader.index.mapping) l)
      (touched : Content.Touched reader.content.format (s.files.view reader.content.mapping)
        (read.view reader.content.mapping) l.offset.toNat)
      (same : ∀ place, place ≠ reader.content.mapping.location →
        read.file place = s.files.file place) :
      Answers reader key s (.hit payload) { s with
        files := (reader.index.recordAccess l read).2
        counters := s.counters.hit payload.length }

/-! ## Entering and leaving -/

theorem headerRoom {reader : Reader σ} (h : reader.Apart) :
    Header.width ≤ reader.index.mapping.size := Nat.le_trans (by decide) h.room

theorem state_update {reader : Reader σ} (h : reader.Apart) (f : Header → Header) (files : Files) :
    reader.coordinator.state (reader.coordinator.update f files) =
      f (reader.coordinator.state files) := by
  rw [Coordinator.state, Coordinator.view_update]
  exact Header.ofRegion_store _ _ (headerRoom h)

theorem view_content_update {reader : Reader σ} (h : reader.Apart) (f : Header → Header)
    (files : Files) : (reader.coordinator.update f files).view reader.content.mapping =
      files.view reader.content.mapping :=
  Files.view_eq_of_file_eq (reader.coordinator.file_update_of_ne f files h.files)

theorem get_update_of_le {reader : Reader σ} (f : Header → Header) (files : Files) {i : Nat}
    (hi : Header.width ≤ i) :
    ((reader.coordinator.update f files).view reader.index.mapping).get i =
      (files.view reader.index.mapping).get i := by
  have hview := Coordinator.view_update reader.coordinator f files
  simp only [coordinator] at hview ⊢
  rw [hview]
  exact Header.get_store_of_le _ _ hi

/-- Leaving puts the header back that a read has met, and touches nothing behind it. -/
theorem get_leave {reader : Reader σ} (h : reader.Apart) {files inside : Files} {h' : Header}
    (hent : (reader.coordinator.state files).enter = .ok h')
    (hinside : reader.coordinator.state inside = h') (i : Nat) :
    ((reader.coordinator.leave inside).view reader.index.mapping).get i =
      if i < Header.width then (files.view reader.index.mapping).get i
      else (inside.view reader.index.mapping).get i := by
  have hview := Coordinator.view_update reader.coordinator Header.leave inside
  rw [hinside, Header.leave_of_enter hent] at hview
  simp only [coordinator] at hview ⊢
  rw [Coordinator.leave, hview]
  exact Header.get_store_ofRegion _ _ (headerRoom h) i

theorem state_congr {reader : Reader σ} {files after : Files}
    (same : ∀ i, i < Header.width → (after.view reader.index.mapping).get i =
      (files.view reader.index.mapping).get i) :
    reader.coordinator.state after = reader.coordinator.state files := Header.ofRegion_congr same

/-! ## Findings and reports -/

theorem finds_congr {reader : Reader σ} {files after : Files}
    (hindex : ∀ i, Index.headerSize ≤ i → (after.view reader.index.mapping).get i =
      (files.view reader.index.mapping).get i)
    (hcontent : after.view reader.content.mapping = files.view reader.content.mapping)
    (key : Key) : reader.finds after key = reader.finds files key := by
  have hlookup : reader.index.tryLookup after key.toBytes =
      reader.index.tryLookup files key.toBytes := Index.lookupIn_congr hindex _ _
  rw [finds, finds, hlookup, hcontent]

theorem file_reportMiss {reader : Reader σ} {l : Location} (h : reader.channel.Spares l)
    (key : Key) (s : ReadState σ) : (reader.reportMiss key s).files.file l = s.files.file l := by
  have hspares := h key.toBytes (s.files, s.own)
  simp only [Attempt.perform, EStateM.run] at hspares
  unfold reportMiss MissChannel.report
  split <;> rename_i hsend <;> rw [hsend] at hspares <;> exact hspares

/-! ## All ways of a read -/

/-- Leaving after a report that was sent on entering restores every byte. -/
theorem untouched_of_reportMiss {reader : Reader σ} (h : reader.Apart) {files inside : Files}
    {h' : Header} (hent : (reader.coordinator.state files).enter = .ok h')
    (hindex : inside.file reader.index.mapping.location =
      (reader.coordinator.update (fun _ => h') files).file reader.index.mapping.location)
    (hcontent : inside.file reader.content.mapping.location =
      (reader.coordinator.update (fun _ => h') files).file reader.content.mapping.location) :
    reader.Untouched files (reader.coordinator.leave inside) := by
  have hview := Files.view_eq_of_file_eq hindex
  have hinside : reader.coordinator.state inside = h' := by
    rw [Coordinator.state, show reader.coordinator.mapping = reader.index.mapping from rfl, hview]
    exact state_update h _ _
  refine ⟨?_, ?_⟩
  · intro i
    rw [get_leave h hent hinside]
    by_cases hi : i < Header.width
    · rw [if_pos hi]
    · rw [if_neg hi, hview]
      exact get_update_of_le _ _ (by omega)
  · rw [Coordinator.leave, view_content_update h, Files.view_eq_of_file_eq hcontent]
    exact view_content_update h _ _

theorem served_of_leave {reader : Reader σ} (h : reader.Apart) {files entered read : Files}
    {h' : Header} {l : Locator} (hent : (reader.coordinator.state files).enter = .ok h')
    (hentered : entered = reader.coordinator.update (fun _ => h') files)
    (hcounts : Index.Counts reader.index.format (entered.view reader.index.mapping) l)
    (htouched : Content.Touched reader.content.format (entered.view reader.content.mapping)
      (read.view reader.content.mapping) l.offset.toNat)
    (hindex : read.file reader.index.mapping.location =
      entered.file reader.index.mapping.location) :
    reader.Served files (reader.coordinator.leave (reader.index.recordAccess l read).2) l := by
  have hview := Files.view_eq_of_file_eq hindex
  rw [← hview] at hcounts
  obtain ⟨hcounted, hfiles⟩ := Index.recordAccess_spec hcounts
  rw [hview] at hcounted
  have hbefore : ∀ i, Header.width ≤ i → (entered.view reader.index.mapping).get i =
      (files.view reader.index.mapping).get i := by
    intro i hi
    rw [hentered]
    exact get_update_of_le _ _ hi
  have hinside : reader.coordinator.state (reader.index.recordAccess l read).2 = h' := by
    have hstate : reader.coordinator.state entered = h' := by rw [hentered, state_update h]
    rw [← hstate]
    apply state_congr
    intro i hi
    exact hcounted.get_of_lt (Nat.lt_of_lt_of_le hi (by decide))
  refine ⟨hcounted.congr ?_ ?_, ?_⟩
  · intro i hi
    exact hbefore i (Nat.le_trans (by decide) hi)
  · intro i
    rw [get_leave h hent hinside]
    by_cases hi : i < Header.width
    · rw [if_pos hi, if_pos (Nat.lt_of_lt_of_le hi (by decide))]
    · rw [if_neg hi]
      by_cases hlow : i < Index.headerSize
      · rw [if_pos hlow, hcounted.get_of_lt hlow, hbefore i (by omega)]
      · rw [if_neg hlow]
  · rw [hentered, view_content_update h] at htouched
    rw [Coordinator.leave, view_content_update h, Files.view_eq_of_file_eq (hfiles _ h.files)]
    exact htouched

theorem read_of_refused {reader : Reader σ} {key : Key} {s : ReadState σ} {reason : Refusal}
    (h : (reader.coordinator.state s.files).enter = .error reason) :
    reader.read key s =
      (.unavailable reason, { s with counters := s.counters.refuse reason }) := by
  simp only [read, Coordinator.enter, h]

theorem read_of_enter {reader : Reader σ} {key : Key} {s : ReadState σ} {h' : Header}
    (h : (reader.coordinator.state s.files).enter = .ok h') :
    reader.read key s =
      ((reader.answer key { s with files := reader.coordinator.update (fun _ => h') s.files }).1,
        { (reader.answer key
            { s with files := reader.coordinator.update (fun _ => h') s.files }).2 with
          files := reader.coordinator.leave (reader.answer key
            { s with files := reader.coordinator.update (fun _ => h') s.files }).2.files }) := by
  simp only [read, Coordinator.enter, h]

/-- An answer goes in one of the ways listed. -/
theorem answers (reader : Reader σ) (key : Key) (s : ReadState σ) :
    reader.Answers key s (reader.answer key s).1 (reader.answer key s).2 := by
  cases hlookup : reader.index.tryLookup s.files key.toBytes with
  | error e =>
      have hfinds : reader.finds s.files key = .unusable := by simp only [finds, hlookup]
      have hanswer : reader.answer key s =
          (.miss, reader.reportMiss key { s with counters := s.counters.malform }) := by
        simp only [answer, hlookup]
      rw [hanswer]
      exact .unusable s.files hfinds fun _ => rfl
  | ok found =>
      cases found with
      | none =>
          have hfinds : reader.finds s.files key = .absent := by simp only [finds, hlookup]
          have hanswer : reader.answer key s = (.miss, reader.reportMiss key s) := by
            simp only [answer, hlookup]
          rw [hanswer]
          exact .absent hfinds
      | some l =>
          cases hpayload : Content.payloadIn? reader.content.format
              (s.files.view reader.content.mapping) l with
          | none =>
              have hfinds : reader.finds s.files key = .unusable := by
                simp only [finds, hlookup, hpayload]
              obtain ⟨e, read, hcopy, hsame⟩ := Content.read_of_payloadIn?_eq_none hpayload
              have hanswer : reader.answer key s = (.miss, reader.reportMiss key
                  { s with files := read, counters := s.counters.malform }) := by
                simp only [answer, hlookup, hcopy]
              rw [hanswer]
              exact .unusable read hfinds hsame
          | some payload =>
              have hfinds : reader.finds s.files key = .found l payload := by
                simp only [finds, hlookup, hpayload]
              obtain ⟨read, hcopy, htouched, hsame⟩ := Content.read_of_payloadIn? hpayload
              have hanswer : reader.answer key s = (.hit payload, { s with
                  files := (reader.index.recordAccess l read).2,
                  counters := s.counters.hit payload.length }) := by
                simp only [answer, hlookup, hcopy]
              rw [hanswer]
              exact .served l payload read hfinds (Index.counts_of_lookupIn hlookup) htouched hsame

/-- A read goes in one of the ways listed. -/
theorem reads {reader : Reader σ} (h : reader.Apart) (key : Key) (s : ReadState σ) :
    reader.Reads key s (reader.read key s).1 (reader.read key s).2 := by
  cases hent : (reader.coordinator.state s.files).enter with
  | error reason =>
      rw [read_of_refused hent]
      exact .refused reason hent
  | ok h' =>
      rw [read_of_enter hent]
      generalize hentered : reader.coordinator.update (fun _ => h') s.files = entered
      have hindex : ∀ i, Index.headerSize ≤ i → (entered.view reader.index.mapping).get i =
          (s.files.view reader.index.mapping).get i := by
        intro i hi
        rw [← hentered]
        exact get_update_of_le _ _ (Nat.le_trans (by decide) hi)
      have hcontent : entered.view reader.content.mapping =
          s.files.view reader.content.mapping := by
        rw [← hentered]
        exact view_content_update h _ _
      have hfinds := finds_congr hindex hcontent key
      generalize hanswer : reader.answer key { s with files := entered } = answered
      have hanswers := reader.answers key { s with files := entered }
      rw [hanswer] at hanswers
      obtain ⟨outcome, after⟩ := answered
      cases hanswers with
      | absent finding =>
          have hsame : reader.Untouched s.files (reader.coordinator.leave
              (reader.reportMiss key { s with files := entered }).files) := by
            apply untouched_of_reportMiss h hent
            · rw [file_reportMiss h.sparesIndex, hentered]
            · rw [file_reportMiss h.sparesContent, hentered]
          exact .absent entered _ h' hent (hfinds ▸ finding) hsame
      | unusable read finding same =>
          have hsame : reader.Untouched s.files (reader.coordinator.leave (reader.reportMiss key
              { s with files := read, counters := s.counters.malform }).files) := by
            apply untouched_of_reportMiss h hent
            · rw [file_reportMiss h.sparesIndex, same, hentered]
            · rw [file_reportMiss h.sparesContent, same, hentered]
          exact .unusable read _ h' hent (hfinds ▸ finding) hsame
      | served l payload read finding counts touched same =>
          exact .served l payload _ h' hent (hfinds ▸ finding)
            (served_of_leave h hent hentered.symm counts touched (same _ (Ne.symm h.files)))

end Reader

end Columnlet

import Columnlet.Proofs.Bus.Fifo
import Columnlet.Proofs.Bus.Skip
import Columnlet.Proofs.Bus.Sweep

/-! # Polling a bus that nobody vouches for

The limit of a bus and the words of its records are whatever the processes that share the file left
there. A reader that has been opened on it is safe all the same: a poll ends after a number of looks
that the width of the window bounds, no sum exceeds 64 bits, nothing beyond the window is read or
written, and nothing in it is written but rollback words. -/

namespace Columnlet

namespace Bus

variable {n stride timeout now i j : Nat} {recordSize : UInt64} {c next : Cursor} {r s : Region n}
  {answer : Option Bytes} {positions : List Nat}
  {result : Option Bytes × Cursor × Region n}

/-! ## The looks of a poll -/

/-- A poll looks at the records at given positions, one after another, and comes to a result. -/
inductive Turns (stride timeout now : Nat) :
    Cursor → Region n → List Nat → Option Bytes × Cursor × Region n → Prop
  | stop {c next : Cursor} {r s : Region n}
      (here : look stride timeout now c r = (.none next, s)) :
      Turns stride timeout now c r [c.position] (none, next, s)
  | answer {c next : Cursor} {r s : Region n} {payload : Bytes}
      (here : look stride timeout now c r = (.record payload next, s)) :
      Turns stride timeout now c r [c.position] (some payload, next, s)
  | again {c next : Cursor} {r s : Region n} {positions : List Nat}
      {result : Option Bytes × Cursor × Region n}
      (here : look stride timeout now c r = (.skip next, s))
      (rest : Turns stride timeout now next s positions result) :
      Turns stride timeout now c r (c.position :: positions) result

theorem exists_turns (stride timeout now : Nat) (c : Cursor) (r : Region n) :
    ∃ positions, Turns stride timeout now c r positions (pollIn stride timeout now c r) := by
  fun_induction pollIn stride timeout now c r with
  | case1 c r next s hlook => exact ⟨_, .stop hlook⟩
  | case2 c r payload next s hlook => exact ⟨_, .answer hlook⟩
  | case3 c r next s hlook ih =>
      obtain ⟨positions, hrest⟩ := ih
      exact ⟨_, .again hlook hrest⟩

/-- The records that a poll looks at follow each other, and it passes all of them but the last. -/
theorem Turns.positions_eq (h : Turns (strideOf recordSize) timeout now c r positions result)
    (hc : c.position = slotAt recordSize i) :
    positions = (List.range' i positions.length).map (slotAt recordSize) ∧
      slotAt recordSize (i + positions.length) ≤
        result.2.1.position + strideOf recordSize := by
  -- The last look leaves the cursor at its record or behind it.
  have hlast {c : Cursor} {r : Region n} {i : Nat} {looked : Look × Region n}
      (hc : c.position = slotAt recordSize i)
      (here : look (strideOf recordSize) timeout now c r = looked) :
      slotAt recordSize (i + 1) ≤ looked.1.cursor.position + strideOf recordSize := by
    rcases (looked_of_look here).swept hc with ⟨hstay, -⟩ | ⟨hnext, -⟩
    · rw [hstay]
      exact Nat.le_of_eq (slotAt_succ recordSize i)
    · rw [hnext]
      exact Nat.le_add_right ..
  induction h generalizing i with
  | stop here => exact ⟨by simp [hc], hlast hc here⟩
  | answer here => exact ⟨by simp [hc], hlast hc here⟩
  | @again c next r s positions result here rest ih =>
      have hnext := position_advance hc
      rw [← eq_advance_of_skip here] at hnext
      obtain ⟨hpositions, hbehind⟩ := ih hnext
      rw [List.length_cons, Nat.add_comm positions.length, ← Nat.add_assoc]
      refine ⟨?_, hbehind⟩
      rw [Nat.add_comm 1, List.range'_succ, List.map_cons, hc, ← hpositions]

/-- The records in front of one are inside the region, as far as their rollback words go. -/
def Behind (recordSize : UInt64) (n i : Nat) : Prop :=
  ∀ k, k < i → slotAt recordSize k + rollbackField + 4 ≤ n

theorem Swept.behind (h : Swept recordSize i j r s) (hbehind : Behind recordSize n i) :
    Behind recordSize n j := by
  intro k hkj
  rcases Nat.lt_or_ge k i with hki | hik
  · exact hbehind k hki
  · exact h.inside k hik hkj

/-- A record with all others in front of it inside the region begins near its end at most. -/
theorem Behind.slotAt_le (h : Behind recordSize n i) (hg : Grid n recordSize) :
    slotAt recordSize i ≤ n + strideOf recordSize := by
  cases i with
  | zero =>
      have hroom := hg.room
      rw [slotAt_zero]
      omega
  | succ i =>
      have hlast := h i (Nat.lt_succ_self i)
      rw [slotAt_succ]
      omega

section

variable (h : Turns (strideOf recordSize) timeout now c r positions result)
  (hc : c.position = slotAt recordSize i) (hnext : result.2.1.position = slotAt recordSize j)

include h hc hnext

theorem Turns.add_length_le : i + positions.length ≤ j + 1 := by
  have hlast := (h.positions_eq hc).2
  rw [hnext, ← slotAt_succ] at hlast
  exact Nat.le_of_not_lt fun hlt => Nat.not_lt.mpr hlast (slotAt_lt_iff.mpr hlt)

/-- A poll looks at most once at each record that begins in the region, and twice more. -/
theorem Turns.length_le (hbehind : Behind recordSize n j) :
    positions.length ≤ n / strideOf recordSize + 2 := by
  have hlength := h.add_length_le hc hnext
  rcases Nat.lt_or_ge positions.length 2 with hfew | hmany
  · exact Nat.le_trans (Nat.le_of_lt hfew) (Nat.le_add_left ..)
  · -- The last record but one is passed, so it begins in the region.
    obtain ⟨count, hcount⟩ := Nat.exists_eq_add_of_le hmany
    have hinside := hbehind (i + count) (by omega)
    have hfits : count * strideOf recordSize ≤ n := by
      rw [slotAt, Nat.add_mul] at hinside
      omega
    have hdiv := (Nat.le_div_iff_mul_le (strideOf_pos recordSize)).mpr hfits
    omega

/-- No record that a poll looks at ends beyond what 64 bits tell. -/
theorem Turns.add_stride_lt (hg : Grid n recordSize) (hbehind : Behind recordSize n j)
    (hn : n ≤ Files.widestWindow) {position : Nat} (hposition : position ∈ positions) :
    position + strideOf recordSize < UInt64.size := by
  have hlength := h.add_length_le hc hnext
  rw [(h.positions_eq hc).1] at hposition
  obtain ⟨k, hk, rfl⟩ := List.mem_map.mp hposition
  have hkj : k ≤ j := by
    have hhigh := (List.mem_range'_1.mp hk).2
    omega
  have hbegin := (show Behind recordSize n k from fun l hl => hbehind l (by omega)).slotAt_le hg
  have hroom := hg.room
  have hwidest : Files.widestWindow = 93824992236884 := rfl
  have hsize : UInt64.size = 18446744073709551616 := rfl
  omega

end

/-- A region that has room for a limit has one. -/
theorem aligned?_limit (r : Region n) (h : headerSize ≤ n) :
    r.aligned? 8 0 = some (limitIn r).toNat := by
  obtain ⟨limit, hlimit⟩ := r.aligned?_of_le (show 0 % 8 = 0 from rfl) (show 0 + 8 ≤ n from h)
  have hlt : limit < UInt64.size := by
    obtain ⟨bs, hbs, rfl⟩ := Option.map_eq_some_iff.mp hlimit
    have hbound := Bytes.littleNat_lt bs
    rwa [Region.length_of_read? hbs] at hbound
  rw [limitIn, hlimit, Option.getD_some, UInt64.toNat_ofNat_of_lt' hlt]

theorem length_of_pollIn {payload : Bytes}
    (h : pollIn stride timeout now c r = (some payload, next, s)) :
    payload.length ≤ payloadRoom stride := by
  fun_induction pollIn stride timeout now c r with
  | case1 c r stay s' hlook => cases h
  | case2 c r payload' moved s' hlook =>
      cases looked_of_look hlook with
      | record length _ _ commit mark size content =>
      cases h
      rw [Region.length_of_read? content]
      exact Nat.min_le_right ..
  | case3 c r moved s' hlook ih => exact ih h

/-! ## What is beyond the window -/

theorem look_of_alike (h : r.Alike s) (stride timeout now : Nat) (c : Cursor) :
    ∃ s', look stride timeout now c s = ((look stride timeout now c r).1, s') ∧
      (look stride timeout now c r).2.Alike s' := by
  have hlimit : limitIn s = limitIn r := by rw [limitIn, limitIn, h.aligned?_eq]
  simp only [look, hlimit, h.aligned?_eq, h.little?_eq, h.read?_eq]
  by_cases hstop : stride = 0 ∨ (limitIn r).toNat < c.position + stride
  · simp only [if_pos hstop]
    exact ⟨s, rfl, h⟩
  simp only [if_neg hstop]
  cases r.aligned? 4 c.position with
  | none => exact ⟨s, rfl, h⟩
  | some commit =>
      by_cases hopen : commit ≠ 1
      · simp only [if_pos hopen]
        by_cases hearly : now - c.since now < timeout
        · simp only [if_pos hearly]
          exact ⟨s, rfl, h⟩
        · simp only [if_neg hearly]
          rcases h.write? (c.position + rollbackField) one with ⟨hr, hs⟩ | ⟨r', s', hr, hs, halike⟩
          · simp only [hr, hs]
            exact ⟨s, rfl, h⟩
          · simp only [hr, hs]
            exact ⟨s', rfl, halike⟩
      · simp only [if_neg hopen]
        cases r.little? 4 (c.position + rollbackField) with
        | none => exact ⟨s, rfl, h⟩
        | some rollback =>
            cases r.little? 4 (c.position + lengthField) with
            | none => exact ⟨s, rfl, h⟩
            | some length =>
                by_cases hset : rollback ≠ 0
                · simp only [if_pos hset]
                  exact ⟨s, rfl, h⟩
                · simp only [if_neg hset]
                  cases r.read? (c.position + recordHeaderSize)
                      (min length (payloadRoom stride)) with
                  | none => exact ⟨s, rfl, h⟩
                  | some payload => exact ⟨s, rfl, h⟩

/-- A poll neither reads nor writes what the window does not show. -/
theorem pollIn_of_alike (h : r.Alike s) (stride timeout now : Nat) (c : Cursor) :
    ∃ s', pollIn stride timeout now c s =
        ((pollIn stride timeout now c r).1, (pollIn stride timeout now c r).2.1, s') ∧
      (pollIn stride timeout now c r).2.2.Alike s' := by
  fun_induction pollIn stride timeout now c r generalizing s with
  | case1 c r next r' hlook =>
      obtain ⟨s', hlook', halike⟩ := look_of_alike h stride timeout now c
      rw [hlook] at hlook' halike
      rw [pollIn_of_none hlook']
      exact ⟨s', rfl, halike⟩
  | case2 c r payload next r' hlook =>
      obtain ⟨s', hlook', halike⟩ := look_of_alike h stride timeout now c
      rw [hlook] at hlook' halike
      rw [pollIn_of_record hlook']
      exact ⟨s', rfl, halike⟩
  | case3 c r next r' hlook ih =>
      obtain ⟨s', hlook', halike⟩ := look_of_alike h stride timeout now c
      rw [hlook] at hlook' halike
      rw [pollIn_of_skip hlook']
      exact ih halike

end Bus

namespace BusReader

open Bus

variable {path : String} {fileSize recordSize : UInt64} {timeout now : Nat} {files after : Files}
  {reader next : BusReader} {answer : Option Bytes}

/-! ## Readers that are under way -/

/-- A reader has been opened on the file of a bus and polled any number of times since, each time
with whatever the files were then. -/
inductive Reached (path : String) (fileSize recordSize : UInt64) (timeout : Nat) :
    BusReader → Prop
  | opened {files after : Files} {reader : BusReader}
      (opening : openFile path fileSize recordSize timeout files = .ok reader after) :
      Reached path fileSize recordSize timeout reader
  | polled {reader next : BusReader} {now : Nat} {files after : Files} {answer : Option Bytes}
      (before : Reached path fileSize recordSize timeout reader)
      (polling : reader.poll now files = (answer, next, after)) :
      Reached path fileSize recordSize timeout next

theorem Reached.step (h : Reached path fileSize recordSize timeout reader) (now : Nat)
    (files : Files) : Reached path fileSize recordSize timeout (reader.poll now files).2.1 :=
  .polled h rfl

theorem pollIn_of_poll (h : reader.poll now files = (answer, next, after)) :
    ∃ r, pollIn reader.bus.stride reader.timeout now reader.cursor
        (files.view reader.bus.mapping) = (answer, next.cursor, r) ∧
      next.bus = reader.bus ∧ after = files.commit reader.bus.mapping r := by
  cases h
  exact ⟨_, rfl, rfl, rfl⟩

/-- The records of a bus fit into the window of its reader, and the reader stands at one of them;
all in front of it are inside the window. -/
structure Underway (reader : BusReader) : Prop where
  grid : Grid reader.bus.mapping.size reader.bus.recordSize
  narrow : reader.bus.mapping.size ≤ Files.widestWindow
  passed : ∃ i, reader.cursor.position = slotAt reader.bus.recordSize i ∧
    Behind reader.bus.recordSize reader.bus.mapping.size i

theorem underway_of_openFile
    (h : openFile path fileSize recordSize timeout files = .ok reader after) :
    reader.Underway := by
  obtain ⟨b, _, hopen, hreader⟩ := Attempt.bind_eq_ok_iff.mp h
  cases hreader
  obtain ⟨⟨-, hroom⟩, m, hmapping, rfl⟩ := openFile_eq_ok_iff.mp hopen
  obtain ⟨⟨-, -, hnarrow⟩, l, -, rfl, -⟩ := Files.openMapping_eq_ok_iff.mp hmapping
  refine ⟨⟨hroom, UInt64.toNat_lt_size _⟩, hnarrow, 0, (slotAt_zero _).symm, ?_⟩
  intro k hk
  exact absurd hk (Nat.not_lt_zero k)

theorem Underway.poll (h : reader.Underway)
    (hpoll : reader.poll now files = (answer, next, after)) : next.Underway := by
  obtain ⟨hg, hnarrow, i, hposition, hbehind⟩ := h
  obtain ⟨r, hpollIn, hbus, -⟩ := pollIn_of_poll hpoll
  obtain ⟨j, -, hnext, -, hswept⟩ := swept_of_pollIn hposition hpollIn
  constructor
  · rw [hbus]
    exact hg
  · rw [hbus]
    exact hnarrow
  · rw [hbus]
    exact ⟨j, hnext, hswept.behind hbehind⟩

theorem Reached.underway
    (h : Reached path fileSize recordSize timeout reader) : reader.Underway := by
  induction h with
  | opened opening => exact underway_of_openFile opening
  | polled _ polling ih => exact ih.poll polling

/-! ## Polls -/

/-- What a poll comes to that passes the records from one up to another. -/
structure Safe (reader : BusReader) (now : Nat) (files : Files) (answer : Option Bytes)
    (next : BusReader) (after : Files) (i j : Nat) : Prop where
  stride : reader.bus.stride =
    (recordHeaderSize + reader.bus.recordSize.toNat + 7) / 8 * 8
  turns : ∃ positions,
    Turns reader.bus.stride reader.timeout now reader.cursor (files.view reader.bus.mapping)
      positions (answer, next.cursor, after.view reader.bus.mapping) ∧
    positions.length ≤ reader.bus.mapping.size / reader.bus.stride + 2 ∧
    ∀ position ∈ positions, position + reader.bus.stride < UInt64.size
  forward : i ≤ j ∧ reader.cursor.position = slotAt reader.bus.recordSize i ∧
    next.cursor.position = slotAt reader.bus.recordSize j
  limit : ∃ limit, (files.view reader.bus.mapping).aligned? 8 0 = some limit ∧
    (j = i ∨ slotAt reader.bus.recordSize j ≤ limit)
  short : ∀ payload, answer = some payload →
    payload.length ≤ reader.bus.stride - recordHeaderSize
  window : ∀ other : Files,
    (files.view reader.bus.mapping).Alike (other.view reader.bus.mapping) →
      ∃ last, reader.poll now other = (answer, next, last) ∧
        (after.view reader.bus.mapping).Alike (last.view reader.bus.mapping)
  swept : Swept reader.bus.recordSize i j (files.view reader.bus.mapping)
    (after.view reader.bus.mapping)
  bytes : Files.BytesOnly reader.bus.mapping files after

/-- What is in the files beyond the window of a reader makes no difference to a poll. -/
theorem poll_of_alike {other : Files}
    (h : (files.view reader.bus.mapping).Alike (other.view reader.bus.mapping))
    (hpoll : reader.poll now files = (answer, next, after)) :
    ∃ last, reader.poll now other = (answer, next, last) ∧
      (after.view reader.bus.mapping).Alike (last.view reader.bus.mapping) := by
  obtain ⟨s, hother, halike⟩ :=
    pollIn_of_alike h reader.bus.stride reader.timeout now reader.cursor
  cases hpoll
  rw [poll, hother]
  refine ⟨_, rfl, ?_⟩
  rw [Files.view_commit_self, Files.view_commit_self]
  exact halike

theorem Underway.safe (h : reader.Underway)
    (hpoll : reader.poll now files = (answer, next, after)) :
    ∃ i j, reader.Safe now files answer next after i j := by
  obtain ⟨hg, hnarrow, i, hposition, hbehind⟩ := h
  obtain ⟨r, hpollIn, hbus, rfl⟩ := pollIn_of_poll hpoll
  obtain ⟨j, hij, hnext, hlimit, hswept⟩ := swept_of_pollIn hposition hpollIn
  obtain ⟨positions, hturns⟩ := exists_turns reader.bus.stride reader.timeout now reader.cursor
    (files.view reader.bus.mapping)
  rw [hpollIn] at hturns
  have hend := hswept.behind hbehind
  refine ⟨i, j, ?_, ?_, ?_, ?_, ?_, ?_, ?_, ?_⟩
  · rfl
  · refine ⟨positions, ?_, hturns.length_le hposition hnext hend,
      fun _ => hturns.add_stride_lt hposition hnext hg hend hnarrow⟩
    rw [Files.view_commit_self]
    exact hturns
  · exact ⟨hij, hposition, hnext⟩
  · exact ⟨_, aligned?_limit _ (Nat.le_trans (Nat.le_add_right ..) hg.room), hlimit⟩
  · rintro payload rfl
    have hshort : payload.length ≤ payloadRoom (strideOf reader.bus.recordSize) :=
      length_of_pollIn hpollIn
    exact hshort
  · exact fun other halike => poll_of_alike halike hpoll
  · rw [Files.view_commit_self]
    exact hswept
  · exact Files.bytesOnly_commit ..

/-- Whatever the bytes of a bus are, a reader on it is safe to poll, at any time and however often:
a poll ends, within 64 bits, after a number of looks that its window bounds; it passes records only
in front of the limit, answers no more than a record has room for, reads nothing beyond the window,
and writes nothing but the rollback words of the records that it passes and finds not committed. -/
theorem safe_of_reached (hreached : Reached path fileSize recordSize timeout reader)
    (now : Nat) (files : Files) :
    ∃ answer next after i j, reader.poll now files = (answer, next, after) ∧
      reader.Safe now files answer next after i j := by
  obtain ⟨i, j, hsafe⟩ := hreached.underway.safe rfl
  exact ⟨_, _, _, i, j, rfl, hsafe⟩

/-- A bus of records of up to 20 bytes with the largest limit there is. Of its first record the
length is too large, the second was never filled, and the third is cut off behind its rollback
word. -/
def sampleTorn : Files :=
  Files.empty.put ["mq"] (.ofBytes (Bytes.littleEndian 8 0xffffffffffffffff ++
    (one ++ Bytes.littleEndian 4 0 ++ Bytes.littleEndian 4 0xffffffff ++ List.replicate 20 7) ++
    List.replicate 40 0) 80)

/-- A reader of that bus that does not wait. -/
def sampleHasty (position : Nat) : BusReader :=
  { bus := ⟨⟨"mq", ["mq"], 80⟩, 20⟩, timeout := 0, cursor := { position } }

theorem safe_of_reached_sample :
    ∃ next after, (sampleHasty 40).poll 0 sampleTorn = (none, next, after) ∧
      next.cursor.position = 104 ∧
      (after.view ⟨"mq", ["mq"], 80⟩).word 44 = 1 ∧
      (after.view ⟨"mq", ["mq"], 80⟩).word 76 = 1 := by
  have hopened : Reached "mq" 80 20 0 (sampleHasty 8) :=
    .opened (show openFile "mq" 80 20 0 sampleTorn = .ok (sampleHasty 8) _ from rfl)
  have hreached : Reached "mq" 80 20 0 (sampleHasty 40) := by
    rw [← show ((sampleHasty 8).poll 0 sampleTorn).2.1 = sampleHasty 40 by decide +kernel]
    exact hopened.step 0 sampleTorn
  obtain ⟨answer, next, after, i, j, hpoll, hsafe⟩ :=
    safe_of_reached hreached 0 sampleTorn
  have hnone : answer = none := by
    rw [show answer = ((sampleHasty 40).poll 0 sampleTorn).1 by rw [hpoll]]
    decide +kernel
  have hposition : next.cursor.position = 104 := by
    rw [show next = ((sampleHasty 40).poll 0 sampleTorn).2.1 by rw [hpoll]]
    decide +kernel
  obtain ⟨-, hi, hj⟩ := hsafe.forward
  have hbefore : (sampleHasty 40).cursor.position = 40 := rfl
  have hstride : strideOf (sampleHasty 40).bus.recordSize = 32 := by decide
  rw [slotAt, hstride, headerSize] at hi hj
  obtain rfl : 1 = i := by omega
  obtain rfl : 3 = j := by omega
  rw [hnone] at hpoll
  exact ⟨next, after, hpoll, hposition,
    hsafe.swept.marked 1 (by decide) (by decide) (by decide +kernel),
    hsafe.swept.marked 2 (by decide) (by decide) (by decide +kernel)⟩

end BusReader

end Columnlet

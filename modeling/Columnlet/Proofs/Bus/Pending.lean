import Columnlet.Proofs.Bus.Skip

/-! # Pending records

What a reader that gives up on no record drains from a bus, whatever the bytes of the bus are: the
payloads of committed records in order, up to the first record that is not committed. A payload that
is sent can only join them at their end. -/

namespace Columnlet.Bus

variable {n : Nat} {recordSize : UInt64} {r s : Region n} {i : Nat} {records : List Bytes}

/-- A record is committed and rolled back. -/
structure Passed (recordSize : UInt64) (r : Region n) (i : Nat) : Prop where
  commit : r.aligned? 4 (slotAt recordSize i) = some 1
  rollback : ∃ rollback, r.little? 4 (slotAt recordSize i + rollbackField) = some rollback ∧
    rollback ≠ 0
  length : ∃ length, r.little? 4 (slotAt recordSize i + lengthField) = some length

/-- A reader goes on behind a record, with its payload or without. -/
def Passable (recordSize : UInt64) (r : Region n) (i : Nat) : Prop :=
  Passed recordSize r i ∨ ∃ payload, Shows recordSize r i payload

/-- From a record on, a reader that gives up on no record comes to given payloads. -/
inductive Pending (recordSize : UInt64) (r : Region n) : Nat → List Bytes → Prop
  | stop {i : Nat}
      (still : ¬ (slotAt recordSize (i + 1) ≤ (limitIn r).toNat ∧ Passable recordSize r i)) :
      Pending recordSize r i []
  | skip {i : Nat} {records : List Bytes}
      (ahead : slotAt recordSize (i + 1) ≤ (limitIn r).toNat) (passed : Passed recordSize r i)
      (rest : Pending recordSize r (i + 1) records) : Pending recordSize r i records
  | record {i : Nat} {payload : Bytes} {records : List Bytes}
      (ahead : slotAt recordSize (i + 1) ≤ (limitIn r).toNat)
      (shows : Shows recordSize r i payload)
      (rest : Pending recordSize r (i + 1) records) : Pending recordSize r i (payload :: records)

/-- Every bus has pending records, be they none. -/
theorem exists_pending (recordSize : UInt64) (r : Region n) (i : Nat) :
    ∃ records, Pending recordSize r i records := by
  have hpos := strideOf_pos recordSize
  by_cases hstill : slotAt recordSize (i + 1) ≤ (limitIn r).toNat ∧ Passable recordSize r i
  · obtain ⟨ahead, hpassed | ⟨payload, hshows⟩⟩ := hstill
    · have hinside := Region.le_of_aligned? hpassed.commit
      have hnext := slotAt_succ recordSize i
      obtain ⟨records, hrest⟩ := exists_pending recordSize r (i + 1)
      exact ⟨records, .skip ahead hpassed hrest⟩
    · have hinside := Region.le_of_aligned? hshows.commit
      have hnext := slotAt_succ recordSize i
      obtain ⟨records, hrest⟩ := exists_pending recordSize r (i + 1)
      exact ⟨payload :: records, .record ahead hshows hrest⟩
  · exact ⟨[], .stop hstill⟩
termination_by n - slotAt recordSize i

/-! ## Draining -/

section

variable {stride timeout now : Nat} {c : Cursor}

theorem ahead_of_slotAt_le (hc : c.position = slotAt recordSize i)
    (h : slotAt recordSize (i + 1) ≤ (limitIn r).toNat) : Ahead (strideOf recordSize) c r := by
  apply ahead_of_le
  rw [hc, ← slotAt_succ]
  exact h

theorem look_of_shows {payload : Bytes} (timeout now : Nat)
    (ahead : Ahead (strideOf recordSize) c r) (hc : c.position = slotAt recordSize i)
    (h : Shows recordSize r i payload) :
    look (strideOf recordSize) timeout now c r =
      (.record payload (c.advance (strideOf recordSize)), r) := by
  obtain ⟨length, hlength, hcontent⟩ := h.content
  have hcommit := h.commit
  have hrollback := h.rollback
  rw [← hc] at hcommit hrollback hlength hcontent
  rw [look, if_neg ahead.go]
  simp [hcommit, hrollback, hlength, hcontent]

theorem look_of_passed (timeout now : Nat) (ahead : Ahead (strideOf recordSize) c r)
    (hc : c.position = slotAt recordSize i) (h : Passed recordSize r i) :
    look (strideOf recordSize) timeout now c r = (.skip (c.advance (strideOf recordSize)), r) := by
  obtain ⟨rollback, hrollback, hset⟩ := h.rollback
  obtain ⟨length, hlength⟩ := h.length
  have hcommit := h.commit
  rw [← hc] at hcommit hrollback hlength
  exact look_of_committed ahead hcommit hrollback hlength hset

/-- A reader that has just come to a record and does not go on behind it answers nothing, and writes
nothing as long as it waits at all. -/
theorem pollIn_of_still (hpos : 0 < timeout) (now : Nat) (hc : c.position = slotAt recordSize i)
    (hfresh : c.stalled = none)
    (h : ¬ (slotAt recordSize (i + 1) ≤ (limitIn r).toNat ∧ Passable recordSize r i)) :
    ∃ next, pollIn (strideOf recordSize) timeout now c r = (none, next, r) := by
  have hsince : now - c.since now = 0 := by simp [Cursor.since, hfresh]
  have hgo (ahead : Ahead (strideOf recordSize) c r) : ¬ Passable recordSize r i := by
    refine fun hpassable => h ⟨?_, hpassable⟩
    rw [slotAt_succ, ← hc]
    exact ahead.2
  have hlooked := looked (strideOf recordSize) timeout now c r
  generalize hlook : look (strideOf recordSize) timeout now c r = result at hlooked
  cases hlooked with
  | behind => exact ⟨_, pollIn_of_none hlook⟩
  | unaligned => exact ⟨_, pollIn_of_none hlook⟩
  | wait => exact ⟨_, pollIn_of_none hlook⟩
  | unmarked => exact ⟨_, pollIn_of_none hlook⟩
  | rollBack _ _ _ _ _ late => omega
  | unread => exact ⟨_, pollIn_of_none hlook⟩
  | skip rollback length ahead commit mark size rolledBack =>
      rw [hc] at commit mark size
      exact absurd (.inl ⟨commit, ⟨rollback, mark, rolledBack⟩, length, size⟩) (hgo ahead)
  | cut => exact ⟨_, pollIn_of_none hlook⟩
  | record length payload ahead commit mark size content =>
      rw [hc] at commit mark size content
      exact absurd (.inr ⟨payload, commit, mark, length, size, content⟩) (hgo ahead)

theorem drainIn_congr {next : Cursor}
    (h : pollIn stride timeout now c r = pollIn stride timeout now next r) (max : Nat) :
    (drainIn stride timeout now max c r).1 = (drainIn stride timeout now max next r).1 ∧
      (drainIn stride timeout now max c r).2.2 = (drainIn stride timeout now max next r).2.2 := by
  cases max with
  | zero => exact ⟨rfl, rfl⟩
  | succ max =>
      rw [drainIn, drainIn, h]
      exact ⟨rfl, rfl⟩

/-- A reader that has just come to a record, and waits at all, drains what is pending from there on
and writes nothing. -/
theorem drainIn_of_pending (h : Pending recordSize r i records)
    (htimeout : 0 < timeout) (now max : Nat)
    (hc : c.position = slotAt recordSize i) (hfresh : c.stalled = none) :
    (drainIn (strideOf recordSize) timeout now max c r).1 = records.take max ∧
      (drainIn (strideOf recordSize) timeout now max c r).2.2 = r := by
  induction h generalizing c max with
  | stop still =>
      cases max with
      | zero => exact ⟨rfl, rfl⟩
      | succ max =>
          obtain ⟨next, hpoll⟩ := pollIn_of_still htimeout now hc hfresh still
          rw [drainIn, hpoll]
          exact ⟨rfl, rfl⟩
  | skip ahead passed _ ih =>
      have hlook := look_of_passed timeout now
        (ahead_of_slotAt_le hc ahead) hc passed
      obtain ⟨hrecords, hregion⟩ := drainIn_congr (pollIn_of_skip hlook) max
      rw [hrecords, hregion]
      exact ih max (position_advance hc) rfl
  | record ahead shows _ ih =>
      cases max with
      | zero => exact ⟨rfl, rfl⟩
      | succ max =>
          have hlook := look_of_shows timeout now
            (ahead_of_slotAt_le hc ahead) hc shows
          obtain ⟨hrecords, hregion⟩ := ih max (position_advance hc) rfl
          rw [drainIn, pollIn_of_record hlook]
          exact ⟨congrArg (_ :: ·) hrecords, hregion⟩

end

/-! ## Opening for writing -/

/-- A limit that leaves no room for a record has nothing pending in front of it. -/
theorem Pending.of_limit_lt (h : Pending recordSize r i records)
    (hlimit : (limitIn r).toNat < slotAt recordSize (i + 1)) : records = [] := by
  cases h with
  | stop => rfl
  | skip ahead => omega
  | record ahead => omega

theorem pending_of_limit_lt (hlimit : (limitIn r).toNat < slotAt recordSize (i + 1)) :
    Pending recordSize r i [] := .stop fun h => Nat.not_lt.mpr h.1 hlimit

/-- Opening a bus that keeps its records leaves what is pending. -/
theorem Pending.prepare {b : Bus} {r after : Region b.mapping.size}
    (hg : Grid b.mapping.size b.recordSize) (h : Pending b.recordSize r 0 records)
    (hprepare : b.prepareIn true r = .ok () after) : Pending b.recordSize after 0 records := by
  have hroom := hg.room
  have hpos := strideOf_pos b.recordSize
  have hfirst := slotAt_succ b.recordSize 0
  rw [slotAt_zero] at hfirst
  rcases prepareIn_append_cases hprepare with ⟨hzero, rfl⟩ | ⟨rfl, -⟩
  · have hset := limitIn_of_holds (setLimit_spec r headerSize (by omega)).1 (by decide)
    rw [h.of_limit_lt (by rw [hzero, UInt64.toNat_zero]; omega)]
    exact pending_of_limit_lt (by omega)
  · exact h

/-! ## Sending -/

theorem Passed.congr (h : Passed recordSize r i)
    (same : ∀ k, slotAt recordSize i ≤ k → k < slotAt recordSize i + strideOf recordSize →
      s.get k = r.get k) :
    Passed recordSize s i := by
  obtain ⟨hcommit, hword⟩ := words_congr same
  refine ⟨hcommit.trans h.commit, ?_, ?_⟩
  · rw [hword rollbackField (by decide)]
    exact h.rollback
  · rw [hword lengthField (by decide)]
    exact h.length

theorem Passable.congr (h : Passable recordSize r i)
    (same : ∀ k, slotAt recordSize i ≤ k → k < slotAt recordSize i + strideOf recordSize →
      s.get k = r.get k) :
    Passable recordSize s i := by
  rcases h with hpassed | ⟨payload, hshows⟩
  · exact .inl (hpassed.congr same)
  · exact .inr ⟨payload, hshows.congr same⟩

/-- What has been written as a record is what the record shows. -/
theorem shows_of_holds {payload : Bytes}
    (hlen : payload.length ≤ recordSize.toNat) (hshort : payload.length < UInt32.size)
    (h : r.Holds (slotAt recordSize i) (recordBytes payload)) : Shows recordSize r i payload := by
  have hmod := slotAt_mod recordSize i
  obtain ⟨hcommit, hrollback, hlength, hpayload⟩ := fields_of_holds (by omega) h
  rw [Nat.mod_eq_of_lt hshort] at hlength
  refine ⟨hcommit, hrollback, payload.length, hlength, ?_⟩
  rw [Nat.min_eq_left (Nat.le_trans hlen (le_payloadRoom recordSize))]
  exact hpayload

/-- One more record behind the limit, which moves behind it, is pending if and only if a reader
comes that far. -/
theorem Pending.snoc {count : Nat} {payload : Bytes}
    (h : Pending recordSize r i records) (hi : i ≤ count)
    (hlimit : (limitIn r).toNat = slotAt recordSize count)
    (hnext : (limitIn s).toNat = slotAt recordSize (count + 1))
    (hshows : Shows recordSize s count payload)
    (hkept : ∀ k, headerSize ≤ k → k < slotAt recordSize count → s.get k = r.get k) :
    ∃ more, Pending recordSize s i (records ++ more) ∧ more.Sublist [payload] := by
  have hsame {j : Nat} (hj : j < count) (k : Nat) (hlow : slotAt recordSize j ≤ k)
      (hhigh : k < slotAt recordSize j + strideOf recordSize) : s.get k = r.get k := by
    have hbefore := slotAt_le recordSize hj
    have hbase : headerSize ≤ slotAt recordSize j := Nat.le_add_right ..
    exact hkept k (by omega) (by omega)
  have hbelow {j : Nat} (ahead : slotAt recordSize (j + 1) ≤ (limitIn r).toNat) : j < count := by
    rw [hlimit] at ahead
    exact Nat.lt_of_not_le fun hle =>
      Nat.not_lt.mpr ahead (slotAt_lt_iff.mpr (Nat.lt_succ_of_le hle))
  have hahead {j : Nat} (hj : j ≤ count) : slotAt recordSize (j + 1) ≤ (limitIn s).toNat := by
    rw [hnext, slotAt_succ]
    exact slotAt_le recordSize (Nat.lt_succ_of_le hj)
  -- A reader that stopped before the new record stops there again; one that came to the old limit
  -- goes on with the new record and stops behind it.
  induction h with
  | @stop i still =>
      rcases Nat.lt_or_eq_of_le hi with hlt | rfl
      · refine ⟨[], .stop ?_, List.nil_sublist _⟩
        rintro ⟨-, hpassable⟩
        refine still ⟨?_, hpassable.congr fun k hlow hhigh => (hsame hlt k hlow hhigh).symm⟩
        rw [hlimit, slotAt_succ]
        exact slotAt_le recordSize hlt
      · refine ⟨[payload], .record (hahead (Nat.le_refl _)) hshows ?_, List.Sublist.refl _⟩
        apply pending_of_limit_lt
        rw [hnext]
        exact slotAt_lt_iff.mpr (Nat.lt_succ_self _)
  | @skip i records ahead passed _ ih =>
      have hlt := hbelow ahead
      obtain ⟨more, hrest, hmore⟩ := ih hlt
      exact ⟨more, .skip (hahead hi) (passed.congr (hsame hlt)) hrest, hmore⟩
  | @record i first records ahead shows _ ih =>
      have hlt := hbelow ahead
      obtain ⟨more, hrest, hmore⟩ := ih hlt
      exact ⟨more, .record (hahead hi) (shows.congr (hsame hlt)) hrest, hmore⟩

/-- Sending to a bus whose limit stands between records leaves what is pending, and adds at most the
payload. -/
theorem Pending.send {count : Nat} {payload : Bytes} (hg : Grid n recordSize)
    (h : Pending recordSize r 0 records) (hlimit : (limitIn r).toNat = slotAt recordSize count)
    (hshort : payload.length < UInt32.size) :
    ∃ more, Pending recordSize ((sendIn recordSize (strideOf recordSize) payload).perform r).2 0
      (records ++ more) ∧ more.Sublist [payload] := by
  have hkept : ∃ more, Pending recordSize r 0 (records ++ more) ∧ more.Sublist [payload] :=
    ⟨[], by rwa [List.append_nil], List.nil_sublist _⟩
  rw [Attempt.perform, EStateM.run]
  rcases sendIn_cases hg hlimit payload with
    ⟨-, hsend⟩ | ⟨-, -, hsend⟩ | ⟨after, hsend, haccepted⟩
  · rwa [hsend]
  · rwa [hsend]
  · rw [hsend]
    exact h.snoc (Nat.zero_le count) hlimit haccepted.limit
      (shows_of_holds haccepted.short hshort haccepted.record) haccepted.kept

end Columnlet.Bus

import Columnlet.Proofs.Bus.Poll

/-! # Stepping over records that are rolled back

A poll that stands at a record with its rollback word set goes on behind it and answers a later
record or none. The rollback word is read behind the commit word, though: at a record that is not
committed a reader waits for its own timeout, whoever has rolled the record back before. -/

namespace Columnlet.Bus

variable {n stride timeout now : Nat} {recordSize : UInt64} {c : Cursor} {r s : Region n}

/-! ## Looks in front of the limit -/

/-- A record that is committed is stepped over at once. -/
theorem look_of_committed (ahead : Ahead stride c r) {rollback length : Nat}
    (hcommit : r.aligned? 4 c.position = some 1)
    (hmark : r.little? 4 (c.position + rollbackField) = some rollback)
    (hlength : r.little? 4 (c.position + lengthField) = some length) (hset : rollback ≠ 0) :
    look stride timeout now c r = (.skip (c.advance stride), r) := by
  rw [look, if_neg ahead.go]
  simp [hcommit, hmark, hlength, hset]

/-- A record that is not committed is waited for. -/
theorem look_of_early (ahead : Ahead stride c r) {commit : Nat}
    (hcommit : r.aligned? 4 c.position = some commit) (hopen : commit ≠ 1)
    (hearly : now - c.since now < timeout) :
    look stride timeout now c r = (.none (c.wait now), r) := by
  rw [look, if_neg ahead.go]
  simp [hcommit, hopen, hearly]

/-- A record that has been waited for is rolled back, once more if need be, and stepped over. -/
theorem look_of_late (ahead : Ahead stride c r) {commit : Nat}
    (hcommit : r.aligned? 4 c.position = some commit) (hopen : commit ≠ 1)
    (hlate : timeout ≤ now - c.since now)
    (hwrite : r.write? (c.position + rollbackField) one = some s) :
    look stride timeout now c r = (.skip (c.advance stride), s) := by
  rw [look, if_neg ahead.go]
  simp [hcommit, hopen, Nat.not_lt.mpr hlate, hwrite]

/-- The words of a record inside the region can be read and written. -/
theorem exists_words {record : Nat} (haligned : record % 8 = 0)
    (hinside : record + recordHeaderSize ≤ n) :
    ∃ commit length marked, r.aligned? 4 record = some commit ∧
      r.little? 4 (record + lengthField) = some length ∧
      r.write? (record + rollbackField) one = some marked := by
  rw [recordHeaderSize] at hinside
  obtain ⟨commit, hcommit⟩ := r.aligned?_of_le (show record % 4 = 0 by omega)
    (show record + 4 ≤ n by omega)
  obtain ⟨length, hlength⟩ := r.little?_of_le 4
    (show record + lengthField + 4 ≤ n by rw [lengthField]; omega)
  obtain ⟨marked, hmarked⟩ := r.write?_of_le (record + rollbackField) one
    (show record + rollbackField + 4 ≤ n by rw [rollbackField]; omega)
  exact ⟨commit, length, marked, hcommit, hlength, hmarked⟩

/-! ## Polls -/

theorem pollIn_of_skip {next : Cursor}
    (h : look stride timeout now c r = (.skip next, s)) :
    pollIn stride timeout now c r = pollIn stride timeout now next s := by
  rw [pollIn_eq, h]

/-- A reader that stands at a record with its rollback word set is never answered it. If the record
is committed, or the reader has waited for it for its timeout, a poll goes on with the records
behind as if it stood at the next one. Otherwise a poll answers nothing, writes nothing and leaves
the reader where it is, up to the first poll at which the timeout is over. -/
theorem pollIn_of_rolledBack {i count rollback : Nat}
    (hlimit : (limitIn r).toNat = slotAt recordSize count) (hinside : slotAt recordSize count ≤ n)
    (hc : c.position = slotAt recordSize i) (hi : i < count)
    (hmark : r.little? 4 (c.position + rollbackField) = some rollback) (hset : rollback ≠ 0)
    (timeout now : Nat) :
    ∃ marked, r.write? (c.position + rollbackField) one = some marked ∧
      (r.aligned? 4 c.position = some 1 →
        pollIn (strideOf recordSize) timeout now c r =
          pollIn (strideOf recordSize) timeout now (c.advance (strideOf recordSize)) r) ∧
      (r.aligned? 4 c.position ≠ some 1 → timeout ≤ now - c.since now →
        pollIn (strideOf recordSize) timeout now c r =
          pollIn (strideOf recordSize) timeout now (c.advance (strideOf recordSize)) marked) ∧
      (r.aligned? 4 c.position ≠ some 1 → now - c.since now < timeout →
        pollIn (strideOf recordSize) timeout now c r = (none, c.wait now, r) ∧
        ∀ later, timeout ≤ later - c.since now →
          pollIn (strideOf recordSize) timeout later (c.wait now) r =
            pollIn (strideOf recordSize) timeout later (c.advance (strideOf recordSize)) marked) ∧
      ∀ payload next after,
        pollIn (strideOf recordSize) timeout now c r = (some payload, next, after) →
          slotAt recordSize (i + 1) < next.position := by
  have hsixteen := sixteen_le_strideOf recordSize
  have hbehind := slotAt_le recordSize hi
  rw [← hlimit, ← hc] at hbehind
  have ahead := ahead_of_le hbehind
  obtain ⟨commit, length, marked, hcommit, hlength, hmarked⟩ :=
    exists_words (r := r) (show c.position % 8 = 0 by rw [hc]; exact slotAt_mod recordSize i)
      (show c.position + recordHeaderSize ≤ n by rw [recordHeaderSize]; omega)
  have hopen (h : r.aligned? 4 c.position ≠ some 1) : commit ≠ 1 := by
    rintro rfl
    exact h hcommit
  have hdone (hone : r.aligned? 4 c.position = some 1) :
      pollIn (strideOf recordSize) timeout now c r =
        pollIn (strideOf recordSize) timeout now (c.advance (strideOf recordSize)) r :=
    pollIn_of_skip (look_of_committed ahead hone hmark hlength hset)
  have hlate (hnot : r.aligned? 4 c.position ≠ some 1) (hover : timeout ≤ now - c.since now) :
      pollIn (strideOf recordSize) timeout now c r =
        pollIn (strideOf recordSize) timeout now (c.advance (strideOf recordSize)) marked :=
    pollIn_of_skip (look_of_late ahead hcommit (hopen hnot) hover hmarked)
  have hearly (hnot : r.aligned? 4 c.position ≠ some 1) (hbefore : now - c.since now < timeout) :
      pollIn (strideOf recordSize) timeout now c r = (none, c.wait now, r) :=
    pollIn_of_none (look_of_early ahead hcommit (hopen hnot) hbefore)
  -- A poll that answers has gone on from the next record, which it leaves behind it.
  have hnext {payload : Bytes} {next : Cursor} {start after : Region n}
      (h : pollIn (strideOf recordSize) timeout now (c.advance (strideOf recordSize)) start =
        (some payload, next, after)) : slotAt recordSize (i + 1) < next.position := by
    obtain ⟨record, hlow, -, hnext⟩ := record_of_pollIn h
    rw [position_advance hc] at hlow
    omega
  refine ⟨marked, hmarked, hdone, hlate, ?_, ?_⟩
  · intro hnot hbefore
    refine ⟨hearly hnot hbefore, ?_⟩
    intro later hover
    have hsince : (c.wait now).since later = c.since now := by simp [Cursor.since, Cursor.wait]
    exact pollIn_of_skip (look_of_late ahead hcommit (hopen hnot)
      (by rw [hsince]; exact hover) hmarked)
  · intro payload next after hanswer
    by_cases hone : r.aligned? 4 c.position = some 1
    · rw [hdone hone] at hanswer
      exact hnext hanswer
    · rcases Nat.lt_or_ge (now - c.since now) timeout with hbefore | hover
      · cases (hearly hone hbefore).symm.trans hanswer
      · rw [hlate hone hover] at hanswer
        exact hnext hanswer

/-- A bus of two records: the writer of the first has not filled it, the second tells "kept". -/
def sampleStalled : Region 72 :=
  ((sendIn 16 (strideOf 16) [0x6b, 0x65, 0x70, 0x74]).perform Shared.sampleReserved).2

/-- The bus once a reader that does not wait has rolled the first record back. -/
def sampleMarked : Region 72 := (pollIn (strideOf 16) 0 0 .start sampleStalled).2.2

theorem pollIn_of_rolledBack_sample :
    ∃ marked, sampleMarked.write? 12 one = some marked ∧
      pollIn (strideOf 16) 0 0 .start sampleMarked =
        pollIn (strideOf 16) 0 0 ⟨40, none⟩ marked := by
  have hlimit : (limitIn sampleMarked).toNat = slotAt 16 2 := by decide +kernel
  have hmark : sampleMarked.little? 4 (Cursor.start.position + rollbackField) = some 1 := by
    decide +kernel
  obtain ⟨marked, hmarked, -, hlate, -, -⟩ := pollIn_of_rolledBack (i := 0) hlimit
    (by decide) rfl (by decide) hmark (by decide) 0 0
  exact ⟨marked, hmarked, hlate (by decide +kernel) (Nat.zero_le _)⟩

/-- A reader that does not wait rolls the first record back and is answered the second. A reader
with a longer timeout that comes to the first record then is answered nothing and stays, although
the second record is there to be answered. -/
theorem waits_at_rolledBack :
    ∃ (r : Region 72) (c : Cursor),
      pollIn (strideOf 16) 0 0 .start sampleStalled = (some [0x6b, 0x65, 0x70, 0x74], c, r) ∧
      (limitIn r).toNat = slotAt 16 2 ∧ Cursor.start.position = slotAt 16 0 ∧
      r.little? 4 (Cursor.start.position + rollbackField) = some 1 ∧
      pollIn (strideOf 16) 3600000 0 .start r = (none, Cursor.start.wait 0, r) ∧
      (pollIn (strideOf 16) 3600000 0 (Cursor.start.advance (strideOf 16)) r).1 =
        some [0x6b, 0x65, 0x70, 0x74] :=
  ⟨sampleMarked, ⟨72, none⟩, by decide +kernel⟩

end Columnlet.Bus

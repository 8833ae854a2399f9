import Columnlet.Proofs.Bus.Looks
import Columnlet.Proofs.Bus.Safety

/-! # Draining in batches

A poll that answers nothing leaves a reader where the next poll at the same time answers nothing
either and changes nothing, whatever made the first one stop. So it makes no difference whether the
payloads are drained at once or one batch after another. -/

namespace Columnlet

namespace Bus

variable {n stride timeout now : Nat} {recordSize : UInt64} {c next : Cursor} {r s : Region n}

/-! ## Looks -/

/-- What a look can come to, it comes to. -/
theorem Looked.look_eq {result : Look × Region n} (h : Looked stride timeout now c r result) :
    look stride timeout now c r = result := by
  cases h with
  | behind stop =>
      rw [look, if_pos]
      exact Decidable.byContradiction fun go => stop (ahead_of_not go)
  | unaligned ahead commit => rw [look, if_neg ahead.go]; simp [commit]
  | wait word ahead commit uncommitted early => exact look_of_early ahead commit uncommitted early
  | unmarked word ahead commit uncommitted late mark =>
      rw [look, if_neg ahead.go]
      simp [commit, uncommitted, Nat.not_lt.mpr late, mark]
  | rollBack word s ahead commit uncommitted late mark =>
      exact look_of_late ahead commit uncommitted late mark
  | unread ahead commit words =>
      rw [look, if_neg ahead.go]
      rcases words with none | none
      · simp [commit, none]
      · cases r.little? 4 (c.position + rollbackField) <;> simp [commit, none]
  | skip rollback length ahead commit mark size rolledBack =>
      exact look_of_committed ahead commit mark size rolledBack
  | cut length ahead commit mark size content =>
      rw [look, if_neg ahead.go]
      simp [commit, mark, size, content]
  | record length payload ahead commit mark size content =>
      rw [look, if_neg ahead.go]
      simp [commit, mark, size, content]

/-- Where a reader stops it stops again at the same time, at the same cursor. Behind a record whose
payload is cut off it stops for another reason: that record ends beyond the region, so none begins
in the region behind it. -/
theorem Looked.again
    (h : Looked (strideOf recordSize) timeout now c r (.none next, s)) :
    Looked (strideOf recordSize) timeout now next s (.none next, s) := by
  cases h with
  | behind stop => exact .behind stop
  | unaligned ahead commit => exact .unaligned ahead commit
  | wait word ahead commit uncommitted early =>
      rw [← Cursor.since_wait c now now] at early
      have hagain : Looked (strideOf recordSize) timeout now (c.wait now) r
          (.none ((c.wait now).wait now), r) := .wait word ahead commit uncommitted early
      rwa [Cursor.wait_wait] at hagain
  | unmarked word ahead commit uncommitted late mark =>
      rw [← Cursor.since_wait c now now] at late
      have hagain : Looked (strideOf recordSize) timeout now (c.wait now) r
          (.none ((c.wait now).wait now), r) := .unmarked word ahead commit uncommitted late mark
      rwa [Cursor.wait_wait] at hagain
  | unread ahead commit words => exact .unread (c := c.settle) ahead commit words
  | cut length ahead commit mark size content =>
      have hcut := lt_of_cut content
      by_cases ahead : Ahead (strideOf recordSize) (c.advance (strideOf recordSize)) r
      · apply Looked.unaligned ahead
        refine Option.eq_none_iff_forall_ne_some.mpr fun word hword => ?_
        have hbound := Region.le_of_aligned? hword
        simp only [Cursor.advance] at hbound
        omega
      · exact .behind ahead

/-! ## Polls and drains -/

/-- A poll that answers nothing, answers nothing and changes nothing once more. -/
theorem pollIn_again
    (h : pollIn (strideOf recordSize) timeout now c r = (none, next, s)) :
    pollIn (strideOf recordSize) timeout now next s = (none, next, s) := by
  obtain ⟨d, t, -, ⟨-, hlast⟩ | ⟨payload, hnone, -⟩⟩ := exists_last h
  · apply pollIn_of_none
    exact (looked_of_look hlast).again.look_eq
  · cases hnone

/-- A batch of one is a poll. -/
theorem drainIn_one (stride timeout now : Nat) (c : Cursor) (r : Region n) :
    drainIn stride timeout now 1 c r =
      ((pollIn stride timeout now c r).1.toList, (pollIn stride timeout now c r).2) := by
  rcases hpoll : pollIn stride timeout now c r with ⟨_ | payload, next, s⟩ <;>
    simp [drainIn, hpoll]

theorem drainIn_of_none (h : pollIn stride timeout now c r = (none, c, r)) (max : Nat) :
    drainIn stride timeout now max c r = ([], c, r) := by
  cases max with
  | zero => rfl
  | succ max => simp [drainIn, h]

/-- Two batches make one, by induction on the first: where it ends early, the second is empty. -/
theorem drainIn_add (recordSize : UInt64) (timeout now first second : Nat) (c : Cursor)
    (r : Region n) :
    drainIn (strideOf recordSize) timeout now (first + second) c r =
      let batch := drainIn (strideOf recordSize) timeout now first c r
      let rest := drainIn (strideOf recordSize) timeout now second batch.2.1 batch.2.2
      (batch.1 ++ rest.1, rest.2) := by
  induction first generalizing c r with
  | zero => simp [drainIn]
  | succ first ih =>
      rw [Nat.succ_add]
      rcases hpoll : pollIn (strideOf recordSize) timeout now c r with ⟨_ | payload, next, s⟩
      · simp [drainIn, hpoll, drainIn_of_none (pollIn_again hpoll)]
      · simp [drainIn, hpoll, ih]

end Bus

namespace BusReader

open Bus

/-- Draining twice at one time is draining once: the payloads follow each other, and the reader and
the files are left alike, wherever the reader stands and whatever the bytes of the bus are. The
smallest batch is a poll. -/
theorem drain_add (reader : BusReader) (now : Nat) (files : Files) (first second : Nat) :
    let batch := reader.drain now first files
    let rest := batch.2.1.drain now second batch.2.2
    reader.drain now (first + second) files = (batch.1 ++ rest.1, rest.2) ∧
      reader.drain now 1 files = ((reader.poll now files).1.toList, (reader.poll now files).2) := by
  constructor
  · have hdrain := drainIn_add reader.bus.recordSize reader.timeout now first second reader.cursor
      (files.view reader.bus.mapping)
    simp only [drain, stride, hdrain, Files.view_commit_self, Files.commit_commit]
  · simp only [drain, poll, drainIn_one]

/-- A bus of records of up to 20 bytes. The first two tell "a" and "b"; the window ends behind eight
bytes of the payload of the third, while the limit leaves room for a fourth. -/
def sampleShort : Files :=
  Files.empty.put ["mq"] (.ofBytes (Bytes.littleEndian 8 136 ++
    recordBytes [0x61] ++ List.replicate 19 0 ++ recordBytes [0x62] ++ List.replicate 19 0 ++
    recordBytes (List.replicate 20 7)) 92)

/-- A reader of that bus. -/
def samplePatient (position : Nat) : BusReader :=
  { bus := ⟨⟨"mq", ["mq"], 92⟩, 20⟩, cursor := { position } }

/-- The first batch ends behind the third record, which it cannot answer, and the second there. -/
theorem drain_add_sample :
    let batch := (samplePatient 8).drain 0 3 sampleShort
    let rest := batch.2.1.drain 0 2 batch.2.2
    (samplePatient 8).drain 0 5 sampleShort = (batch.1 ++ rest.1, rest.2) ∧
      batch.1 = [[0x61], [0x62]] ∧ batch.2.1 = samplePatient 104 ∧
      rest.1 = [] ∧ rest.2.1 = samplePatient 104 := by
  refine ⟨(drain_add (samplePatient 8) 0 sampleShort 3 2).1, ?_⟩
  decide +kernel

end BusReader

end Columnlet

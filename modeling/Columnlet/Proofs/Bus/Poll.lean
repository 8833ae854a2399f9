import Columnlet.Proofs.Bus.Rollback
import Columnlet.Proofs.Region.Window

/-! # Polling a bus of any contents

Whatever the bytes of a bus are, a look at a record comes to one of a few things, so that a poll
moves the cursor from record to record, writes nothing but the rollback words of records that are
not committed, and answers only what a committed record shows that is not rolled back. -/

namespace Columnlet.Bus

variable {n m stride timeout now : Nat} {recordSize : UInt64} {c next : Cursor} {r s : Region n}

/-! ## A look -/

/-- The limit leaves room for the record under a cursor. -/
def Ahead (stride : Nat) (c : Cursor) (r : Region n) : Prop :=
  stride ≠ 0 ∧ c.position + stride ≤ (limitIn r).toNat

theorem Ahead.go (h : Ahead stride c r) :
    ¬ (stride = 0 ∨ (limitIn r).toNat < c.position + stride) := by
  rintro (hzero | hbehind)
  · exact h.1 hzero
  · exact Nat.not_lt.mpr h.2 hbehind

theorem ahead_of_le (h : c.position + strideOf recordSize ≤ (limitIn r).toNat) :
    Ahead (strideOf recordSize) c r := ⟨Nat.ne_of_gt (strideOf_pos recordSize), h⟩

theorem ahead_of_not {c : Cursor}
    (h : ¬ (stride = 0 ∨ (limitIn r).toNat < c.position + stride)) : Ahead stride c r := by
  obtain ⟨hstride, hlimit⟩ := not_or.mp h
  exact ⟨hstride, Nat.le_of_not_lt hlimit⟩

/-- The ways of a look at a record, each with the region that it leaves. The cursor stays at a
record that the limit does not leave room for, that is not at a word of the region, that is waited
for, that cannot be rolled back or whose words cannot be read. It goes on where a record is rolled
back or has been, and behind a committed record, whose payload is answered if it can be read. -/
inductive Looked (stride timeout now : Nat) (c : Cursor) (r : Region n) :
    Look × Region n → Prop
  | behind (stop : ¬ Ahead stride c r) : Looked stride timeout now c r (.none c, r)
  | unaligned (ahead : Ahead stride c r) (commit : r.aligned? 4 c.position = none) :
      Looked stride timeout now c r (.none c, r)
  | wait (word : Nat) (ahead : Ahead stride c r) (commit : r.aligned? 4 c.position = some word)
      (uncommitted : word ≠ 1) (early : now - c.since now < timeout) :
      Looked stride timeout now c r (.none (c.wait now), r)
  | unmarked (word : Nat) (ahead : Ahead stride c r)
      (commit : r.aligned? 4 c.position = some word) (uncommitted : word ≠ 1)
      (late : timeout ≤ now - c.since now)
      (mark : r.write? (c.position + rollbackField) one = none) :
      Looked stride timeout now c r (.none (c.wait now), r)
  | rollBack (word : Nat) (s : Region n) (ahead : Ahead stride c r)
      (commit : r.aligned? 4 c.position = some word) (uncommitted : word ≠ 1)
      (late : timeout ≤ now - c.since now)
      (mark : r.write? (c.position + rollbackField) one = some s) :
      Looked stride timeout now c r (.skip (c.advance stride), s)
  | unread (ahead : Ahead stride c r) (commit : r.aligned? 4 c.position = some 1)
      (words : r.little? 4 (c.position + rollbackField) = none ∨
        r.little? 4 (c.position + lengthField) = none) :
      Looked stride timeout now c r (.none c.settle, r)
  | skip (rollback length : Nat) (ahead : Ahead stride c r)
      (commit : r.aligned? 4 c.position = some 1)
      (mark : r.little? 4 (c.position + rollbackField) = some rollback)
      (size : r.little? 4 (c.position + lengthField) = some length) (rolledBack : rollback ≠ 0) :
      Looked stride timeout now c r (.skip (c.advance stride), r)
  | cut (length : Nat) (ahead : Ahead stride c r) (commit : r.aligned? 4 c.position = some 1)
      (mark : r.little? 4 (c.position + rollbackField) = some 0)
      (size : r.little? 4 (c.position + lengthField) = some length)
      (content : r.read? (c.position + recordHeaderSize) (min length (payloadRoom stride)) = none) :
      Looked stride timeout now c r (.none (c.advance stride), r)
  | record (length : Nat) (payload : Bytes) (ahead : Ahead stride c r)
      (commit : r.aligned? 4 c.position = some 1)
      (mark : r.little? 4 (c.position + rollbackField) = some 0)
      (size : r.little? 4 (c.position + lengthField) = some length)
      (content : r.read? (c.position + recordHeaderSize) (min length (payloadRoom stride)) =
        some payload) :
      Looked stride timeout now c r (.record payload (c.advance stride), r)

/-- A look at a record that is committed. -/
theorem looked_of_committed (ahead : Ahead stride c r)
    (hcommit : r.aligned? 4 c.position = some 1) :
    Looked stride timeout now c r (look stride timeout now c r) := by
  rw [look, if_neg ahead.go, hcommit]
  simp only [ne_eq, not_true_eq_false, if_false]
  split
  · rename_i rollback length hrollback hlength
    split
    · rename_i hset
      exact .skip rollback length ahead hcommit hrollback hlength hset
    · rename_i hzero
      obtain rfl := Decidable.not_not.mp hzero
      split
      · rename_i payload hcontent
        exact .record length payload ahead hcommit hrollback hlength hcontent
      · rename_i hcontent
        exact .cut length ahead hcommit hrollback hlength hcontent
  · rename_i hnone
    refine .unread ahead hcommit ?_
    cases hrollback : r.little? 4 (c.position + rollbackField) with
    | none => exact .inl rfl
    | some rollback =>
        cases hlength : r.little? 4 (c.position + lengthField) with
        | none => exact .inr rfl
        | some length => exact (hnone rollback length hrollback hlength).elim

theorem looked (stride timeout now : Nat) (c : Cursor) (r : Region n) :
    Looked stride timeout now c r (look stride timeout now c r) := by
  by_cases hone : Ahead stride c r ∧ r.aligned? 4 c.position = some 1
  · exact looked_of_committed hone.1 hone.2
  · unfold look
    split
    · rename_i hstop
      exact .behind fun ahead => ahead.go hstop
    · rename_i hgo
      have ahead := ahead_of_not hgo
      split
      · rename_i hcommit
        exact .unaligned ahead hcommit
      · rename_i word hcommit
        have huncommitted : word ≠ 1 := by
          rintro rfl
          exact hone ⟨ahead, hcommit⟩
        rw [if_pos huncommitted]
        split
        · rename_i hearly
          exact .wait word ahead hcommit huncommitted hearly
        · rename_i hlate
          split
          · rename_i hmark
            exact .unmarked word ahead hcommit huncommitted (Nat.le_of_not_lt hlate) hmark
          · rename_i s hmark
            exact .rollBack word s ahead hcommit huncommitted (Nat.le_of_not_lt hlate) hmark

theorem looked_of_look {result : Look × Region n} (h : look stride timeout now c r = result) :
    Looked stride timeout now c r result := h ▸ looked stride timeout now c r

/-- A record that is stepped over is left behind by all of its bytes. -/
theorem eq_advance_of_skip (h : look stride timeout now c r = (.skip next, s)) :
    next = c.advance stride := by
  cases looked_of_look h <;> rfl

/-! ## A poll -/

/-- A poll that answers leaves the cursor behind the record that it answers, which begins in the
region and not in front of where the cursor was. -/
theorem record_of_pollIn {payload : Bytes}
    (h : pollIn stride timeout now c r = (some payload, next, s)) :
    ∃ record, c.position ≤ record ∧ record < n ∧ next.position = record + stride := by
  fun_induction pollIn stride timeout now c r with
  | case1 c r stay s' hlook => cases h
  | case2 c r payload' moved s' hlook =>
      cases looked_of_look hlook with
      | record length _ _ commit mark size content =>
      cases h
      have hbound := Region.le_of_aligned? commit
      exact ⟨c.position, Nat.le_refl _, by omega, rfl⟩
  | case3 c r moved s' hlook ih =>
      obtain ⟨record, hlow, hrecord⟩ := ih h
      rw [eq_advance_of_skip hlook, Cursor.advance] at hlow
      exact ⟨record, Nat.le_trans (Nat.le_add_right ..) hlow, hrecord⟩

/-- A record is committed and not rolled back, and a payload is what its length leaves of its
bytes. -/
structure Shows (recordSize : UInt64) (r : Region n) (i : Nat) (payload : Bytes) : Prop where
  commit : r.aligned? 4 (slotAt recordSize i) = some 1
  rollback : r.little? 4 (slotAt recordSize i + rollbackField) = some 0
  content : ∃ length, r.little? 4 (slotAt recordSize i + lengthField) = some length ∧
    r.read? (slotAt recordSize i + recordHeaderSize)
      (min length (payloadRoom (strideOf recordSize))) = some payload

/-- The words in front of a payload depend on the bytes of the record alone. -/
theorem words_congr {i : Nat}
    (same : ∀ k, slotAt recordSize i ≤ k → k < slotAt recordSize i + strideOf recordSize →
      s.get k = r.get k) :
    s.aligned? 4 (slotAt recordSize i) = r.aligned? 4 (slotAt recordSize i) ∧
      ∀ field, field + 4 ≤ 16 →
        s.little? 4 (slotAt recordSize i + field) = r.little? 4 (slotAt recordSize i + field) := by
  have hsixteen := sixteen_le_strideOf recordSize
  refine ⟨Region.aligned?_congr fun k hlow hhigh => same k hlow (by omega), ?_⟩
  intro field hfield
  exact Region.little?_congr fun k hlow hhigh => same k (by omega) (by omega)

/-- What a record shows depends on its bytes alone. -/
theorem Shows.congr {i : Nat} {payload : Bytes}
    (h : Shows recordSize r i payload)
    (same : ∀ k, slotAt recordSize i ≤ k → k < slotAt recordSize i + strideOf recordSize →
      s.get k = r.get k) :
    Shows recordSize s i payload := by
  have hroom := payloadRoom_add recordSize
  obtain ⟨hcommit, hword⟩ := words_congr same
  obtain ⟨length, hlength, hcontent⟩ := h.content
  refine ⟨hcommit.trans h.commit, ?_, length, ?_, ?_⟩
  · rw [hword rollbackField (by decide), h.rollback]
  · rw [hword lengthField (by decide), hlength]
  · rw [← hcontent]
    apply Region.read?_congr
    intro k hlow hhigh
    exact same k (by omega) (by omega)

/-- A record that is rolled back elsewhere shows what it showed. -/
theorem Shows.of_onlyRollsBack {i : Nat} {payload : Bytes}
    (hwrites : OnlyRollsBack recordSize r s) (h : Shows recordSize s i payload) :
    Shows recordSize r i payload := by
  have hcommit : r.aligned? 4 (slotAt recordSize i) = some 1 := by
    rw [← hwrites.commit, h.commit]
  exact h.congr fun k hlow hhigh => (hwrites.committed i hcommit k hlow hhigh).symm

/-- What a poll from a record on comes to: what it writes, the record where the cursor is left, and
the record that is answered, which is the one in front of the cursor then. -/
structure Traversed (recordSize : UInt64) (r : Region n) (i : Nat) (answer : Option Bytes)
    (next : Cursor) (s : Region n) : Prop where
  writes : OnlyRollsBack recordSize r s
  position : ∃ j, i ≤ j ∧ next.position = slotAt recordSize j
  answer : ∀ payload, answer = some payload →
    ∃ k, next.position = slotAt recordSize (k + 1) ∧ Shows recordSize r k payload

/-- A poll that first steps over a record. -/
theorem Traversed.of_skip {i : Nat} {answer : Option Bytes} {t : Region n}
    (hwrites : OnlyRollsBack recordSize r s)
    (h : Traversed recordSize s (i + 1) answer next t) :
    Traversed recordSize r i answer next t := by
  obtain ⟨j, hj, hposition⟩ := h.position
  refine ⟨hwrites.trans h.writes, ⟨j, by omega, hposition⟩, ?_⟩
  intro payload hanswer
  obtain ⟨k, hnext, hshows⟩ := h.answer payload hanswer
  exact ⟨k, hnext, hshows.of_onlyRollsBack hwrites⟩

/-- What a poll through a window makes of the memory, seen through one that is at least as wide. -/
theorem traversed_of_pollIn (hn : n ≤ m) (timeout now : Nat) {i : Nat}
    (hc : c.position = slotAt recordSize i) :
    Traversed recordSize (r.resize m) i (pollIn (strideOf recordSize) timeout now c r).1
      (pollIn (strideOf recordSize) timeout now c r).2.1
      ((pollIn (strideOf recordSize) timeout now c r).2.2.resize m) := by
  -- Induction on the records stepped over. Rolling one back changes the region, so the induction
  -- hypothesis is about the region that this leaves.
  fun_induction pollIn (strideOf recordSize) timeout now c r generalizing i with
  | case1 c r next s hlook =>
      have hstay (hnext : next.position = c.position) :
          Traversed recordSize (r.resize m) i none next (r.resize m) :=
        ⟨.refl .., ⟨i, Nat.le_refl i, hnext.trans hc⟩, by simp⟩
      cases looked_of_look hlook with
      | behind => exact hstay rfl
      | unaligned => exact hstay rfl
      | wait => exact hstay rfl
      | unmarked => exact hstay rfl
      | unread => exact hstay rfl
      | cut => exact ⟨.refl .., ⟨i + 1, Nat.le_succ i, position_advance hc⟩, by simp⟩
  | case2 c r payload next s hlook =>
      cases looked_of_look hlook with
      | record length _ _ commit mark size content =>
      rw [hc] at commit mark size content
      have hnext := position_advance hc
      refine ⟨.refl .., ⟨i + 1, Nat.le_succ i, hnext⟩, ?_⟩
      rintro _ ⟨⟩
      exact ⟨i, hnext, Region.aligned?_resize hn commit, Region.little?_resize hn mark, length,
        Region.little?_resize hn size, Region.read?_resize hn content⟩
  | case3 c r next s hlook ih =>
      cases looked_of_look hlook with
      | skip => exact .of_skip (.refl ..) (ih (position_advance hc))
      | rollBack word _ _ commit uncommitted _ mark =>
      rw [hc] at commit mark
      have hcommit := Region.aligned?_resize hn commit
      refine .of_skip (onlyRollsBack_of_write ?_ (Region.write?_resize hn mark))
        (ih (position_advance hc))
      rw [hcommit]
      simpa using uncommitted

end Columnlet.Bus

namespace Columnlet.BusReader

/-- A reader that answers stands behind the record that it answers. -/
theorem record_of_poll {reader next : BusReader} {now : Nat} {files after : Files}
    {payload : Bytes} (h : reader.poll now files = (some payload, next, after)) :
    ∃ record, reader.cursor.position ≤ record ∧ record < reader.bus.mapping.size ∧
      next.cursor.position = record + reader.bus.stride := by
  obtain ⟨hanswer, hrest⟩ := Prod.mk.inj h
  obtain ⟨rfl, -⟩ := Prod.mk.inj hrest
  exact Bus.record_of_pollIn (Prod.ext hanswer rfl)

end Columnlet.BusReader

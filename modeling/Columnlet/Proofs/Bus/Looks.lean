import Columnlet.Proofs.Bus.Skip
import Columnlet.Proofs.Bus.Sweep

/-! # The looks of a poll

A poll looks at one record after another, and goes on from each of its looks as if it had begun
there. While the limit is inside the window, a reader stops only where the limit leaves no room for
a record or where the record is not committed, and it rolls such a record back once it counts its
timeout. -/

namespace Columnlet

namespace Cursor

theorem since_of_none {c : Cursor} (h : c.stalled = none) (now : Nat) : c.since now = now := by
  rw [since, h]

theorem since_wait (c : Cursor) (now later : Nat) : (c.wait now).since later = c.since now := by
  simp [since, wait]

theorem wait_wait (c : Cursor) (now : Nat) : (c.wait now).wait now = c.wait now := by
  simp [wait, since]

end Cursor

namespace Bus

variable {n i stride timeout now : Nat} {recordSize : UInt64} {c d next : Cursor}
  {r s t : Region n} {answer : Option Bytes} {payload : Bytes}

/-! ## The looks of a poll -/

/-- A poll from a cursor on comes to look from another one, at what the region is then. -/
inductive Sees (stride timeout now : Nat) (d : Cursor) (t : Region n) :
    Cursor → Region n → Prop
  | here : Sees stride timeout now d t d t
  | later {c next : Cursor} {r s : Region n}
      (skip : look stride timeout now c r = (.skip next, s))
      (rest : Sees stride timeout now d t next s) : Sees stride timeout now d t c r

/-- A poll goes on from each of its looks as if it had begun there. -/
theorem Sees.pollIn_eq (h : Sees stride timeout now d t c r) :
    pollIn stride timeout now c r = pollIn stride timeout now d t := by
  induction h with
  | here => rfl
  | later skip rest ih => rw [pollIn_of_skip skip, ih]

/-- Of two looks of a poll, one comes to the other. -/
theorem Sees.total {d' : Cursor} {t' : Region n} (h : Sees stride timeout now d t c r)
    (h' : Sees stride timeout now d' t' c r) :
    Sees stride timeout now d' t' d t ∨ Sees stride timeout now d t d' t' := by
  induction h with
  | here => exact .inl h'
  | later skip rest ih =>
      cases h' with
      | here => exact .inr (.later skip rest)
      | later skip' rest' =>
          cases skip.symm.trans skip'
          exact ih rest'

/-- The last look of a poll, which stops there or answers. -/
theorem exists_last (h : pollIn stride timeout now c r = (answer, next, s)) :
    ∃ d t, Sees stride timeout now d t c r ∧
      (answer = none ∧ look stride timeout now d t = (.none next, s) ∨
        ∃ payload, answer = some payload ∧
          look stride timeout now d t = (.record payload next, s)) := by
  fun_induction pollIn stride timeout now c r with
  | case1 c r stay s' hlook =>
      cases h
      exact ⟨c, r, .here, .inl ⟨rfl, hlook⟩⟩
  | case2 c r payload moved s' hlook =>
      cases h
      exact ⟨c, r, .here, .inr ⟨payload, rfl, hlook⟩⟩
  | case3 c r moved s' hlook ih =>
      obtain ⟨d, t, hsees, hlast⟩ := ih h
      exact ⟨d, t, .later hlook hsees, hlast⟩

/-- A poll that answers moves the reader on. -/
theorem position_lt_of_pollIn (hstride : 0 < stride)
    (h : pollIn stride timeout now c r = (some payload, next, s)) :
    c.position < next.position := by
  obtain ⟨record, hlow, -, hnext⟩ := record_of_pollIn h
  omega

/-! ## Records of the window -/

/-- A payload that cannot be read is in a record that ends beyond the region. -/
theorem lt_of_cut {record length : Nat}
    (h : r.read? (record + recordHeaderSize) (min length (payloadRoom (strideOf recordSize))) =
      none) : n < record + strideOf recordSize := by
  refine Nat.lt_of_not_le fun hinside => ?_
  have hroom := payloadRoom_add recordSize
  obtain ⟨payload, hpayload⟩ := r.read?_of_le
    (show record + recordHeaderSize + min length (payloadRoom (strideOf recordSize)) ≤ n by omega)
  cases h.symm.trans hpayload

/-- A reader stands at a record, and the limit is inside the window. -/
structure Stands (recordSize : UInt64) (c : Cursor) (r : Region n) : Prop where
  position : ∃ i, c.position = slotAt recordSize i
  fits : (limitIn r).toNat ≤ n

theorem Stands.skip (h : Stands recordSize c r)
    (hskip : look (strideOf recordSize) timeout now c r = (.skip next, s)) :
    Stands recordSize next s := by
  obtain ⟨⟨i, hc⟩, hfits⟩ := h
  have hnext := position_advance hc
  rw [← eq_advance_of_skip hskip] at hnext
  refine ⟨⟨i + 1, hnext⟩, ?_⟩
  rcases look_cases timeout now hfits hc with
    ⟨_, hlook, -⟩ | ⟨hopen, marked, hmark, hlook⟩ | ⟨-, hlook⟩ | ⟨-, -, _, hlook⟩ <;>
    cases hlook.symm.trans hskip
  · rw [hc] at hopen hmark
    rw [(onlyRollsBack_of_write hopen hmark).limitIn_eq]
    exact hfits
  · exact hfits

/-- A look of a poll is the first one, or stands further on and has not waited yet. -/
theorem Sees.stands (hc : Stands recordSize c r)
    (h : Sees (strideOf recordSize) timeout now d t c r) :
    Stands recordSize d t ∧
      (d = c ∧ t = r ∨ d.stalled = none ∧ c.position < d.position) := by
  induction h with
  | here => exact ⟨hc, .inl ⟨rfl, rfl⟩⟩
  | @later c next r s skip rest ih =>
      obtain ⟨hd, hplace⟩ := ih (hc.skip skip)
      have hmoved := (position_of_look skip).2
      refine ⟨hd, .inr ?_⟩
      rcases hplace with ⟨rfl, -⟩ | ⟨hnone, hfurther⟩
      · refine ⟨?_, hmoved⟩
        rw [eq_advance_of_skip skip]
        rfl
      · exact ⟨hnone, Nat.lt_trans hmoved hfurther⟩

/-- A poll looks at a record once. -/
theorem Sees.unique {d' : Cursor} {t' : Region n}
    (hc : Stands recordSize c r) (h : Sees (strideOf recordSize) timeout now d t c r)
    (h' : Sees (strideOf recordSize) timeout now d' t' c r) (hsame : d'.position = d.position) :
    d' = d ∧ t' = t := by
  rcases h.total h' with hrest | hrest
  · rcases (hrest.stands (h.stands hc).1).2 with heq | ⟨-, hlt⟩
    · exact heq
    · omega
  · rcases (hrest.stands (h'.stands hc).1).2 with ⟨rfl, rfl⟩ | ⟨-, hlt⟩
    · exact ⟨rfl, rfl⟩
    · omega

/-- A poll never goes back. -/
theorem Stands.position_le (hc : Stands recordSize c r)
    (h : pollIn (strideOf recordSize) timeout now c r = (answer, next, s)) :
    c.position ≤ next.position := by
  obtain ⟨i, hi⟩ := hc.position
  obtain ⟨j, hij, hj, -⟩ := swept_of_pollIn hi h
  rw [hi, hj]
  exact slotAt_mono recordSize hij

section

variable (hc : Stands recordSize c r) (ahead : Ahead (strideOf recordSize) c r)

include hc ahead

/-- The record at the cursor is inside the window. -/
theorem Stands.inside :
    c.position % 8 = 0 ∧ c.position + recordHeaderSize ≤ n ∧
      c.position + strideOf recordSize ≤ n := by
  obtain ⟨⟨i, hi⟩, hfits⟩ := hc
  have hroom : c.position + strideOf recordSize ≤ n := Nat.le_trans ahead.2 hfits
  have hpayload := payloadRoom_add recordSize
  have haligned := slotAt_mod recordSize i
  rw [← hi] at haligned
  exact ⟨haligned, by omega, hroom⟩

/-- A reader stops at a record that the limit leaves room for only in order to wait for it. -/
theorem Stands.wait
    (h : look (strideOf recordSize) timeout now c r = (.none next, s)) :
    r.aligned? 4 c.position ≠ some 1 ∧ next = c.wait now := by
  obtain ⟨haligned, hheader, hroom⟩ := hc.inside ahead
  obtain ⟨commit, length, marked, hcommit, hlength, hmarked⟩ :=
    exists_words (r := r) haligned hheader
  cases looked_of_look h with
  | behind stop => exact absurd ahead stop
  | unaligned _ none => cases none.symm.trans hcommit
  | wait word _ found uncommitted early =>
      refine ⟨?_, rfl⟩
      rw [found]
      simpa using uncommitted
  | unmarked word _ _ _ _ none => cases none.symm.trans hmarked
  | unread _ _ words =>
      have hfield : c.position + rollbackField + 4 ≤ n := by
        rw [recordHeaderSize] at hheader
        rw [rollbackField]
        omega
      obtain ⟨rollback, hrollback⟩ := r.little?_of_le 4 hfield
      rcases words with none | none
      · cases none.symm.trans hrollback
      · cases none.symm.trans hlength
  | cut _ _ _ _ _ none => exact absurd hroom (Nat.not_le.mpr (lt_of_cut none))

/-- A record that is not committed is rolled back once it has been waited for. -/
theorem Stands.rollBack_iff (hopen : r.aligned? 4 c.position ≠ some 1) :
    (∃ marked, r.write? (c.position + rollbackField) one = some marked ∧
      look (strideOf recordSize) timeout now c r =
        (.skip (c.advance (strideOf recordSize)), marked)) ↔ timeout ≤ now - c.since now := by
  obtain ⟨haligned, hheader, -⟩ := hc.inside ahead
  obtain ⟨commit, length, marked, hcommit, -, hmarked⟩ := exists_words (r := r) haligned hheader
  have hne : commit ≠ 1 := by
    rintro rfl
    exact hopen hcommit
  constructor
  · rintro ⟨_, _, hlook⟩
    refine Nat.le_of_not_lt fun hearly => ?_
    cases (look_of_early ahead hcommit hne hearly).symm.trans hlook
  · intro hlate
    exact ⟨marked, hmarked, look_of_late ahead hcommit hne hlate hmarked⟩

end

theorem ahead_of_skip (h : look stride timeout now c r = (.skip next, s)) : Ahead stride c r := by
  cases looked_of_look h <;> assumption

theorem eq_of_behind (hstop : ¬ Ahead stride c r)
    (h : look stride timeout now c r = (.none next, s)) : next = c := by
  cases looked_of_look h with
  | behind => rfl
  | unaligned => rfl
  | wait word ahead => exact absurd ahead hstop
  | unmarked word ahead => exact absurd ahead hstop
  | unread ahead => exact absurd ahead hstop
  | cut length ahead => exact absurd ahead hstop

theorem eq_advance_of_record (h : look stride timeout now c r = (.record payload next, s)) :
    next = c.advance stride := by
  cases looked_of_look h
  rfl

end Bus

end Columnlet

import Columnlet.Proofs.Bus.Poll

/-! # Records that a poll passes

A poll passes some records, one after another, and stops in front of the next. Of the records that
it passes, those that are not committed are rolled back; nothing else is written. -/

namespace Columnlet

/-- The word at an offset, whether a region shows it or not. -/
def Region.word {n : Nat} (r : Region n) (offset : Nat) : Nat :=
  Bytes.littleNat (r.memory.read offset 4)

namespace Region

variable {n offset : Nat} {r s : Region n}

theorem little?_eq_word (r : Region n) (h : offset + 4 ≤ n) :
    r.little? 4 offset = some (r.word offset) := by
  rw [little?, read?, if_pos h, Option.map_some, word]

theorem word_of_little? {k : Nat} (h : r.little? 4 offset = some k) : r.word offset = k := by
  unfold little? read? at h
  split at h
  · exact Option.some.inj h
  · cases h

theorem word_of_aligned? {k : Nat} (h : r.aligned? 4 offset = some k) : r.word offset = k := by
  unfold aligned? at h
  split at h
  · exact word_of_little? h
  · cases h

theorem word_congr (h : ∀ i, offset ≤ i → i < offset + 4 → s.get i = r.get i) :
    s.word offset = r.word offset := by
  rw [word, word, read_congr h]

end Region

namespace Bus

variable {n : Nat} {recordSize : UInt64} {timeout now i j k : Nat} {c next : Cursor}
  {r s t : Region n} {answer : Option Bytes}

theorem slotAt_mono (recordSize : UInt64) (h : i ≤ j) :
    slotAt recordSize i ≤ slotAt recordSize j :=
  Nat.add_le_add_left (Nat.mul_le_mul_right _ h) _

/-- An address is outside of the rollback words of the records from one up to another that are not
committed. -/
def OffMarks (recordSize : UInt64) (r : Region n) (i j address : Nat) : Prop :=
  ∀ k, i ≤ k → k < j → r.word (slotAt recordSize k) ≠ 1 →
    address < slotAt recordSize k + rollbackField ∨
      slotAt recordSize k + rollbackField + 4 ≤ address

/-- The records from one up to another have been passed: those that are not committed have been
rolled back, inside the region, and no other byte has been written. -/
structure Swept (recordSize : UInt64) (i j : Nat) (r s : Region n) : Prop where
  inside : ∀ k, i ≤ k → k < j → slotAt recordSize k + rollbackField + 4 ≤ n
  marked : ∀ k, i ≤ k → k < j → r.word (slotAt recordSize k) ≠ 1 →
    s.word (slotAt recordSize k + rollbackField) = 1
  kept : ∀ address, OffMarks recordSize r i j address → s.get address = r.get address

theorem Swept.refl (recordSize : UInt64) (i : Nat) (r : Region n) : Swept recordSize i i r r :=
  ⟨fun _ _ _ => by omega, fun _ _ _ => by omega, fun _ _ => rfl⟩

theorem offMarks_of_lt {address : Nat} (h : address < slotAt recordSize i) :
    OffMarks recordSize r i j address := by
  intro k hik _ _
  have hbase := slotAt_mono recordSize hik
  exact .inl (by omega)

theorem offMarks_of_le {address : Nat} (h : slotAt recordSize j ≤ address) :
    OffMarks recordSize r i j address := by
  have hsixteen := sixteen_le_strideOf recordSize
  intro k _ hkj _
  have hbehind := slotAt_le recordSize hkj
  rw [rollbackField]
  exact .inr (by omega)

/-- Of a record only the rollback word is ever written. -/
theorem offMarks_of_other {address : Nat} (hlow : slotAt recordSize k ≤ address)
    (hhigh : address < slotAt recordSize k + strideOf recordSize)
    (hoff : address < slotAt recordSize k + rollbackField ∨
      slotAt recordSize k + rollbackField + 4 ≤ address) :
    OffMarks recordSize r i j address := by
  have hsixteen := sixteen_le_strideOf recordSize
  intro l _ _ _
  by_cases hl : l = k
  · rw [hl]
    exact hoff
  · have hapart := slotAt_apart recordSize hl
    rw [rollbackField]
    omega

theorem Swept.commit_eq (h : Swept recordSize i j r s) (k : Nat) :
    s.word (slotAt recordSize k) = r.word (slotAt recordSize k) := by
  have hsixteen := sixteen_le_strideOf recordSize
  refine Region.word_congr fun a hlow hhigh => h.kept a ?_
  exact offMarks_of_other hlow (by omega) (.inl hhigh)

theorem Swept.trans (hij : i ≤ j) (hjk : j ≤ k) (h : Swept recordSize i j r s)
    (h' : Swept recordSize j k s t) : Swept recordSize i k r t := by
  have hsixteen := sixteen_le_strideOf recordSize
  refine ⟨?_, ?_, ?_⟩
  · intro l hil hlk
    rcases Nat.lt_or_ge l j with hlj | hjl
    · exact h.inside l hil hlj
    · exact h'.inside l hjl hlk
  · intro l hil hlk hopen
    rcases Nat.lt_or_ge l j with hlj | hjl
    · have hbehind := slotAt_le recordSize hlj
      rw [← h.marked l hil hlj hopen]
      refine Region.word_congr fun a _ hhigh => h'.kept a (offMarks_of_lt ?_)
      rw [rollbackField] at hhigh
      omega
    · rw [← h.commit_eq l] at hopen
      exact h'.marked l hjl hlk hopen
  · intro a hoff
    have hbefore : OffMarks recordSize r i j a :=
      fun l hil hlj => hoff l hil (Nat.lt_of_lt_of_le hlj hjk)
    have hbehind : OffMarks recordSize s j k a := by
      intro l hjl hlk hopen
      rw [h.commit_eq l] at hopen
      exact hoff l (Nat.le_trans hij hjl) hlk hopen
    rw [h'.kept a hbehind, h.kept a hbefore]

/-- Behind the records that are passed nothing is written. -/
theorem Swept.get_behind (h : Swept recordSize i j r s) {address : Nat}
    (hj : slotAt recordSize j ≤ address) : s.get address = r.get address :=
  h.kept address (offMarks_of_le hj)

theorem Swept.limitIn_eq (h : Swept recordSize i j r s) : limitIn s = limitIn r := by
  have hbase : headerSize ≤ slotAt recordSize i := Nat.le_add_right ..
  exact limitIn_congr fun a ha => h.kept a (offMarks_of_lt (by omega))

/-! ## One record -/

theorem swept_of_write (hopen : r.word (slotAt recordSize i) ≠ 1)
    (h : r.write? (slotAt recordSize i + rollbackField) one = some s) :
    Swept recordSize i (i + 1) r s := by
  have hbound := Region.le_of_write? h
  have hone : one.length = 4 := rfl
  rw [hone] at hbound
  have honly {l : Nat} (hil : i ≤ l) (hli : l < i + 1) : l = i := by omega
  refine ⟨?_, ?_, ?_⟩
  · intro l hil hli
    rw [honly hil hli]
    exact hbound
  · intro l hil hli _
    rw [honly hil hli]
    exact Region.word_of_little? (little?_of_write_one h)
  · intro a hoff
    have houtside := hoff i (Nat.le_refl i) (Nat.lt_succ_self i) hopen
    exact Region.get_of_write?_of_outside h (by rwa [hone])

theorem swept_of_committed (hcommit : r.word (slotAt recordSize i) = 1)
    (hinside : slotAt recordSize i + rollbackField + 4 ≤ n) : Swept recordSize i (i + 1) r r := by
  have honly {l : Nat} (hil : i ≤ l) (hli : l < i + 1) : l = i := by omega
  refine ⟨?_, ?_, fun _ _ => rfl⟩
  · intro l hil hli
    rw [honly hil hli]
    exact hinside
  · intro l hil hli hopen
    rw [honly hil hli] at hopen
    exact absurd hcommit hopen

/-- Where a look leaves the cursor. -/
def Look.cursor : Look → Cursor
  | none c | record _ c | skip c => c

/-- A look leaves the cursor at the record, or passes it if the limit leaves room for it. -/
theorem Looked.swept {result : Look × Region n}
    (h : Looked (strideOf recordSize) timeout now c r result)
    (hc : c.position = slotAt recordSize i) :
    result.1.cursor.position = slotAt recordSize i ∧ result.2 = r ∨
      result.1.cursor.position = slotAt recordSize (i + 1) ∧
        slotAt recordSize (i + 1) ≤ (limitIn r).toNat ∧
        Swept recordSize i (i + 1) r result.2 := by
  have hnext := position_advance hc
  have hlimit (ahead : Ahead (strideOf recordSize) c r) :
      slotAt recordSize (i + 1) ≤ (limitIn r).toNat := by
    rw [slotAt_succ, ← hc]
    exact ahead.2
  have hpassed {mark : Nat} (ahead : Ahead (strideOf recordSize) c r)
      (commit : r.aligned? 4 c.position = some 1)
      (hmark : r.little? 4 (c.position + rollbackField) = some mark) :
      slotAt recordSize (i + 1) ≤ (limitIn r).toNat ∧ Swept recordSize i (i + 1) r r := by
    rw [hc] at commit hmark
    exact ⟨hlimit ahead, swept_of_committed (Region.word_of_aligned? commit)
      (Region.le_of_little? hmark)⟩
  cases h with
  | behind => exact .inl ⟨hc, rfl⟩
  | unaligned => exact .inl ⟨hc, rfl⟩
  | wait => exact .inl ⟨hc, rfl⟩
  | unmarked => exact .inl ⟨hc, rfl⟩
  | unread => exact .inl ⟨hc, rfl⟩
  | rollBack word s ahead commit uncommitted late mark =>
      rw [hc] at commit mark
      refine .inr ⟨hnext, hlimit ahead, swept_of_write ?_ mark⟩
      rw [Region.word_of_aligned? commit]
      exact uncommitted
  | skip rollback length ahead commit mark => exact .inr ⟨hnext, hpassed ahead commit mark⟩
  | cut length ahead commit mark => exact .inr ⟨hnext, hpassed ahead commit mark⟩
  | record length payload ahead commit mark => exact .inr ⟨hnext, hpassed ahead commit mark⟩

/-! ## Polls -/

/-- A poll passes some records and stops in front of the limit. -/
theorem swept_of_pollIn (hc : c.position = slotAt recordSize i)
    (h : pollIn (strideOf recordSize) timeout now c r = (answer, next, s)) :
    ∃ j, i ≤ j ∧ next.position = slotAt recordSize j ∧
      (j = i ∨ slotAt recordSize j ≤ (limitIn r).toNat) ∧ Swept recordSize i j r s := by
  -- Induction on the records stepped over; what the first look passes is put in front.
  fun_induction pollIn (strideOf recordSize) timeout now c r generalizing i with
  | case1 c r stay s' hlook =>
      cases h
      rcases (looked_of_look hlook).swept hc with ⟨hposition, rfl⟩ | ⟨hposition, hlimit, hswept⟩
      · exact ⟨i, Nat.le_refl i, hposition, .inl rfl, .refl ..⟩
      · exact ⟨i + 1, Nat.le_succ i, hposition, .inr hlimit, hswept⟩
  | case2 c r payload moved s' hlook =>
      cases h
      rcases (looked_of_look hlook).swept hc with ⟨hposition, rfl⟩ | ⟨hposition, hlimit, hswept⟩
      · exact ⟨i, Nat.le_refl i, hposition, .inl rfl, .refl ..⟩
      · exact ⟨i + 1, Nat.le_succ i, hposition, .inr hlimit, hswept⟩
  | case3 c r moved s' hlook ih =>
      rcases (looked_of_look hlook).swept hc with ⟨hposition, rfl⟩ | ⟨hposition, hlimit, hswept⟩
      · exact ih hposition h
      · obtain ⟨j, hij, hnext, hstop, hrest⟩ := ih hposition h
        rw [hswept.limitIn_eq] at hstop
        refine ⟨j, by omega, hnext, ?_, hswept.trans (Nat.le_succ i) hij hrest⟩
        rcases hstop with rfl | hstop
        · exact .inr hlimit
        · exact .inr hstop

end Bus

end Columnlet

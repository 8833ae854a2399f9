import Columnlet.Proofs.Bus.Record

/-! # Rolling records back

Writers reserve a record, and fill or abandon it at any later time; meanwhile readers step over
records that they have waited for too long, and roll them back. No reader is answered a record that
was abandoned or rolled back, unless its writer fills it in the end: what follows the commit word of
a record that is filled begins with a rollback word of zero. -/

namespace Columnlet.Bus

variable {n : Nat} {recordSize : UInt64} {timeout now : Nat} {c next : Cursor}
  {r s t : Region n}

/-! ## What polling writes -/

/-- Nothing has been written except the rollback words of records that are not committed. -/
structure OnlyRollsBack (recordSize : UInt64) (r s : Region n) : Prop where
  limit : ∀ k, k < headerSize → s.get k = r.get k
  commit : ∀ i, s.aligned? 4 (slotAt recordSize i) = r.aligned? 4 (slotAt recordSize i)
  committed : ∀ i, r.aligned? 4 (slotAt recordSize i) = some 1 →
    ∀ k, slotAt recordSize i ≤ k → k < slotAt recordSize i + strideOf recordSize →
      s.get k = r.get k
  rollback : ∀ i, r.little? 4 (slotAt recordSize i + rollbackField) = some 1 →
    s.little? 4 (slotAt recordSize i + rollbackField) = some 1

theorem OnlyRollsBack.refl (recordSize : UInt64) (r : Region n) : OnlyRollsBack recordSize r r :=
  ⟨fun _ _ => rfl, fun _ => rfl, fun _ _ _ _ _ => rfl, fun _ h => h⟩

theorem OnlyRollsBack.trans (h : OnlyRollsBack recordSize r s) (h' : OnlyRollsBack recordSize s t) :
    OnlyRollsBack recordSize r t := by
  refine ⟨?_, ?_, ?_, ?_⟩
  · intro k hk
    rw [h'.limit k hk, h.limit k hk]
  · intro i
    rw [h'.commit, h.commit]
  · intro i hcommit k hlow hhigh
    rw [h'.committed i (by rw [h.commit, hcommit]) k hlow hhigh, h.committed i hcommit k hlow hhigh]
  · intro i hone
    exact h'.rollback i (h.rollback i hone)

theorem OnlyRollsBack.limitIn_eq (h : OnlyRollsBack recordSize r s) : limitIn s = limitIn r :=
  limitIn_congr h.limit

theorem little?_of_write_one {offset : Nat} (h : r.write? offset one = some s) :
    s.little? 4 offset = some 1 := (Region.holds_of_write? h).little?

/-- Rolling a record back that is not committed. -/
theorem onlyRollsBack_of_write {i : Nat}
    (hcommit : r.aligned? 4 (slotAt recordSize i) ≠ some 1)
    (h : r.write? (slotAt recordSize i + rollbackField) one = some s) :
    OnlyRollsBack recordSize r s := by
  have hone : one.length = 4 := rfl
  have hstride := sixteen_le_strideOf recordSize
  have hbase (j : Nat) : headerSize ≤ slotAt recordSize j := Nat.le_add_right ..
  have houtside (k : Nat) (hk : k < slotAt recordSize i + rollbackField ∨
      slotAt recordSize i + rollbackField + 4 ≤ k) : s.get k = r.get k :=
    Region.get_of_write?_of_outside h (by rwa [hone])
  rw [rollbackField] at houtside
  refine ⟨?_, ?_, ?_, ?_⟩
  · intro k hk
    have hlow := hbase i
    exact houtside k (by omega)
  · intro j
    apply Region.aligned?_congr
    intro k hlow hhigh
    by_cases hj : j = i
    · rw [hj] at hhigh
      exact houtside k (by omega)
    · have hapart := slotAt_apart recordSize hj
      exact houtside k (by omega)
  · intro j hj k hlow hhigh
    have hne : j ≠ i := by
      rintro rfl
      exact hcommit hj
    have hapart := slotAt_apart recordSize hne
    exact houtside k (by omega)
  · intro j hj
    by_cases hne : j = i
    · rw [hne]
      exact little?_of_write_one h
    · rw [← hj]
      apply Region.little?_congr
      intro k hlow hhigh
      rw [rollbackField] at hlow hhigh
      have hapart := slotAt_apart recordSize hne
      exact houtside k (by omega)

/-- The ways of a look at a record: there is nothing to answer and the cursor stays, or the record
is not committed and is rolled back, or it is committed and has been rolled back, or it is
answered. -/
theorem look_cases (timeout now : Nat) {i : Nat}
    (hfits : (limitIn r).toNat ≤ n) (hc : c.position = slotAt recordSize i) :
    (∃ next, look (strideOf recordSize) timeout now c r = (.none next, r) ∧
      next.position = c.position) ∨
    (r.aligned? 4 c.position ≠ some 1 ∧ ∃ s, r.write? (c.position + rollbackField) one = some s ∧
      look (strideOf recordSize) timeout now c r = (.skip (c.advance (strideOf recordSize)), s)) ∨
    (r.aligned? 4 c.position = some 1 ∧
      look (strideOf recordSize) timeout now c r = (.skip (c.advance (strideOf recordSize)), r)) ∨
    (r.aligned? 4 c.position = some 1 ∧ r.little? 4 (c.position + rollbackField) = some 0 ∧
      ∃ payload, look (strideOf recordSize) timeout now c r =
        (.record payload (c.advance (strideOf recordSize)), r)) := by
  by_cases hstop : strideOf recordSize = 0 ∨
      (limitIn r).toNat < c.position + strideOf recordSize
  · exact .inl ⟨c, by rw [look, if_pos hstop], rfl⟩
  have hroom : c.position + strideOf recordSize ≤ n := by omega
  have hstride := sixteen_le_strideOf recordSize
  have hmod := slotAt_mod recordSize i
  have hpayload := payloadRoom_add recordSize
  obtain ⟨commit, hcommit⟩ := r.aligned?_of_le
    (show c.position % 4 = 0 by rw [hc]; omega) (show c.position + 4 ≤ n by omega)
  rw [look, if_neg hstop, hcommit]
  by_cases hone : commit = 1
  · obtain ⟨rollback, hrollback⟩ := r.little?_of_le 4
      (show c.position + rollbackField + 4 ≤ n by rw [rollbackField]; omega)
    obtain ⟨length, hlength⟩ := r.little?_of_le 4
      (show c.position + lengthField + 4 ≤ n by rw [lengthField]; omega)
    obtain ⟨payload, hread⟩ := r.read?_of_le
      (show c.position + recordHeaderSize + min length (payloadRoom (strideOf recordSize)) ≤ n by
        omega)
    by_cases hzero : rollback = 0
    · refine .inr (.inr (.inr ⟨by rw [hone], by rw [hrollback, hzero], payload, ?_⟩))
      simp [hone, hrollback, hlength, hzero, hread]
    · refine .inr (.inr (.inl ⟨by rw [hone], ?_⟩))
      simp [hone, hrollback, hlength, hzero]
  · by_cases hwait : now - c.since now < timeout
    · exact .inl ⟨c.wait now, by simp [hone, hwait], rfl⟩
    · obtain ⟨after, hafter⟩ := Region.write?_of_le r (c.position + rollbackField) one
        (show c.position + rollbackField + 4 ≤ n by rw [rollbackField]; omega)
      refine .inr (.inl ⟨by simpa using hone, after, hafter, ?_⟩)
      simp [hone, hwait, hafter]

/-- What a poll from a record on comes to: the region, the record where the cursor is left, and
which record is answered. Records that were not committed have been rolled back. -/
structure Polled (recordSize : UInt64) (r : Region n) (i : Nat) (answer : Option Bytes)
    (next : Cursor) (s : Region n) : Prop where
  writes : OnlyRollsBack recordSize r s
  position : ∃ j, i ≤ j ∧ next.position = slotAt recordSize j ∧
    ∀ k, i ≤ k → k < j → r.aligned? 4 (slotAt recordSize k) ≠ some 1 →
      s.little? 4 (slotAt recordSize k + rollbackField) = some 1
  answer : ∀ payload, answer = some payload →
    ∃ k, next.position = slotAt recordSize (k + 1) ∧
      r.aligned? 4 (slotAt recordSize k) = some 1 ∧
      r.little? 4 (slotAt recordSize k + rollbackField) = some 0

/-- A poll that first steps over a record. -/
theorem Polled.of_skip {i : Nat} {answer : Option Bytes}
    (hwrites : OnlyRollsBack recordSize r s)
    (hback : r.aligned? 4 (slotAt recordSize i) ≠ some 1 →
      s.little? 4 (slotAt recordSize i + rollbackField) = some 1)
    (h : Polled recordSize s (i + 1) answer next t) : Polled recordSize r i answer next t := by
  have hstride := sixteen_le_strideOf recordSize
  obtain ⟨j, hj, hposition, hpassed⟩ := h.position
  refine ⟨hwrites.trans h.writes, ⟨j, by omega, hposition, ?_⟩, ?_⟩
  · intro k hlow hhigh hcommit
    by_cases hk : k = i
    · rw [hk] at hcommit ⊢
      exact h.writes.rollback i (hback hcommit)
    · exact hpassed k (by omega) hhigh (by rwa [hwrites.commit])
  · intro payload hanswer
    obtain ⟨k, hnext, hcommit, hrollback⟩ := h.answer payload hanswer
    rw [hwrites.commit] at hcommit
    refine ⟨k, hnext, hcommit, ?_⟩
    rw [← hrollback]
    symm
    apply Region.little?_congr
    intro b hlow hhigh
    rw [rollbackField] at hlow hhigh
    exact hwrites.committed k hcommit b (by omega) (by omega)

theorem polled_of_pollIn (timeout now : Nat) {i : Nat}
    (hfits : (limitIn r).toNat ≤ n) (hc : c.position = slotAt recordSize i) :
    Polled recordSize r i (pollIn (strideOf recordSize) timeout now c r).1
      (pollIn (strideOf recordSize) timeout now c r).2.1
      (pollIn (strideOf recordSize) timeout now c r).2.2 := by
  -- Induction on the records stepped over. Rolling one back changes the region, so the induction
  -- hypothesis is about the region that this leaves.
  fun_induction pollIn (strideOf recordSize) timeout now c r generalizing i with
  | case1 c r next s hlook =>
      rcases look_cases timeout now hfits hc with
        ⟨next', h, hstay⟩ | ⟨_, s', _, h⟩ | ⟨_, h⟩ | ⟨_, _, payload, h⟩ <;>
        cases hlook.symm.trans h
      exact ⟨.refl .., ⟨i, Nat.le_refl _, by rw [hstay, hc], by omega⟩, by simp⟩
  | case2 c r payload next s hlook =>
      rcases look_cases timeout now hfits hc with
        ⟨next', h, hstay⟩ | ⟨_, s', _, h⟩ | ⟨_, h⟩ | ⟨hcommit, hrollback, payload', h⟩ <;>
        cases hlook.symm.trans h
      rw [hc] at hcommit hrollback
      have hnext := position_advance hc
      refine ⟨.refl .., ⟨i + 1, by omega, hnext, ?_⟩, fun _ _ => ⟨i, hnext, hcommit, hrollback⟩⟩
      intro k hlow hhigh hnot
      obtain rfl : k = i := by omega
      exact absurd hcommit hnot
  | case3 c r next s hlook ih =>
      rcases look_cases timeout now hfits hc with
        ⟨next', h, hstay⟩ | ⟨hcommit, s', hwrite, h⟩ | ⟨hcommit, h⟩ | ⟨_, _, payload, h⟩ <;>
        cases hlook.symm.trans h
      · rw [hc] at hcommit hwrite
        have hwrites := onlyRollsBack_of_write hcommit hwrite
        refine .of_skip hwrites (fun _ => little?_of_write_one hwrite)
          (ih ?_ (position_advance hc))
        rw [hwrites.limitIn_eq]
        exact hfits
      · rw [hc] at hcommit
        exact .of_skip (.refl ..) (fun hnot => absurd hcommit hnot)
          (ih hfits (position_advance hc))

/-! ## What writing does -/

theorem abandonIn_spec {record : Nat} (r : Region n) (haligned : record % 4 = 0)
    (hroom : record + 8 ≤ n) :
    (abandonIn record r).aligned? 4 record = some 1 ∧
      (abandonIn record r).little? 4 (record + rollbackField) = some 1 ∧
      ∀ k, k < record ∨ record + 8 ≤ k → (abandonIn record r).get k = r.get k := by
  have hone : one.length = 4 := rfl
  obtain ⟨marked, hmarked⟩ := Region.write?_of_le r (record + rollbackField) one
    (by rw [hone, rollbackField]; omega)
  obtain ⟨after, hafter⟩ := Region.write?_of_le marked record one (by rw [hone]; omega)
  obtain ⟨word, hword⟩ := marked.aligned?_of_le haligned (by omega)
  have habandon : abandonIn record r = after := by
    simp [abandonIn, hmarked, hword, hafter]
  rw [habandon]
  refine ⟨?_, ?_, ?_⟩
  · rw [Region.aligned?, if_pos haligned]
    exact little?_of_write_one hafter
  · rw [← little?_of_write_one hmarked]
    apply Region.little?_congr
    intro k hlow _
    rw [rollbackField] at hlow
    exact Region.get_of_write?_of_outside hafter (.inr (by rw [hone]; omega))
  · intro k hk
    rw [Region.get_of_write?_of_outside hafter (by rw [hone]; omega),
      Region.get_of_write?_of_outside hmarked (by rw [hone, rollbackField]; omega)]

end Columnlet.Bus

/-! ## Runs -/

namespace Columnlet

open Bus (slotAt strideOf)

/-- What a writer has made of a record that it has reserved. -/
inductive Fate where
  | pending
  | filled (payload : Bytes)
  | abandoned
  deriving DecidableEq, Repr

/-- A reserved record: where it is, what its writer has made of it, and whether a reader has stepped
over it because it was not committed. -/
structure Reservation where
  record : Nat
  fate : Fate := .pending
  rolledBack : Bool := false
  deriving DecidableEq, Repr

/-- A reservation once a poll has moved a cursor. -/
def Reservation.pass {n : Nat} (r : Region n) (c next : Cursor) (x : Reservation) : Reservation :=
  { x with rolledBack := x.rolledBack || (c.position ≤ x.record && x.record < next.position &&
      r.aligned? 4 x.record ≠ some 1) }

/-- A bus that writers and readers share: its bytes, the records reserved so far, and the readers
opened so far, each with its timeout. -/
structure Shared (n : Nat) where
  region : Region n
  reservations : List Reservation
  readers : List (Nat × Cursor)

namespace Shared

variable {n : Nat}

/-- The steps of a run. A record is filled or abandoned at any time after it has been reserved, and
only once; every reader may poll at any time. -/
inductive Step (recordSize : UInt64) : Shared n → Shared n → Prop
  | reserve {s : Shared n} (record : Nat) (region : Region n)
      (success : Bus.reserveIn (strideOf recordSize) s.region = .ok record region) :
      Step recordSize s { s with region, reservations := s.reservations ++ [{ record }] }
  | fill {s : Shared n} (i : Nat) (x : Reservation) (payload : Bytes) (region : Region n)
      (reserved : s.reservations[i]? = some x) (pending : x.fate = .pending)
      (fits : payload.length ≤ recordSize.toNat)
      (success : Bus.fillIn (strideOf recordSize) x.record payload s.region = .ok () region) :
      Step recordSize s { s with
        region
        reservations := s.reservations.set i { x with fate := .filled payload } }
  | abandon {s : Shared n} (i : Nat) (x : Reservation) (reserved : s.reservations[i]? = some x)
      (pending : x.fate = .pending) :
      Step recordSize s { s with
        region := Bus.abandonIn x.record s.region
        reservations := s.reservations.set i { x with fate := .abandoned } }
  | openReader {s : Shared n} (timeout : Nat) :
      Step recordSize s { s with readers := s.readers ++ [(timeout, .start)] }
  | poll {s : Shared n} (i timeout now : Nat) (c next : Cursor) (answer : Option Bytes)
      (region : Region n) (reader : s.readers[i]? = some (timeout, c))
      (polled : Bus.pollIn (strideOf recordSize) timeout now c s.region = (answer, next, region)) :
      Step recordSize s {
        region
        reservations := s.reservations.map (·.pass s.region c next)
        readers := s.readers.set i (timeout, next) }

/-- What a bus can come to, from any number of records reserved before. -/
inductive Reached (recordSize : UInt64) : Shared n → Prop
  | start (region : Region n) (count : Nat)
      (limit : (Bus.limitIn region).toNat = slotAt recordSize count)
      (fits : slotAt recordSize count ≤ n) :
      Reached recordSize
        ⟨region, (List.range count).map fun i => { record := slotAt recordSize i }, []⟩
  | step {s next : Shared n} (before : Reached recordSize s) (step : Step recordSize s next) :
      Reached recordSize next

/-! ## The invariant -/

/-- What the bytes of a record tell: a filled record holds its payload, an abandoned one is
committed and rolled back, and one that is only rolled back is not committed. -/
def Tells (recordSize : UInt64) (r : Region n) (x : Reservation) : Prop :=
  match x.fate with
  | .filled payload =>
      payload.length ≤ recordSize.toNat ∧ r.Holds x.record (Bus.recordBytes payload)
  | .abandoned =>
      r.aligned? 4 x.record = some 1 ∧ r.little? 4 (x.record + Bus.rollbackField) = some 1
  | .pending => x.rolledBack = true →
      r.aligned? 4 x.record ≠ some 1 ∧ r.little? 4 (x.record + Bus.rollbackField) = some 1

/-- The reserved records stand one behind the other in front of the limit and tell what has happened
to them, and the readers stand between records. -/
structure Inv (recordSize : UInt64) (s : Shared n) : Prop where
  limit : (Bus.limitIn s.region).toNat = slotAt recordSize s.reservations.length
  fits : slotAt recordSize s.reservations.length ≤ n
  records : ∀ i x, s.reservations[i]? = some x →
    x.record = slotAt recordSize i ∧ Tells recordSize s.region x
  readers : ∀ timeout c, (timeout, c) ∈ s.readers → ∃ i, c.position = slotAt recordSize i

variable {recordSize : UInt64} {r after : Region n} {x : Reservation} {s : Shared n}

/-- What the bytes of a record tell stands in the record. -/
theorem Tells.congr (h : Tells recordSize r x)
    (heq : ∀ k, x.record ≤ k → k < x.record + strideOf recordSize →
      after.get k = r.get k) : Tells recordSize after x := by
  have hcover := Bus.add_le_strideOf recordSize
  have hsixteen := Bus.sixteen_le_strideOf recordSize
  have hcommit : after.aligned? 4 x.record = r.aligned? 4 x.record :=
    Region.aligned?_congr fun k hlow hhigh => heq k hlow (by omega)
  have hrollback : after.little? 4 (x.record + Bus.rollbackField) =
      r.little? 4 (x.record + Bus.rollbackField) := by
    apply Region.little?_congr
    intro k hlow hhigh
    rw [Bus.rollbackField] at hlow hhigh
    exact heq k (by omega) (by omega)
  unfold Tells at h ⊢
  split at h
  · obtain ⟨hlen, hholds⟩ := h
    refine ⟨hlen, hholds.congr ?_⟩
    intro k hlow hhigh
    rw [Bus.length_recordBytes] at hhigh
    exact heq k hlow (by omega)
  · rw [hcommit, hrollback]
    exact h
  · rw [hcommit, hrollback]
    exact h

theorem Tells.pass {c next : Cursor} {answer : Option Bytes}
    {i j : Nat} (h : Tells recordSize r x) (hx : x.record = slotAt recordSize j)
    (hc : c.position = slotAt recordSize i) (hpoll : Bus.Polled recordSize r i answer next after) :
    Tells recordSize after (x.pass r c next) := by
  -- A committed record is not written to, so only a pending one can tell something new.
  have hkept (hcommit : r.aligned? 4 x.record = some 1) : Tells recordSize after x := by
    rw [hx] at hcommit
    apply h.congr
    rw [hx]
    exact hpoll.writes.committed j hcommit
  cases hfate : x.fate with
  | filled payload =>
      have hold := h
      rw [Tells, hfate] at hold
      have hmod := Bus.slotAt_mod recordSize j
      have hnew := hkept (Bus.fields_of_holds (by rw [hx]; omega) hold.2).1
      rw [Tells, hfate] at hnew
      rw [Tells, Reservation.pass, hfate]
      exact hnew
  | abandoned =>
      have hold := h
      rw [Tells, hfate] at hold
      have hnew := hkept hold.1
      rw [Tells, hfate] at hnew
      rw [Tells, Reservation.pass, hfate]
      exact hnew
  | pending =>
      rw [Tells, hfate] at h
      rw [Tells, Reservation.pass, hfate]
      simp only [Bool.or_eq_true, Bool.and_eq_true, decide_eq_true_eq]
      rw [hx] at h ⊢
      rw [hpoll.writes.commit]
      rintro (hbefore | ⟨⟨hlow, hhigh⟩, hcommit⟩)
      · obtain ⟨hcommit, hrollback⟩ := h hbefore
        exact ⟨hcommit, hpoll.writes.rollback j hrollback⟩
      · obtain ⟨k, -, hnext, hpassed⟩ := hpoll.position
        rw [hc, ← Nat.not_lt, Bus.slotAt_lt_iff, Nat.not_lt] at hlow
        rw [hnext, Bus.slotAt_lt_iff] at hhigh
        exact ⟨hcommit, hpassed j hlow hhigh hcommit⟩

/-- Writing into one reserved record leaves the others and the limit as they are. -/
theorem Inv.set (h : s.Inv recordSize) {i : Nat} {x y : Reservation}
    (hx : s.reservations[i]? = some x) (hrecord : y.record = x.record)
    (hy : Tells recordSize after y)
    (hkept : ∀ k, k < x.record ∨ x.record + strideOf recordSize ≤ k →
      after.get k = s.region.get k) :
    Inv recordSize { s with region := after, reservations := s.reservations.set i y } := by
  have hplace := (h.records i x hx).1
  have hbase (j : Nat) : Bus.headerSize ≤ slotAt recordSize j := Nat.le_add_right ..
  have hlimit : Bus.limitIn after = Bus.limitIn s.region :=
    Bus.limitIn_congr fun k hk => hkept k (by have hlow := hbase i; omega)
  refine ⟨?_, ?_, ?_, h.readers⟩
  · rw [hlimit, List.length_set]
    exact h.limit
  · rw [List.length_set]
    exact h.fits
  · intro j z hz
    rw [List.getElem?_set] at hz
    split at hz
    · rename_i hij
      split at hz
      · cases hz
        rw [hrecord, ← hij]
        exact ⟨hplace, hy⟩
      · cases hz
    · rename_i hij
      obtain ⟨hother, htells⟩ := h.records j z hz
      refine ⟨hother, htells.congr ?_⟩
      intro k hlow hhigh
      have hapart := Bus.slotAt_apart recordSize hij
      exact hkept k (by omega)

theorem Inv.reserve (hg : Bus.Grid n recordSize) (h : s.Inv recordSize) {record : Nat}
    (hreserve : Bus.reserveIn (strideOf recordSize) s.region = .ok record after) :
    Inv recordSize { s with region := after, reservations := s.reservations ++ [{ record }] } := by
  have hbound := hg.bound
  have hroom := hg.room
  have hnext := Bus.slotAt_succ recordSize s.reservations.length
  have hlimit := h.limit
  by_cases hfull : n < (Bus.limitIn s.region).toNat + strideOf recordSize
  · cases (Bus.reserveIn_of_lt hfull).symm.trans hreserve
  · cases (Bus.reserveIn_of_le (Nat.le_of_not_lt hfull)).symm.trans hreserve
    rw [hlimit, ← hnext] at hfull ⊢
    obtain ⟨hset, hkept⟩ := Bus.setLimit_spec s.region
      (slotAt recordSize (s.reservations.length + 1)) (by omega)
    refine ⟨?_, ?_, ?_, h.readers⟩
    · rw [Bus.limitIn_of_holds hset (by omega), List.length_append, List.length_singleton]
    · rw [List.length_append, List.length_singleton]
      exact Nat.le_of_not_lt hfull
    · intro i x hx
      rw [List.getElem?_append] at hx
      split at hx
      · obtain ⟨hplace, htells⟩ := h.records i x hx
        refine ⟨hplace, htells.congr ?_⟩
        intro k hlow _
        have hbase : Bus.headerSize ≤ slotAt recordSize i := Nat.le_add_right ..
        exact hkept k (by omega)
      · rename_i hlast
        rw [List.getElem?_singleton] at hx
        split at hx
        · cases hx
          obtain rfl : i = s.reservations.length := by omega
          exact ⟨rfl, by simp [Tells]⟩
        · cases hx

theorem Inv.step {next : Shared n} (hg : Bus.Grid n recordSize) (h : s.Inv recordSize)
    (hstep : Step recordSize s next) : next.Inv recordSize := by
  have hstride := Bus.sixteen_le_strideOf recordSize
  have hbound := hg.bound
  have hrange {i : Nat} {x : Reservation} (hx : s.reservations[i]? = some x) :
      x.record % 4 = 0 ∧ x.record + strideOf recordSize ≤ n := by
    have hfits := h.fits
    have hmod := Bus.slotAt_mod recordSize i
    have hlast := Bus.slotAt_le recordSize (List.getElem?_eq_some_iff.mp hx).1
    rw [(h.records i x hx).1]
    omega
  cases hstep with
  | reserve record region success => exact h.reserve hg success
  | fill i x payload region reserved pending fits success =>
      obtain ⟨haligned, hroom⟩ := hrange reserved
      obtain ⟨after, hfill, hholds, houtside⟩ :=
        Bus.fillIn_spec s.region fits haligned hroom
      cases hfill.symm.trans success
      exact h.set reserved rfl ⟨fits, hholds⟩ houtside
  | abandon i x reserved pending =>
      obtain ⟨haligned, hroom⟩ := hrange reserved
      obtain ⟨hcommit, hrollback, houtside⟩ := Bus.abandonIn_spec s.region haligned (by omega)
      refine h.set reserved rfl ⟨hcommit, hrollback⟩ ?_
      intro k hk
      exact houtside k (by omega)
  | openReader timeout =>
      refine ⟨h.limit, h.fits, h.records, ?_⟩
      intro timeout' c hc
      rcases List.mem_append.mp hc with hold | hnew
      · exact h.readers timeout' c hold
      · cases List.mem_singleton.mp hnew
        exact ⟨0, by simp [Cursor.start, slotAt]⟩
  | poll i timeout now c next answer region reader polled =>
      obtain ⟨j, hc⟩ := h.readers timeout c (List.mem_of_getElem? reader)
      have hpoll := Bus.polled_of_pollIn timeout now (by rw [h.limit]; exact h.fits) hc
      rw [polled] at hpoll
      refine ⟨?_, ?_, ?_, ?_⟩
      · rw [hpoll.writes.limitIn_eq, List.length_map]
        exact h.limit
      · rw [List.length_map]
        exact h.fits
      · intro k y hy
        rw [List.getElem?_map] at hy
        obtain ⟨x, hx, rfl⟩ := Option.map_eq_some_iff.mp hy
        obtain ⟨hplace, htells⟩ := h.records k x hx
        exact ⟨hplace, htells.pass hplace hc hpoll⟩
      · intro timeout' c' hc'
        rcases List.mem_or_eq_of_mem_set hc' with hold | hnew
        · exact h.readers timeout' c' hold
        · cases hnew
          obtain ⟨k, -, hnext, -⟩ := hpoll.position
          exact ⟨k, hnext⟩

theorem Reached.inv (hg : Bus.Grid n recordSize) (h : Reached recordSize s) :
    s.Inv recordSize := by
  induction h with
  | start region count limit fits =>
      refine ⟨by simpa using limit, by simpa using fits, ?_, by simp⟩
      intro i x hx
      rw [List.getElem?_map] at hx
      obtain ⟨j, hj, rfl⟩ := Option.map_eq_some_iff.mp hx
      obtain ⟨_, rfl⟩ := List.getElem?_eq_some_iff.mp hj
      exact ⟨by rw [List.getElem_range], by simp [Tells]⟩
  | step _ hstep ih => exact ih.step hg hstep

/-- In every run, once a record has been rolled back by a reader or abandoned by its writer, no
reader is answered it, provided that its writer does not fill it after all. If the writer does,
every reader that comes to the record is answered the payload, the rollback notwithstanding. -/
theorem filled_of_answered
    (hroom : Bus.headerSize + (Bus.recordHeaderSize + recordSize.toNat + 7) / 8 * 8 ≤ n)
    (hbound : n < UInt64.size) (h : Reached recordSize s) {x : Reservation}
    (hx : x ∈ s.reservations) (hback : x.rolledBack = true ∨ x.fate = .abandoned)
    {timeout : Nat} {c : Cursor} (hreader : (timeout, c) ∈ s.readers) (now : Nat) :
    ((∀ payload, x.fate ≠ .filled payload) → ∀ payload next after,
      Bus.pollIn (strideOf recordSize) timeout now c s.region = (some payload, next, after) →
        next.position ≠ x.record + strideOf recordSize) ∧
    ∀ payload, x.fate = .filled payload → c.position = x.record →
      Bus.pollIn (strideOf recordSize) timeout now c s.region =
        (some (payload.take (payload.length % UInt32.size)), c.advance (strideOf recordSize),
          s.region) := by
  have hinv := h.inv ⟨hroom, hbound⟩
  obtain ⟨j, hj⟩ := List.mem_iff_getElem?.mp hx
  obtain ⟨hplace, htells⟩ := hinv.records j x hj
  obtain ⟨i, hc⟩ := hinv.readers timeout c hreader
  refine ⟨?_, ?_⟩
  · intro hnever payload next after hpoll hnext
    have hpolled := Bus.polled_of_pollIn timeout now (by rw [hinv.limit]; exact hinv.fits) hc
    rw [hpoll] at hpolled
    obtain ⟨k, hposition, hcommit, hrollback⟩ := hpolled.answer payload rfl
    -- The record that is answered is the one that ends where the cursor is left.
    rw [hnext, hplace, ← Bus.slotAt_succ, Bus.slotAt_inj] at hposition
    obtain rfl : j = k := by omega
    rw [← hplace] at hcommit hrollback
    cases hfate : x.fate with
    | filled payload' => exact hnever payload' hfate
    | abandoned =>
        rw [Tells, hfate] at htells
        cases htells.2.symm.trans hrollback
    | pending =>
        rw [Tells, hfate] at htells
        rcases hback with hrolled | habandoned
        · exact (htells hrolled).1 hcommit
        · cases hfate.symm.trans habandoned
  · intro payload hfate hposition
    rw [Tells, hfate] at htells
    have hmod := Bus.slotAt_mod recordSize j
    have hlast := Bus.slotAt_le recordSize (List.getElem?_eq_some_iff.mp hj).1
    rw [← hinv.limit, ← hplace] at hlast
    rw [← hplace] at hmod
    rw [← hposition] at htells hlast hmod
    exact Bus.pollIn_of_record
      (Bus.look_of_holds timeout now (by omega) htells.1 htells.2 hlast)

/-- A bus with room for two records of 16 bytes, in which one record has been reserved. -/
def sampleReserved : Region 72 :=
  ((Bus.reserveIn (strideOf 16)).perform (Bus.setLimit ⟨.blank⟩ Bus.headerSize)).2

/-- The bus once a reader that does not wait has rolled the record back. -/
def sampleRolledBack : Region 72 := (Bus.pollIn (strideOf 16) 0 0 .start sampleReserved).2.2

/-- The bus once the writer has filled the record after all. -/
def sampleFilled : Region 72 :=
  ((Bus.fillIn (strideOf 16) Bus.headerSize [0xde, 0xad, 0xbe, 0xef]).perform sampleRolledBack).2

theorem reached_sampleRolledBack : Reached 16
    ⟨sampleRolledBack, [⟨Bus.headerSize, .pending, true⟩], [(0, ⟨40, none⟩), (0, .start)]⟩ := by
  have hstart : Reached 16 (⟨Bus.setLimit ⟨.blank⟩ Bus.headerSize, [], []⟩ : Shared 72) :=
    .start _ 0 (by decide +kernel) (by decide)
  have hreserve : Bus.reserveIn (strideOf 16) (Bus.setLimit (⟨.blank⟩ : Region 72) Bus.headerSize) =
      .ok Bus.headerSize sampleReserved := Attempt.eq_ok_of_perform (by decide +kernel)
  have hpoll : Bus.pollIn (strideOf 16) 0 0 .start sampleReserved =
      (none, ⟨40, none⟩, sampleRolledBack) := by decide +kernel
  have hreserved := hstart.step (.reserve _ _ hreserve)
  have hrolledBack := (hreserved.step (.openReader 0)).step (.poll 0 0 0 _ _ _ _ rfl hpoll)
  have hpassed :
      Reservation.pass sampleReserved .start ⟨40, none⟩ ⟨Bus.headerSize, .pending, false⟩ =
        ⟨Bus.headerSize, .pending, true⟩ := by decide +kernel
  simp only [List.nil_append, List.map_cons, List.map_nil, List.set_cons_zero, hpassed]
    at hrolledBack
  exact hrolledBack.step (.openReader 0)

theorem reached_sampleFilled : Reached 16
    ⟨sampleFilled, [⟨Bus.headerSize, .filled [0xde, 0xad, 0xbe, 0xef], true⟩],
      [(0, ⟨40, none⟩), (0, .start)]⟩ := by
  have hfill : Bus.fillIn (strideOf 16) Bus.headerSize [0xde, 0xad, 0xbe, 0xef] sampleRolledBack =
      .ok () sampleFilled := Attempt.eq_ok_of_perform (by decide +kernel)
  exact reached_sampleRolledBack.step (.fill 0 ⟨Bus.headerSize, .pending, true⟩
    [0xde, 0xad, 0xbe, 0xef] _ rfl rfl (by decide) hfill)

theorem filled_of_answered_sample :
    (∀ payload next after,
      Bus.pollIn (strideOf 16) 0 0 .start sampleRolledBack = (some payload, next, after) →
        next.position ≠ 40) ∧
      (Bus.pollIn (strideOf 16) 0 0 .start sampleFilled).1 = some [0xde, 0xad, 0xbe, 0xef] := by
  have hroom : Bus.headerSize + (Bus.recordHeaderSize + (16 : UInt64).toNat + 7) / 8 * 8 ≤ 72 := by
    decide
  have hbound : 72 < UInt64.size := by decide
  obtain ⟨hnever, -⟩ := filled_of_answered hroom hbound reached_sampleRolledBack
    (List.mem_singleton_self _) (.inl rfl) (by simp : (0, Cursor.start) ∈ _) 0
  obtain ⟨-, hanswer⟩ := filled_of_answered hroom hbound reached_sampleFilled
    (List.mem_singleton_self _) (.inl rfl) (by simp : (0, Cursor.start) ∈ _) 0
  refine ⟨hnever (by simp), ?_⟩
  rw [hanswer _ rfl rfl]
  rfl

/-- A reader rolls a record back and steps over it; then its writer fills it, and a reader that
comes later is answered the payload. -/
theorem answered_after_rolledBack :
    ∃ (s : Shared 72) (x : Reservation), Reached 16 s ∧ x ∈ s.reservations ∧
      x.rolledBack = true ∧ (0, Cursor.start) ∈ s.readers ∧
      Bus.pollIn (strideOf 16) 0 0 .start s.region =
        (some [0xde, 0xad, 0xbe, 0xef], ⟨x.record + strideOf 16, none⟩, s.region) := by
  refine ⟨_, _, reached_sampleFilled, List.mem_singleton_self _, rfl, by simp, ?_⟩
  decide +kernel

end Shared

end Columnlet

import Columnlet.Proofs.Bus.Looks
import Columnlet.Proofs.Bus.Sending

/-! # Waiting for records

A reader rolls a record back only after it has waited for that record for its full timeout. A poll
may look at several records, and what the reader remembers is one record and one time; yet in every
run this time is that of the first poll that found the record at the cursor not committed, and from
that poll on no poll has answered anything or moved the reader. -/

namespace Columnlet

namespace Bus

variable {n : Nat} {recordSize : UInt64} {r s : Region n} {payload : Bytes}

/-! ## Records that are reserved -/

/-- A record has been reserved: the limit is behind it. -/
def IsReserved (recordSize : UInt64) (r : Region n) (record : Nat) : Prop :=
  ∃ i, record = slotAt recordSize i ∧ record + strideOf recordSize ≤ (limitIn r).toNat

section

variable {count record : Nat} (h : Reserved r recordSize count)

include h

theorem Reserved.congr (heq : limitIn s = limitIn r) : Reserved s recordSize count :=
  ⟨heq ▸ h.limit, h.fits⟩

/-- A record that has been reserved is aligned and inside the window, behind the limit word. -/
theorem Reserved.bounds (hrecord : IsReserved recordSize r record) :
    record % 8 = 0 ∧ headerSize ≤ record ∧ record + strideOf recordSize ≤ n := by
  obtain ⟨i, rfl, hlimit⟩ := hrecord
  rw [h.limit] at hlimit
  exact ⟨slotAt_mod recordSize i, Nat.le_add_right .., Nat.le_trans hlimit h.fits⟩

theorem Reserved.fill (hrecord : IsReserved recordSize r record)
    (hlen : payload.length ≤ recordSize.toNat)
    (hfill : fillIn (strideOf recordSize) record payload r = .ok () s) :
    Reserved s recordSize count := by
  obtain ⟨haligned, hheader, hroom⟩ := h.bounds hrecord
  obtain ⟨filled, hok, -, houtside⟩ := fillIn_spec r hlen (by omega) hroom
  cases hok.symm.trans hfill
  exact h.congr (limitIn_congr fun k hk => houtside k (.inl (by omega)))

theorem Reserved.abandon (hrecord : IsReserved recordSize r record) :
    Reserved (abandonIn record r) recordSize count := by
  obtain ⟨haligned, hheader, hroom⟩ := h.bounds hrecord
  have hsixteen := sixteen_le_strideOf recordSize
  obtain ⟨-, -, houtside⟩ := abandonIn_spec r (show record % 4 = 0 by omega) (by omega)
  exact h.congr (limitIn_congr fun k hk => houtside k (.inl (by omega)))

theorem Reserved.sendIn (hg : Grid n recordSize) (payload : Bytes) :
    ∃ count, Reserved ((sendIn recordSize (strideOf recordSize) payload).perform r).2
      recordSize count := by
  rw [Attempt.perform, EStateM.run]
  rcases sendIn_cases hg h.limit payload with
    ⟨-, hsend⟩ | ⟨-, -, hsend⟩ | ⟨after, hsend, haccepted⟩
  · rw [hsend]
    exact ⟨count, h⟩
  · rw [hsend]
    exact ⟨count, h⟩
  · rw [hsend]
    exact ⟨count + 1, haccepted.reserved⟩

end

end Bus

/-! ## Runs -/

open Bus (strideOf slotAt)

/-- A poll in a run: its time, and the cursor and the region that it begins with. -/
structure Poll (n : Nat) where
  now : Nat
  cursor : Cursor
  region : Region n

namespace Poll

variable {n : Nat}

/-- What a poll answers, and the cursor and the region that it leaves. -/
def result (recordSize : UInt64) (timeout : Nat) (p : Poll n) : Option Bytes × Cursor × Region n :=
  Bus.pollIn (strideOf recordSize) timeout p.now p.cursor p.region

/-- A poll comes to look at a record that the limit leaves room for and that is not committed. -/
def Observes (recordSize : UInt64) (timeout record : Nat) (p : Poll n) : Prop :=
  ∃ c r, Bus.Sees (strideOf recordSize) timeout p.now c r p.cursor p.region ∧
    c.position = record ∧ Bus.Ahead (strideOf recordSize) c r ∧ r.aligned? 4 record ≠ some 1

/-- A poll comes to look at a record that is not committed, sets its rollback word and steps over
it. -/
def RollsBack (recordSize : UInt64) (timeout record : Nat) (p : Poll n) : Prop :=
  ∃ c r marked, Bus.Sees (strideOf recordSize) timeout p.now c r p.cursor p.region ∧
    c.position = record ∧ r.aligned? 4 record ≠ some 1 ∧
    r.write? (record + Bus.rollbackField) Bus.one = some marked ∧
    Bus.look (strideOf recordSize) timeout p.now c r =
      (.skip (c.advance (strideOf recordSize)), marked)

end Poll

/-- The first of some polls that has a property. -/
def FirstOf {n : Nat} (P : Poll n → Prop) (polls : List (Poll n)) (p : Poll n) : Prop :=
  ∃ before after, polls = before ++ p :: after ∧ P p ∧ ∀ q ∈ before, ¬ P q

namespace FirstOf

variable {n : Nat} {P : Poll n → Prop} {polls : List (Poll n)} {p q : Poll n}

theorem mem (h : FirstOf P polls p) : p ∈ polls := by
  obtain ⟨before, after, rfl, -⟩ := h
  simp

theorem holds (h : FirstOf P polls p) : P p := by
  obtain ⟨before, after, -, hp, -⟩ := h
  exact hp

theorem append (h : FirstOf P polls p) (rest : List (Poll n)) : FirstOf P (polls ++ rest) p := by
  obtain ⟨before, after, rfl, hp, hbefore⟩ := h
  exact ⟨before, after ++ rest, by simp, hp, hbefore⟩

theorem snoc (h : ∀ q ∈ polls, ¬ P q) (hp : P p) : FirstOf P (polls ++ [p]) p :=
  ⟨polls, [], rfl, hp, h⟩

theorem unique (h : FirstOf P polls p) (h' : FirstOf P polls q) : p = q := by
  classical
  have hfind {x : Poll n} (hx : FirstOf P polls x) :
      polls.find? (fun q => decide (P q)) = some x := by
    obtain ⟨before, after, rfl, hp, hbefore⟩ := hx
    exact List.find?_eq_some_iff_append.mpr
      ⟨decide_eq_true hp, before, after, rfl, by simpa using hbefore⟩
  exact Option.some.inj ((hfind h).symm.trans (hfind h'))

end FirstOf

/-- A bus and a reader in a run: the region, where the reader stands, and its polls so far. -/
structure Waiting (n : Nat) where
  region : Region n
  cursor : Cursor := .start
  polls : List (Poll n) := []

namespace Waiting

variable {n : Nat}

/-- The poll of the reader at a time. -/
def poll (s : Waiting n) (now : Nat) : Poll n := ⟨now, s.cursor, s.region⟩

/-- The steps of a run. Writers reserve records, fill or abandon any record that has been reserved,
and send, and the reader polls at times that never go back. -/
inductive Step (recordSize : UInt64) (timeout : Nat) : Waiting n → Waiting n → Prop
  | reserve {s : Waiting n} (record : Nat) (region : Region n)
      (success : Bus.reserveIn (strideOf recordSize) s.region = .ok record region) :
      Step recordSize timeout s { s with region }
  | fill {s : Waiting n} (record : Nat) (payload : Bytes) (region : Region n)
      (reserved : Bus.IsReserved recordSize s.region record)
      (fits : payload.length ≤ recordSize.toNat)
      (success : Bus.fillIn (strideOf recordSize) record payload s.region = .ok () region) :
      Step recordSize timeout s { s with region }
  | abandon {s : Waiting n} (record : Nat)
      (reserved : Bus.IsReserved recordSize s.region record) :
      Step recordSize timeout s { s with region := Bus.abandonIn record s.region }
  | send {s : Waiting n} (payload : Bytes) :
      Step recordSize timeout s { s with
        region := ((Bus.sendIn recordSize (strideOf recordSize) payload).perform s.region).2 }
  | poll {s : Waiting n} (now : Nat) (later : ∀ p ∈ s.polls, p.now ≤ now) :
      Step recordSize timeout s {
        region := ((s.poll now).result recordSize timeout).2.2
        cursor := ((s.poll now).result recordSize timeout).2.1
        polls := s.polls ++ [s.poll now] }

/-- What a bus and a reader can come to, from any number of records reserved before. -/
inductive Reached (recordSize : UInt64) (timeout : Nat) : Waiting n → Prop
  | start (region : Region n) (count : Nat) (reserved : Bus.Reserved region recordSize count) :
      Reached recordSize timeout { region }
  | step {s next : Waiting n} (before : Reached recordSize timeout s)
      (step : Step recordSize timeout s next) : Reached recordSize timeout next

/-- What the reader remembers of the record at its cursor. The records that polls have found not
committed are not behind the cursor; from a poll on that has found the one at the cursor so, no poll
has answered anything or left the reader elsewhere; and the reader counts from the first of these
polls, or from now on if there are none. -/
structure Remembers (recordSize : UInt64) (timeout : Nat) (polls : List (Poll n)) (c : Cursor) :
    Prop where
  behind : ∀ p ∈ polls, ∀ record, p.Observes recordSize timeout record → record ≤ c.position
  still : ∀ before p after, polls = before ++ p :: after →
    p.Observes recordSize timeout c.position → ∀ q ∈ p :: after,
      (q.result recordSize timeout).1 = none ∧
        (q.result recordSize timeout).2.1.position = c.position
  since : (∃ p, FirstOf (Poll.Observes recordSize timeout c.position) polls p ∧
      ∀ now, c.since now = p.now) ∨
    (∀ p ∈ polls, ¬ p.Observes recordSize timeout c.position) ∧ ∀ now, c.since now = now

variable {recordSize : UInt64} {timeout record : Nat} {polls : List (Poll n)} {p : Poll n}
  {s next : Waiting n}

theorem Remembers.never (h : Remembers recordSize timeout polls p.cursor)
    (hfurther : p.cursor.position < record) (q : Poll n) (hq : q ∈ polls) :
    ¬ q.Observes recordSize timeout record :=
  fun hobserves => Nat.not_lt.mpr (h.behind q hq record hobserves) hfurther

theorem never_snoc (hpolls : ∀ q ∈ polls, ¬ q.Observes recordSize timeout record)
    (hp : ¬ p.Observes recordSize timeout record) (q : Poll n) (hq : q ∈ polls ++ [p]) :
    ¬ q.Observes recordSize timeout record := by
  rcases List.mem_append.mp hq with hold | hnew
  · exact hpolls q hold
  · rw [List.mem_singleton.mp hnew]
    exact hp

section

variable (hc : Bus.Stands recordSize p.cursor p.region)

include hc

/-- A poll leaves the reader at the last record that it looks at, or behind it. -/
theorem observes_le (h : p.Observes recordSize timeout record) :
    record ≤ (p.result recordSize timeout).2.1.position ∧
      ((p.result recordSize timeout).1 = none ∨
        record < (p.result recordSize timeout).2.1.position) := by
  obtain ⟨c, r, hsees, rfl, -, -⟩ := h
  rcases hresult : p.result recordSize timeout with ⟨answer, next, after⟩
  have hpoll := hsees.pollIn_eq.symm.trans hresult
  refine ⟨(hsees.stands hc).1.position_le hpoll, ?_⟩
  cases answer with
  | none => exact .inl rfl
  | some payload => exact .inr (Bus.position_lt_of_pollIn (Bus.strideOf_pos recordSize) hpoll)

/-- The reader counts from the first poll that has found the record of a look not committed. -/
theorem Remembers.exists_first (h : Remembers recordSize timeout polls p.cursor) {c : Cursor}
    {r : Region n} (hsees : Bus.Sees (strideOf recordSize) timeout p.now c r p.cursor p.region)
    (ahead : Bus.Ahead (strideOf recordSize) c r) (hopen : r.aligned? 4 c.position ≠ some 1) :
    ∃ q, FirstOf (Poll.Observes recordSize timeout c.position) (polls ++ [p]) q ∧
      c.since p.now = q.now := by
  have hp : p.Observes recordSize timeout c.position := ⟨c, r, hsees, rfl, ahead, hopen⟩
  rcases (hsees.stands hc).2 with ⟨rfl, rfl⟩ | ⟨hnone, hfurther⟩
  · rcases h.since with ⟨q, hq, hsince⟩ | ⟨hnever, hsince⟩
    · exact ⟨q, hq.append [p], hsince p.now⟩
    · exact ⟨p, .snoc hnever hp, hsince p.now⟩
  · exact ⟨p, .snoc (h.never hfurther) hp, Cursor.since_of_none hnone p.now⟩

theorem Remembers.since_poll (h : Remembers recordSize timeout polls p.cursor)
    {answer : Option Bytes} {next : Cursor} {after : Region n}
    (hresult : p.result recordSize timeout = (answer, next, after)) :
    (∃ q, FirstOf (Poll.Observes recordSize timeout next.position) (polls ++ [p]) q ∧
      ∀ now, next.since now = q.now) ∨
    (∀ q ∈ polls ++ [p], ¬ q.Observes recordSize timeout next.position) ∧
      ∀ now, next.since now = now := by
  obtain ⟨c, r, hsees, hlast⟩ := Bus.exists_last hresult
  obtain ⟨hstands, hplace⟩ := hsees.stands hc
  rcases hlast with ⟨rfl, hlook⟩ | ⟨payload, rfl, hlook⟩
  · by_cases ahead : Bus.Ahead (strideOf recordSize) c r
    · obtain ⟨hopen, rfl⟩ := hstands.wait ahead hlook
      obtain ⟨q, hq, hsince⟩ := h.exists_first hc hsees ahead hopen
      refine .inl ⟨q, hq, ?_⟩
      intro later
      rw [Cursor.since_wait, hsince]
    · -- The limit leaves no room for the record, so this poll has not found anything there.
      have hp : ¬ p.Observes recordSize timeout c.position := by
        rintro ⟨c', r', hsees', hsame, ahead', -⟩
        obtain ⟨rfl, rfl⟩ := hsees.unique hc hsees' hsame
        exact ahead ahead'
      rw [Bus.eq_of_behind ahead hlook]
      rcases hplace with ⟨rfl, rfl⟩ | ⟨hnone, hfurther⟩
      · rcases h.since with ⟨q, hq, hsince⟩ | ⟨hnever, hsince⟩
        · exact .inl ⟨q, hq.append [p], hsince⟩
        · exact .inr ⟨never_snoc hnever hp, hsince⟩
      · exact .inr ⟨never_snoc (h.never hfurther) hp, Cursor.since_of_none hnone⟩
  · have hnext : c.position < next.position := by
      rw [Bus.eq_advance_of_record hlook]
      exact Nat.lt_add_of_pos_right (Bus.strideOf_pos recordSize)
    have hfurther : p.cursor.position < next.position := by
      rcases hplace with ⟨rfl, -⟩ | ⟨-, hlt⟩ <;> omega
    have hp : ¬ p.Observes recordSize timeout next.position := by
      intro hobserves
      have hle := (observes_le hc hobserves).2
      rw [hresult] at hle
      rcases hle with hnone | hlt
      · cases hnone
      · exact Nat.lt_irrefl _ hlt
    refine .inr ⟨never_snoc (h.never hfurther) hp, Cursor.since_of_none ?_⟩
    rw [Bus.eq_advance_of_record hlook]
    rfl

theorem Remembers.still_poll (h : Remembers recordSize timeout polls p.cursor)
    {answer : Option Bytes} {next : Cursor} {after : Region n}
    (hresult : p.result recordSize timeout = (answer, next, after)) {before rest : List (Poll n)}
    {q : Poll n} (hsplit : polls ++ [p] = before ++ q :: rest)
    (hobserves : q.Observes recordSize timeout next.position) :
    ∀ x ∈ q :: rest, (x.result recordSize timeout).1 = none ∧
      (x.result recordSize timeout).2.1.position = next.position := by
  have hforward : p.cursor.position ≤ next.position := hc.position_le hresult
  intro x hx
  -- The record was found by this poll, or by an earlier one and the reader has not moved since.
  rcases List.eq_nil_or_concat rest with rfl | ⟨rest, last, rfl⟩
  · obtain ⟨rfl, hq⟩ := List.append_inj' hsplit rfl
    cases hq
    have hle := (observes_le hc hobserves).2
    rw [hresult] at hle
    rw [List.mem_singleton.mp hx, hresult]
    exact ⟨hle.resolve_right (Nat.lt_irrefl _), rfl⟩
  · rw [List.concat_eq_append] at hx hsplit
    obtain ⟨hpolls, hlast⟩ := List.append_inj'
      (show polls ++ [p] = (before ++ q :: rest) ++ [last] by simpa using hsplit) rfl
    cases hlast
    have hback := h.behind q (by rw [hpolls]; simp) _ hobserves
    have hsame : next.position = p.cursor.position := Nat.le_antisymm hback hforward
    rw [← List.cons_append] at hx
    rcases List.mem_append.mp hx with hold | hnew
    · rw [hsame] at hobserves ⊢
      exact h.still before q rest hpolls hobserves x hold
    · rw [List.mem_singleton.mp hnew, hresult]
      refine ⟨?_, rfl⟩
      cases answer with
      | none => rfl
      | some payload =>
          have hmoved := Bus.position_lt_of_pollIn (Bus.strideOf_pos recordSize) hresult
          omega

/-- What the reader remembers after a poll. -/
theorem Remembers.poll (h : Remembers recordSize timeout polls p.cursor) :
    Remembers recordSize timeout (polls ++ [p]) (p.result recordSize timeout).2.1 := by
  rcases hresult : p.result recordSize timeout with ⟨answer, next, after⟩
  refine ⟨?_, fun _ _ _ => h.still_poll hc hresult, h.since_poll hc hresult⟩
  intro q hq record hobserves
  rcases List.mem_append.mp hq with hold | hnew
  · exact Nat.le_trans (h.behind q hold record hobserves) (hc.position_le hresult)
  · rw [List.mem_singleton.mp hnew] at hobserves
    have hle := (observes_le hc hobserves).1
    rwa [hresult] at hle

/-- A poll rolls a record back if it finds it not committed and the first poll that did so was at
least the timeout before. -/
theorem Remembers.rollsBack_iff (h : Remembers recordSize timeout polls p.cursor)
    (hnow : ∀ q ∈ polls, q.now ≤ p.now) :
    p.RollsBack recordSize timeout record ↔
      p.Observes recordSize timeout record ∧ record + strideOf recordSize ≤ n ∧
        ∃ first, FirstOf (Poll.Observes recordSize timeout record) (polls ++ [p]) first ∧
          first.now + timeout ≤ p.now := by
  constructor
  · rintro ⟨c, r, marked, hsees, rfl, hopen, hmark, hlook⟩
    have ahead := Bus.ahead_of_skip hlook
    have hstands := (hsees.stands hc).1
    refine ⟨⟨c, r, hsees, rfl, ahead, hopen⟩, (hstands.inside ahead).2.2, ?_⟩
    have hlate := (hstands.rollBack_iff ahead hopen).mp ⟨marked, hmark, hlook⟩
    obtain ⟨q, hq, hsince⟩ := h.exists_first hc hsees ahead hopen
    refine ⟨q, hq, ?_⟩
    have hbefore : q.now ≤ p.now := by
      rcases List.mem_append.mp hq.mem with hold | hnew
      · exact hnow q hold
      · exact Nat.le_of_eq (congrArg Poll.now (List.mem_singleton.mp hnew))
    rw [hsince] at hlate
    omega
  · rintro ⟨⟨c, r, hsees, rfl, ahead, hopen⟩, -, first, hfirst, hover⟩
    obtain ⟨q, hq, hsince⟩ := h.exists_first hc hsees ahead hopen
    obtain rfl := hfirst.unique hq
    have hstands := (hsees.stands hc).1
    obtain ⟨marked, hmark, hlook⟩ := (hstands.rollBack_iff ahead hopen).mpr
      (show timeout ≤ p.now - c.since p.now by rw [hsince]; omega)
    exact ⟨c, r, marked, hsees, rfl, hopen, hmark, hlook⟩

/-- A poll that rolls a record back leaves its rollback word set and the reader behind it. -/
theorem result_of_rollsBack (h : p.RollsBack recordSize timeout record) :
    (p.result recordSize timeout).2.2.little? 4 (record + Bus.rollbackField) = some 1 ∧
      record + strideOf recordSize ≤ (p.result recordSize timeout).2.1.position := by
  obtain ⟨c, r, marked, hsees, rfl, hopen, -, hlook⟩ := h
  have hstands := (hsees.stands hc).1
  obtain ⟨i, hi⟩ := hstands.position
  rcases hresult : p.result recordSize timeout with ⟨answer, next, after⟩
  have hpoll := hsees.pollIn_eq.symm.trans hresult
  have hbehind := (hstands.skip hlook).position_le
    ((Bus.pollIn_of_skip hlook).symm.trans hpoll)
  refine ⟨?_, hbehind⟩
  have hpolled := Bus.polled_of_pollIn timeout p.now hstands.fits hi
  rw [hpoll] at hpolled
  obtain ⟨j, -, hj, hmarked⟩ := hpolled.position
  have hij : i < j := by
    rw [hj, Bus.position_advance hi, ← Nat.not_lt, Bus.slotAt_lt_iff] at hbehind
    omega
  rw [hi] at hopen ⊢
  exact hmarked i (Nat.le_refl i) hij hopen

end

/-! ## The invariant -/

/-- The limit is between the records of the window, the reader stands at a record, and it remembers
what its polls have found there. -/
structure Inv (recordSize : UInt64) (timeout : Nat) (s : Waiting n) : Prop where
  reserved : ∃ count, Bus.Reserved s.region recordSize count
  position : ∃ i, s.cursor.position = slotAt recordSize i
  remembers : Remembers recordSize timeout s.polls s.cursor

theorem Inv.stands (h : Inv recordSize timeout s) :
    Bus.Stands recordSize s.cursor s.region := by
  obtain ⟨count, hreserved⟩ := h.reserved
  exact ⟨h.position, by rw [hreserved.limit]; exact hreserved.fits⟩

theorem Inv.step (hg : Bus.Grid n recordSize) (h : Inv recordSize timeout s)
    (hstep : Step recordSize timeout s next) : Inv recordSize timeout next := by
  obtain ⟨count, hreserved⟩ := h.reserved
  cases hstep with
  | reserve record region success =>
      exact ⟨⟨count + 1, hreserved.reserve hg success⟩, h.position, h.remembers⟩
  | fill record payload region reserved fits success =>
      exact ⟨⟨count, hreserved.fill reserved fits success⟩, h.position, h.remembers⟩
  | abandon record reserved =>
      exact ⟨⟨count, hreserved.abandon reserved⟩, h.position, h.remembers⟩
  | send payload => exact ⟨hreserved.sendIn hg payload, h.position, h.remembers⟩
  | poll now later =>
      have hc : Bus.Stands recordSize (s.poll now).cursor (s.poll now).region := h.stands
      obtain ⟨i, hi⟩ := h.position
      have hpolled := Bus.polled_of_pollIn timeout now hc.fits hi
      obtain ⟨j, -, hj, -⟩ := hpolled.position
      refine ⟨⟨count, hreserved.congr hpolled.writes.limitIn_eq⟩, ⟨j, hj⟩, ?_⟩
      exact Remembers.poll hc h.remembers

theorem Reached.inv (hg : Bus.Grid n recordSize) (h : Reached recordSize timeout s) :
    Inv recordSize timeout s := by
  induction h with
  | start region count reserved =>
      refine ⟨⟨count, reserved⟩, ⟨0, (Bus.slotAt_zero _).symm⟩, by simp, ?_, .inr ⟨by simp, ?_⟩⟩
      · intro before p after hsplit
        simp at hsplit
      · exact Cursor.since_of_none rfl
  | step _ hstep ih => exact ih.step hg hstep

/-- In every run, a poll rolls a record back if and only if it comes to look at it, the record is
inside the window and in front of the limit and not committed, and the first poll that found this
record so, which may be this one, was at least the timeout before. Then the rollback word of the
record is set, and the reader is behind it. From the first of these polls on, none before this one
has answered anything or left the reader elsewhere. A record that no poll has found so before is not
rolled back by a reader that waits at all, however long it has waited for others. -/
theorem rollsBack_iff_of_reached
    (hroom : Bus.headerSize + (Bus.recordHeaderSize + recordSize.toNat + 7) / 8 * 8 ≤ n)
    (hbound : n < UInt64.size) (h : Reached recordSize timeout s) {now : Nat}
    (hnow : ∀ p ∈ s.polls, p.now ≤ now) (record : Nat) :
    ((s.poll now).RollsBack recordSize timeout record ↔
      (s.poll now).Observes recordSize timeout record ∧
        record + strideOf recordSize ≤ n ∧
        ∃ first, FirstOf (Poll.Observes recordSize timeout record) (s.polls ++ [s.poll now]) first ∧
          first.now + timeout ≤ now) ∧
    ((s.poll now).RollsBack recordSize timeout record →
      ((s.poll now).result recordSize timeout).2.2.little? 4 (record + Bus.rollbackField) =
        some 1 ∧
      record + strideOf recordSize ≤
        ((s.poll now).result recordSize timeout).2.1.position) ∧
    ((s.poll now).Observes recordSize timeout record →
      ∀ before p after, s.polls = before ++ p :: after → p.Observes recordSize timeout record →
        ∀ q ∈ p :: after, (q.result recordSize timeout).1 = none ∧
          (q.result recordSize timeout).2.1.position = record) ∧
    (0 < timeout → (∀ p ∈ s.polls, ¬ p.Observes recordSize timeout record) →
      ¬ (s.poll now).RollsBack recordSize timeout record) := by
  have hg : Bus.Grid n recordSize := ⟨hroom, hbound⟩
  have hinv := h.inv hg
  have hc : Bus.Stands recordSize (s.poll now).cursor (s.poll now).region := hinv.stands
  have hiff : (s.poll now).RollsBack recordSize timeout record ↔ _ :=
    hinv.remembers.rollsBack_iff hc hnow
  refine ⟨hiff, result_of_rollsBack hc, ?_, ?_⟩
  · rintro ⟨c, r, hsees, rfl, -, -⟩ before p after hsplit hobserves
    have hback := hinv.remembers.behind p (by rw [hsplit]; simp) _ hobserves
    -- An earlier poll has found the record, so it is the one that the reader stood at.
    have hsame : c.position = s.cursor.position := by
      rcases (hsees.stands hc).2 with ⟨rfl, -⟩ | ⟨-, hlt⟩
      · rfl
      · exact absurd hback (Nat.not_le.mpr hlt)
    rw [hsame] at hobserves ⊢
    exact hinv.remembers.still before p after hsplit hobserves
  · intro hwaits hnever hrolls
    obtain ⟨-, -, first, hfirst, hover⟩ := hiff.mp hrolls
    rcases List.mem_append.mp hfirst.mem with hold | hnew
    · exact hnever first hold hfirst.holds
    · rw [List.mem_singleton.mp hnew] at hover
      change now + timeout ≤ now at hover
      omega

/-- A reader that waits for a reserved record since time zero. -/
def sampleCursor : Cursor := ⟨Bus.headerSize, some (Bus.headerSize, 0)⟩

/-- The poll at time zero. -/
def sampleFirst : Poll 72 := ⟨0, .start, Shared.sampleReserved⟩

/-- The reader after this poll and one at time five, with a timeout of ten. -/
def sampleWaiting : Waiting 72 :=
  ⟨Shared.sampleReserved, sampleCursor, [sampleFirst, ⟨5, sampleCursor, Shared.sampleReserved⟩]⟩

theorem reached_sampleWaiting : Reached 16 10 sampleWaiting := by
  have hlimit : (Bus.limitIn Shared.sampleReserved).toNat = slotAt 16 1 := by decide +kernel
  have hstart : Reached 16 10 { region := Shared.sampleReserved } :=
    .start _ 1 ⟨hlimit, by decide⟩
  have hfirst : Poll.result 16 10 (poll { region := Shared.sampleReserved } 0) =
      (none, sampleCursor, Shared.sampleReserved) := by decide +kernel
  have hsecond : Poll.result 16 10 (poll ⟨Shared.sampleReserved, sampleCursor, [sampleFirst]⟩ 5) =
      (none, sampleCursor, Shared.sampleReserved) := by decide +kernel
  have honce := hstart.step (.poll 0 (by simp))
  rw [hfirst] at honce
  change Reached 16 10 ⟨Shared.sampleReserved, sampleCursor, [sampleFirst]⟩ at honce
  have htwice := honce.step (.poll 5 (by simp [sampleFirst]))
  rw [hsecond] at htwice
  exact htwice

theorem rollsBack_iff_of_reached_sample :
    Reached 16 10 sampleWaiting ∧
      (sampleWaiting.poll 10).RollsBack 16 10 Bus.headerSize ∧
      ¬ (sampleWaiting.poll 9).RollsBack 16 10 Bus.headerSize := by
  have hroom : Bus.headerSize + (Bus.recordHeaderSize + (16 : UInt64).toNat + 7) / 8 * 8 ≤ 72 := by
    decide
  have hbound : 72 < UInt64.size := by decide
  have hobserves (now : Nat) (c : Cursor) (hc : c.position = Bus.headerSize) :
      Poll.Observes 16 10 Bus.headerSize ⟨now, c, Shared.sampleReserved⟩ := by
    refine ⟨c, Shared.sampleReserved, .here, hc, ⟨by decide, ?_⟩, by decide +kernel⟩
    rw [hc]
    decide +kernel
  have hfirst (now : Nat) : FirstOf (Poll.Observes 16 10 Bus.headerSize)
      (sampleWaiting.polls ++ [sampleWaiting.poll now]) sampleFirst :=
    ⟨[], _, rfl, hobserves 0 .start rfl, by simp⟩
  obtain ⟨hten, -⟩ := rollsBack_iff_of_reached hroom hbound reached_sampleWaiting
    (show ∀ p ∈ sampleWaiting.polls, p.now ≤ 10 by simp [sampleWaiting, sampleFirst]) Bus.headerSize
  obtain ⟨hnine, -⟩ := rollsBack_iff_of_reached hroom hbound reached_sampleWaiting
    (show ∀ p ∈ sampleWaiting.polls, p.now ≤ 9 by simp [sampleWaiting, sampleFirst]) Bus.headerSize
  refine ⟨reached_sampleWaiting, hten.mpr ?_, ?_⟩
  · exact ⟨hobserves 10 sampleCursor rfl, by decide, sampleFirst, hfirst 10, by decide⟩
  · intro hrolls
    obtain ⟨-, -, first, hearly, hover⟩ := hnine.mp hrolls
    rw [hearly.unique (hfirst 9)] at hover
    exact absurd hover (by decide)

end Waiting

end Columnlet

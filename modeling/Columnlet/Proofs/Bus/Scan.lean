import Columnlet.Proofs.Bus.Pending
import Columnlet.Proofs.Bus.Sweep
import Columnlet.Proofs.Files

/-! # Scanning a bus without waiting

A reader that waits for no record scans a bus: it answers the committed records that are not rolled
back, in their order, and rolls back those that are not committed, wherever they stand. So writers
that died hide no record behind theirs. -/

namespace Columnlet.Bus

variable {n : Nat} {recordSize : UInt64} {now i j k count : Nat} {c next : Cursor}
  {r s : Region n}

/-! ## What there is to answer -/

/-- A record is committed and not rolled back. -/
def kept (recordSize : UInt64) (r : Region n) (i : Nat) : Bool :=
  r.word (slotAt recordSize i) = 1 ∧ r.word (slotAt recordSize i + rollbackField) = 0

/-- The bytes behind the header of a record, as many as its length tells and as there are. -/
def content (recordSize : UInt64) (r : Region n) (i : Nat) : Bytes :=
  r.memory.read (slotAt recordSize i + recordHeaderSize)
    (min (r.word (slotAt recordSize i + lengthField))
      (strideOf recordSize - recordHeaderSize))

/-- The contents of the records from one up to another that are kept. -/
def contents (recordSize : UInt64) (r : Region n) (i j : Nat) : List Bytes :=
  ((List.range' i (j - i)).filter (kept recordSize r)).map (content recordSize r)

theorem contents_self : contents recordSize r i i = [] := by
  simp [contents]

theorem contents_append (hij : i ≤ j) (hjk : j ≤ k) :
    contents recordSize r i k = contents recordSize r i j ++ contents recordSize r j k := by
  have hsplit : List.range' i (k - i) = List.range' i (j - i) ++ List.range' j (k - j) := by
    have hmiddle : i + (j - i) = j := by omega
    have hwhole : k - i = (j - i) + (k - j) := by omega
    rw [hwhole, ← List.range'_append_1, hmiddle]
  rw [contents, contents, contents, hsplit, List.filter_append, List.map_append]

theorem contents_succ (h : kept recordSize r i = true) :
    contents recordSize r i (i + 1) = [content recordSize r i] := by
  simp [contents, h]

theorem contents_succ_of_not (h : kept recordSize r i = false) :
    contents recordSize r i (i + 1) = [] := by
  simp [contents, h]

theorem kept_congr (same : ∀ a, slotAt recordSize i ≤ a → s.get a = r.get a) :
    kept recordSize s i = kept recordSize r i := by
  rw [kept, kept, Region.word_congr fun a hlow _ => same a hlow,
    Region.word_congr fun a hlow _ => same a (by omega)]

theorem content_congr (same : ∀ a, slotAt recordSize i ≤ a → s.get a = r.get a) :
    content recordSize s i = content recordSize r i := by
  rw [content, content, Region.word_congr fun a hlow _ => same a (by omega)]
  exact Region.read_congr fun a hlow _ => same a (by omega)

/-- What there is to answer from a record on depends on the bytes from there on. -/
theorem contents_congr (same : ∀ a, slotAt recordSize i ≤ a → s.get a = r.get a) :
    contents recordSize s i j = contents recordSize r i j := by
  have hsame {k : Nat} (hk : k ∈ List.range' i (j - i)) (a : Nat)
      (ha : slotAt recordSize k ≤ a) : s.get a = r.get a :=
    same a (Nat.le_trans (slotAt_mono recordSize (List.mem_range'_1.mp hk).1) ha)
  rw [contents, contents, List.filter_congr fun k hk => kept_congr (hsame hk)]
  exact List.map_congr_left fun k hk => content_congr (hsame (List.mem_filter.mp hk).1)

/-! ## Polls that do not wait -/

/-- A look that does not wait, at a record inside the region: the record is answered if it is kept,
and stepped over if not. -/
theorem look_of_scan (now : Nat)
    (ahead : Ahead (strideOf recordSize) c r) (hc : c.position = slotAt recordSize i)
    (hinside : slotAt recordSize i + strideOf recordSize ≤ n) :
    kept recordSize r i = true ∧
        look (strideOf recordSize) 0 now c r =
          (.record (content recordSize r i) (c.advance (strideOf recordSize)), r) ∨
      kept recordSize r i = false ∧ ∃ s,
        look (strideOf recordSize) 0 now c r = (.skip (c.advance (strideOf recordSize)), s) := by
  have hsixteen := sixteen_le_strideOf recordSize
  have hslot := slotAt_mod recordSize i
  have hcommit : r.aligned? 4 c.position = some (r.word (slotAt recordSize i)) := by
    rw [Region.aligned?, hc, if_pos (by omega), Region.little?_eq_word _ (by omega)]
  have hmark : r.little? 4 (c.position + rollbackField) =
      some (r.word (slotAt recordSize i + rollbackField)) := by
    rw [hc, Region.little?_eq_word _ (by rw [rollbackField]; omega)]
  have hlength : r.little? 4 (c.position + lengthField) =
      some (r.word (slotAt recordSize i + lengthField)) := by
    rw [hc, Region.little?_eq_word _ (by rw [lengthField]; omega)]
  by_cases hone : r.word (slotAt recordSize i) = 1
  · rw [hone] at hcommit
    by_cases hzero : r.word (slotAt recordSize i + rollbackField) = 0
    · rw [hzero] at hmark
      have hcontent : r.read? (c.position + recordHeaderSize)
          (min (r.word (slotAt recordSize i + lengthField)) (payloadRoom (strideOf recordSize))) =
          some (content recordSize r i) := by
        rw [payloadRoom, hc, Region.read?, if_pos, content]
        rw [recordHeaderSize]
        omega
      refine .inl ⟨by simp [kept, hone, hzero], ?_⟩
      rw [look, if_neg ahead.go]
      simp [hcommit, hmark, hlength, hcontent]
    · exact .inr ⟨by simp [kept, hzero], r, look_of_committed ahead hcommit hmark hlength hzero⟩
  · obtain ⟨s, hs⟩ := r.write?_of_le (c.position + rollbackField) one
      (show c.position + rollbackField + 4 ≤ n by rw [hc, rollbackField]; omega)
    exact .inr ⟨by simp [kept, hone], s,
      look_of_late ahead hcommit hone (Nat.zero_le _) hs⟩

/-- The ways of a poll that does not wait, from a record on: it passes all records up to the limit,
of which none is kept, or it answers the first that is. -/
inductive Scanned (recordSize : UInt64) (count i : Nat) (r : Region n) :
    Option Bytes × Cursor × Region n → Prop
  | done {next : Cursor} {s : Region n} (position : next.position = slotAt recordSize count)
      (nothing : contents recordSize r i count = []) (swept : Swept recordSize i count r s) :
      Scanned recordSize count i r (none, next, s)
  | found {j : Nat} {next : Cursor} {s : Region n} (low : i ≤ j) (high : j < count)
      (position : next.position = slotAt recordSize (j + 1))
      (nothing : contents recordSize r i j = []) (here : kept recordSize r j = true)
      (swept : Swept recordSize i (j + 1) r s) :
      Scanned recordSize count i r (some (content recordSize r j), next, s)

/-- A poll that first steps over a record that is not kept. -/
theorem Scanned.of_skip (hi : i < count)
    (hkept : kept recordSize r i = false) (hswept : Swept recordSize i (i + 1) r s)
    {result : Option Bytes × Cursor × Region n} (h : Scanned recordSize count (i + 1) s result) :
    Scanned recordSize count i r result := by
  have hnone (j : Nat) (hj : i + 1 ≤ j) :
      contents recordSize r i j = contents recordSize s (i + 1) j := by
    rw [contents_append (Nat.le_succ i) hj, contents_succ_of_not hkept, List.nil_append]
    exact (contents_congr fun a ha => hswept.get_behind ha).symm
  cases h with
  | done position nothing swept =>
      exact .done position ((hnone count hi).trans nothing)
        (hswept.trans (Nat.le_succ i) hi swept)
  | @found j next t low high position nothing here swept =>
      have hsame (a : Nat) (ha : slotAt recordSize j ≤ a) : s.get a = r.get a :=
        hswept.get_behind (Nat.le_trans (slotAt_mono recordSize low) ha)
      rw [content_congr hsame]
      rw [kept_congr hsame] at here
      exact .found (by omega) high position ((hnone j low).trans nothing) here
        (hswept.trans (Nat.le_succ i) (by omega) swept)

theorem scanned_of_pollIn (now : Nat)
    (hlimit : (limitIn r).toNat = slotAt recordSize count)
    (hinside : slotAt recordSize count ≤ n) (hc : c.position = slotAt recordSize i)
    (hi : i ≤ count) :
    Scanned recordSize count i r (pollIn (strideOf recordSize) 0 now c r) := by
  obtain ⟨left, hleft⟩ := Nat.exists_eq_add_of_le hi
  induction left generalizing i c r with
  | zero =>
      obtain rfl : count = i := hleft
      have hpos := strideOf_pos recordSize
      have hstop : (limitIn r).toNat < c.position + strideOf recordSize := by omega
      rw [pollIn_of_lt 0 now hstop]
      exact .done hc contents_self (.refl ..)
  | succ left ih =>
      have hlt : i < count := by omega
      have hsixteen := sixteen_le_strideOf recordSize
      have hbehind := slotAt_le recordSize hlt
      have ahead : Ahead (strideOf recordSize) c r := by
        refine ahead_of_slotAt_le hc ?_
        rw [hlimit, slotAt_succ]
        exact hbehind
      have hnext := position_advance hc
      rcases look_of_scan now ahead hc (by omega) with ⟨hkept, hlook⟩ | ⟨hkept, s, hlook⟩
      · rw [pollIn_of_record hlook]
        have hcommit : r.word (slotAt recordSize i) = 1 := by
          simp only [kept, decide_eq_true_eq] at hkept
          exact hkept.1
        exact .found (Nat.le_refl i) hlt hnext contents_self hkept
          (swept_of_committed hcommit (by rw [rollbackField]; omega))
      · rw [pollIn_of_skip hlook]
        rcases (looked_of_look hlook).swept hc with ⟨hstay, -⟩ | ⟨-, -, hswept⟩
        · have hmoved := hstay.symm.trans hnext
          rw [slotAt_succ] at hmoved
          omega
        · refine .of_skip hlt hkept hswept (ih ?_ hnext hlt (by omega))
          rw [hswept.limitIn_eq, hlimit]

/-! ## Draining -/

/-- What draining from a record on comes to: the first contents that there are, of the records that
are passed. The last record that is passed is the one answered last, unless too few are kept. -/
structure Drained (recordSize : UInt64) (count i max : Nat) (r : Region n) (drained : List Bytes)
    (j : Nat) (s : Region n) : Prop where
  low : i ≤ j
  high : j ≤ count
  first : drained = (contents recordSize r i count).take max
  passed : drained = contents recordSize r i j
  fewer : drained.length < max → j = count
  last : drained.length = max → ∀ k, i ≤ k → j = k + 1 → kept recordSize r k = true
  swept : Swept recordSize i j r s

/-- Draining what is left behind a record that has been answered. -/
theorem Drained.cons {max : Nat} {drained : List Bytes} {t : Region n}
    (hij : i ≤ j) (hj : j < count)
    (hnone : contents recordSize r i j = []) (hkept : kept recordSize r j = true)
    (hswept : Swept recordSize i (j + 1) r s)
    (h : Drained recordSize count (j + 1) max s drained k t) :
    Drained recordSize count i (max + 1) r (content recordSize r j :: drained) k t := by
  have hbehind (l : Nat) (hl : j + 1 ≤ l) :
      contents recordSize r i l = content recordSize r j :: contents recordSize s (j + 1) l := by
    rw [contents_append (show i ≤ j + 1 by omega) hl, contents_append hij (Nat.le_succ j), hnone,
      contents_succ hkept, contents_congr fun a ha => hswept.get_behind ha]
    rfl
  refine ⟨Nat.le_trans (by omega) h.low, h.high, ?_, ?_, ?_, ?_, ?_⟩
  · rw [hbehind count hj, List.take_succ_cons, ← h.first]
  · rw [hbehind k h.low, ← h.passed]
  · intro hfewer
    rw [List.length_cons] at hfewer
    exact h.fewer (by omega)
  · intro hfull l _ hl
    rw [List.length_cons, Nat.add_right_cancel_iff] at hfull
    have hlow := h.low
    rcases Nat.eq_or_lt_of_le (show j ≤ l by omega) with rfl | hlt
    · exact hkept
    · have hlast := h.last hfull l hlt hl
      rwa [kept_congr fun a ha =>
        hswept.get_behind (Nat.le_trans (slotAt_mono recordSize hlt) ha)] at hlast
  · exact hswept.trans (by omega) h.low h.swept

theorem drained_of_drainIn (now max : Nat)
    (hlimit : (limitIn r).toNat = slotAt recordSize count)
    (hinside : slotAt recordSize count ≤ n) (hc : c.position = slotAt recordSize i)
    (hi : i ≤ count) :
    ∃ j, (drainIn (strideOf recordSize) 0 now max c r).2.1.position = slotAt recordSize j ∧
      Drained recordSize count i max r (drainIn (strideOf recordSize) 0 now max c r).1 j
        (drainIn (strideOf recordSize) 0 now max c r).2.2 := by
  induction max generalizing i c r with
  | zero =>
      refine ⟨i, hc, Nat.le_refl i, hi, rfl, contents_self.symm, ?_, ?_, .refl ..⟩
      · intro hfewer
        exact absurd hfewer (Nat.not_lt_zero _)
      · intro _ k hk hik
        omega
  | succ max ih =>
      have hscanned := scanned_of_pollIn now hlimit hinside hc hi
      rw [drainIn]
      generalize pollIn (strideOf recordSize) 0 now c r = result at hscanned
      cases hscanned with
      | done position nothing swept =>
          refine ⟨count, position, hi, Nat.le_refl count, ?_, nothing.symm, fun _ => rfl, ?_, swept⟩
          · rw [nothing]
            rfl
          · intro hfull
            cases hfull
      | found low high position nothing here swept =>
          obtain ⟨k, hposition, hdrained⟩ :=
            ih (by rw [swept.limitIn_eq, hlimit]) position high
          exact ⟨k, hposition, hdrained.cons low high nothing here swept⟩

end Columnlet.Bus

namespace Columnlet.BusReader

open Bus

/-- A fresh reader that does not wait drains the first contents of the records that are kept, in
whatever state the others are. If that are fewer than it may drain, it has passed all records. Of
the records that it has passed it rolls back those that are not committed, and writes nothing
else. -/
theorem drain_of_scan {b : Bus} {files : Files} {count : Nat}
    (hlimit : (limitIn (files.view b.mapping)).toNat = slotAt b.recordSize count)
    (hinside : slotAt b.recordSize count ≤ b.mapping.size) (now max : Nat) :
    ∃ drained next after passed,
      drain { bus := b, timeout := 0 } now max files =
        (drained, { bus := b, timeout := 0, cursor := next }, after) ∧
      drained = (contents b.recordSize (files.view b.mapping) 0 count).take max ∧
      next.position = slotAt b.recordSize passed ∧ passed ≤ count ∧
      (drained.length < max → passed = count) ∧
      (drained.length = max → ∀ k, passed = k + 1 →
        kept b.recordSize (files.view b.mapping) k = true) ∧
      Swept b.recordSize 0 passed (files.view b.mapping) (after.view b.mapping) ∧
      Files.BytesOnly b.mapping files after := by
  obtain ⟨passed, hposition, hdrained⟩ := drained_of_drainIn (c := .start) (i := 0) now
    max hlimit hinside (slotAt_zero _).symm (Nat.zero_le count)
  refine ⟨_, _, _, passed, rfl, hdrained.first, hposition, hdrained.high, hdrained.fewer, ?_, ?_,
    Files.bytesOnly_commit ..⟩
  · intro hfull k hk
    exact hdrained.last hfull k (Nat.zero_le k) hk
  · rw [Files.view_commit_self]
    exact hdrained.swept

/-- A bus of five records of up to 20 bytes: two that were never filled, at either end, and between
them one that tells "a", one that was rolled back, and one with a length that is too large. -/
def sampleMixture : Files :=
  Files.empty.put ["mq"] (.ofBytes (Bytes.littleEndian 8 168 ++ List.replicate 32 0 ++
    (one ++ Bytes.littleEndian 4 0 ++ Bytes.littleEndian 4 1 ++ 0x61 :: List.replicate 19 0) ++
    (one ++ one ++ Bytes.littleEndian 4 1 ++ List.replicate 20 0) ++
    (one ++ Bytes.littleEndian 4 0 ++ Bytes.littleEndian 4 0xffffffff ++ List.replicate 20 7) ++
    List.replicate 32 0) 168)

theorem drain_of_scan_sample :
    ∃ next after,
      drain { bus := ⟨⟨"mq", ["mq"], 168⟩, 16⟩, timeout := 0 } 0 3 sampleMixture =
        ([[0x61], List.replicate 20 7], next, after) ∧
      next.cursor.position = 168 ∧
      (after.view ⟨"mq", ["mq"], 168⟩).word 12 = 1 ∧
      (after.view ⟨"mq", ["mq"], 168⟩).word 140 = 1 := by
  have hlimit : (limitIn (sampleMixture.view ⟨"mq", ["mq"], 168⟩)).toNat = slotAt 16 5 := by
    decide +kernel
  have hcontents : contents 16 (sampleMixture.view ⟨"mq", ["mq"], 168⟩) 0 5 =
      [[0x61], List.replicate 20 7] := by
    decide +kernel
  obtain ⟨drained, next, after, passed, hdrain, hfirst, hposition, _, hfewer, _, hswept, _⟩ :=
    drain_of_scan (b := ⟨⟨"mq", ["mq"], 168⟩, 16⟩) hlimit (by decide) 0 3
  rw [hcontents] at hfirst
  obtain rfl : drained = [[0x61], List.replicate 20 7] := hfirst
  obtain rfl := hfewer (by decide)
  exact ⟨_, _, hdrain, hposition, hswept.marked 0 (by decide) (by decide) (by decide +kernel),
    hswept.marked 4 (by decide) (by decide) (by decide +kernel)⟩

end Columnlet.BusReader

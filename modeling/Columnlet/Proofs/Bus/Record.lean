import Columnlet.Bus.Reader
import Columnlet.Bus.Writer
import Columnlet.Proofs.Attempt
import Columnlet.Proofs.Region

/-! # Records of a bus

A region holds a queue of payloads if its limit stands behind as many records, each committed and
never rolled back. Sending adds a record at the end if there is room, and polling steps from one
record to the next and writes nothing. -/

namespace Columnlet.Bus

variable {n : Nat}

/-! ## Sizes -/

theorem strideOf_mod (recordSize : UInt64) : strideOf recordSize % 8 = 0 := Nat.mul_mod_left ..

theorem sixteen_le_strideOf (recordSize : UInt64) : 16 ≤ strideOf recordSize := by
  rw [strideOf, recordHeaderSize]
  omega

theorem strideOf_pos (recordSize : UInt64) : 0 < strideOf recordSize :=
  Nat.lt_of_lt_of_le (by decide) (sixteen_le_strideOf recordSize)

theorem add_le_strideOf (recordSize : UInt64) :
    recordHeaderSize + recordSize.toNat ≤ strideOf recordSize := by
  rw [strideOf]
  omega

theorem payloadRoom_add (recordSize : UInt64) :
    recordHeaderSize + payloadRoom (strideOf recordSize) = strideOf recordSize :=
  Nat.add_sub_of_le (Nat.le_trans (by decide) (sixteen_le_strideOf recordSize))

theorem le_payloadRoom (recordSize : UInt64) :
    recordSize.toNat ≤ payloadRoom (strideOf recordSize) :=
  Nat.le_sub_of_add_le' (add_le_strideOf recordSize)

/-- Records of a size fit into a window: there is room for at least one of them, and where they
stand is a number of 64 bits. -/
structure Grid (n : Nat) (recordSize : UInt64) : Prop where
  room : headerSize + strideOf recordSize ≤ n
  bound : n < UInt64.size

/-- A bus of a record size fits into a window, and its records have lengths of 32 bits. -/
structure Sizes (n : Nat) (recordSize : UInt64) : Prop where
  small : recordSize.toNat < UInt32.size
  room : headerSize + strideOf recordSize ≤ n
  bound : n < UInt64.size

theorem Sizes.grid {recordSize : UInt64} (hs : Sizes n recordSize) : Grid n recordSize :=
  ⟨hs.room, hs.bound⟩

theorem counted_of_lt {cause : Overflow} {result : Nat} (h : result < UInt64.size) :
    counted cause result = .ok result := if_pos h

theorem counted_of_le {cause : Overflow} {result : Nat} (h : UInt64.size ≤ result) :
    counted cause result = .error (.overflow cause) := if_neg (Nat.not_lt.mpr h)

/-- Every number on the way to the end of the first record is at most that end. -/
theorem firstEnd_of_lt {recordSize : UInt64} (h : headerSize + strideOf recordSize < UInt64.size) :
    firstEnd recordSize = .ok (headerSize + strideOf recordSize) := by
  have hcover := add_le_strideOf recordSize
  have hsum : recordHeaderSize + recordSize.toNat < UInt64.size := by omega
  have hproduct : strideOf recordSize < UInt64.size := by omega
  rw [strideOf] at hproduct h ⊢
  simp only [firstEnd, bind, Except.bind, counted_of_lt hsum, counted_of_lt hproduct,
    counted_of_lt h]

theorem firstEnd_of_le {recordSize : UInt64} (h : UInt64.size ≤ headerSize + strideOf recordSize) :
    ∃ cause, firstEnd recordSize = .error (.overflow cause) := by
  rw [strideOf] at h
  rcases Nat.lt_or_ge (recordHeaderSize + recordSize.toNat) UInt64.size with hsum | hsum
  · rcases Nat.lt_or_ge ((recordHeaderSize + recordSize.toNat + 7) / 8 * 8) UInt64.size with
      hproduct | hproduct
    · refine ⟨.add, ?_⟩
      simp only [firstEnd, bind, Except.bind, counted_of_lt hsum, counted_of_lt hproduct,
        counted_of_le h]
    · refine ⟨.multiply, ?_⟩
      simp only [firstEnd, bind, Except.bind, counted_of_lt hsum, counted_of_le hproduct]
  · refine ⟨.add, ?_⟩
    simp only [firstEnd, bind, Except.bind, counted_of_le hsum]

/-- A window has room for a bus, or is too small for a record whose end is a number of 64 bits, or
that end is none. -/
theorem checkRoom_cases (m : Mapping) (recordSize : UInt64) :
    (headerSize + strideOf recordSize < UInt64.size ∧
      headerSize + strideOf recordSize ≤ m.size ∧ checkRoom m recordSize = .ok ()) ∨
    (headerSize + strideOf recordSize < UInt64.size ∧
      m.size < headerSize + strideOf recordSize ∧ checkRoom m recordSize =
        .error (.regionTooSmall m.path (headerSize + strideOf recordSize) m.size)) ∨
    (UInt64.size ≤ headerSize + strideOf recordSize ∧ ∃ cause,
      firstEnd recordSize = .error (.overflow cause) ∧
        checkRoom m recordSize = .error (.overflow cause)) := by
  rcases Nat.lt_or_ge (headerSize + strideOf recordSize) UInt64.size with hlt | hle
  · rcases Nat.lt_or_ge m.size (headerSize + strideOf recordSize) with hsmall | hroom
    · refine .inr (.inl ⟨hlt, hsmall, ?_⟩)
      have hrequire := Mapping.require_eq_error_iff.mpr ⟨hsmall, rfl⟩
      simp only [checkRoom, bind, Except.bind, firstEnd_of_lt hlt, hrequire]
    · refine .inl ⟨hlt, hroom, ?_⟩
      have hrequire := Mapping.require_eq_ok_iff.mpr hroom
      have hword (cause : ConfigError) : m.requireWord 8 0 cause = .ok () :=
        Mapping.requireWord_of_le rfl (Nat.le_trans (Nat.le_add_right ..) hroom) cause
      simp only [checkRoom, bind, Except.bind, firstEnd_of_lt hlt, hrequire, hword]
  · obtain ⟨cause, hstop⟩ := firstEnd_of_le hle
    refine .inr (.inr ⟨hle, cause, hstop, ?_⟩)
    simp only [checkRoom, bind, Except.bind, hstop]

theorem checkRoom_eq_ok_iff {m : Mapping} {recordSize : UInt64} (hm : m.size < UInt64.size) :
    checkRoom m recordSize = .ok () ↔ headerSize + strideOf recordSize ≤ m.size := by
  rcases checkRoom_cases m recordSize with
    ⟨-, hroom, hok⟩ | ⟨-, hsmall, hfail⟩ | ⟨hwide, cause, -, hstop⟩
  · simp [hok, hroom]
  · simp [hfail, hsmall]
  · simp only [hstop, reduceCtorEq, false_iff]
    omega

/-- Where a record stands. -/
def slotAt (recordSize : UInt64) (i : Nat) : Nat := headerSize + i * strideOf recordSize

@[simp] theorem slotAt_zero (recordSize : UInt64) : slotAt recordSize 0 = headerSize := by
  simp [slotAt]

theorem slotAt_succ (recordSize : UInt64) (i : Nat) :
    slotAt recordSize (i + 1) = slotAt recordSize i + strideOf recordSize := by
  rw [slotAt, slotAt, Nat.succ_mul]
  omega

theorem slotAt_le (recordSize : UInt64) {i j : Nat} (h : i < j) :
    slotAt recordSize i + strideOf recordSize ≤ slotAt recordSize j := by
  rw [← slotAt_succ, slotAt, slotAt]
  exact Nat.add_le_add_left (Nat.mul_le_mul_right _ (Nat.succ_le_of_lt h)) _

theorem slotAt_apart (recordSize : UInt64) {i j : Nat} (h : i ≠ j) :
    slotAt recordSize i + strideOf recordSize ≤ slotAt recordSize j ∨
      slotAt recordSize j + strideOf recordSize ≤ slotAt recordSize i := by
  rcases Nat.lt_or_gt_of_ne h with hlt | hlt
  · exact .inl (slotAt_le recordSize hlt)
  · exact .inr (slotAt_le recordSize hlt)

theorem slotAt_lt_iff {recordSize : UInt64} {i j : Nat} :
    slotAt recordSize i < slotAt recordSize j ↔ i < j := by
  rw [slotAt, slotAt, Nat.add_lt_add_iff_left, Nat.mul_lt_mul_right (strideOf_pos recordSize)]

theorem slotAt_inj {recordSize : UInt64} {i j : Nat} :
    slotAt recordSize i = slotAt recordSize j ↔ i = j := by
  rw [slotAt, slotAt, Nat.add_left_cancel_iff, Nat.mul_right_cancel_iff (strideOf_pos recordSize)]

theorem slotAt_mod (recordSize : UInt64) (i : Nat) : slotAt recordSize i % 8 = 0 := by
  induction i with
  | zero => simp [slotAt, headerSize]
  | succ i ih =>
      have hstride := strideOf_mod recordSize
      rw [slotAt_succ]
      omega

/-! ## Limits -/

theorem limitIn_of_holds {r : Region n} {limit : Nat}
    (h : r.Holds 0 (Bytes.littleEndian 8 limit)) (hlimit : limit < UInt64.size) :
    (limitIn r).toNat = limit := by
  have hlittle := h.little?
  rw [Bytes.length_littleEndian, Bytes.littleNat_littleEndian] at hlittle
  have hsize : UInt64.size = 18446744073709551616 := rfl
  have hmod : limit % 256 ^ 8 = limit := by omega
  rw [limitIn, Region.aligned?, if_pos (by decide), hlittle, Option.getD_some, hmod]
  exact UInt64.toNat_ofNat_of_lt' hlimit

theorem limitIn_congr {r s : Region n} (h : ∀ k, k < headerSize → s.get k = r.get k) :
    limitIn s = limitIn r := by
  rw [limitIn, limitIn, Region.aligned?_congr]
  intro k _ hk
  exact h k (by rw [headerSize]; omega)

theorem limitIn_blank (n : Nat) (hn : headerSize ≤ n) : limitIn (⟨.blank⟩ : Region n) = 0 := by
  have hzeros : Bytes.littleEndian 8 0 = List.replicate 8 0 := rfl
  have hholds : (⟨.blank⟩ : Region n).Holds 0 (Bytes.littleEndian 8 0) := by
    rw [hzeros]
    refine Region.holds_iff.mpr ⟨?_, ?_⟩
    · rw [headerSize] at hn
      simpa using hn
    · intro k hk
      rw [List.getElem_replicate]
      rfl
  exact UInt64.toNat_inj.mp (limitIn_of_holds hholds (by decide))

theorem setLimit_spec (r : Region n) (limit : Nat) (hn : headerSize ≤ n) :
    (setLimit r limit).Holds 0 (Bytes.littleEndian 8 limit) ∧
      ∀ i, headerSize ≤ i → (setLimit r limit).get i = r.get i := by
  simp only [headerSize] at hn ⊢
  obtain ⟨after, hafter⟩ := Region.write?_of_le r 0 (Bytes.littleEndian 8 limit)
    (by rw [Bytes.length_littleEndian]; omega)
  rw [setLimit, hafter, Option.getD_some]
  refine ⟨Region.holds_of_write? hafter, ?_⟩
  intro i hi
  exact Region.get_of_write?_of_outside hafter (by rw [Bytes.length_littleEndian]; omega)

/-- The limit of a region stands behind a count of records, which are inside the region. -/
structure Reserved (r : Region n) (recordSize : UInt64) (count : Nat) : Prop where
  limit : (limitIn r).toNat = slotAt recordSize count
  fits : slotAt recordSize count ≤ n

theorem reserved_of_holds {r : Region n} {recordSize : UInt64} {count : Nat}
    (hg : Grid n recordSize) (hfits : slotAt recordSize count ≤ n)
    (h : r.Holds 0 (Bytes.littleEndian 8 (slotAt recordSize count))) :
    Reserved r recordSize count :=
  ⟨limitIn_of_holds h (Nat.lt_of_le_of_lt hfits hg.bound), hfits⟩

theorem Grid.headerSize_le {recordSize : UInt64} (hg : Grid n recordSize) : headerSize ≤ n :=
  Nat.le_trans (Nat.le_add_right ..) hg.room

theorem reserved_setLimit {recordSize : UInt64} (hg : Grid n recordSize) (r : Region n) :
    Reserved (setLimit r headerSize) recordSize 0 := by
  have hheader := hg.headerSize_le
  rw [← slotAt_zero recordSize] at hheader ⊢
  exact reserved_of_holds hg hheader (setLimit_spec r _ hg.headerSize_le).1

/-! ## Queues -/

/-- The bytes of a record that is committed and not rolled back. -/
def recordBytes (payload : Bytes) : Bytes :=
  one ++ (Bytes.littleEndian 4 0 ++ Bytes.littleEndian 4 payload.length ++ payload)

theorem length_recordBytes (payload : Bytes) :
    (recordBytes payload).length = recordHeaderSize + payload.length := by
  simp [recordBytes, one, recordHeaderSize]
  omega

/-- A region holds a queue: its limit stands behind the records of the payloads. -/
structure Queued (r : Region n) (recordSize : UInt64) (payloads : List Bytes) : Prop where
  limit : (limitIn r).toNat = slotAt recordSize payloads.length
  fits : slotAt recordSize payloads.length ≤ n
  sizes : ∀ payload ∈ payloads, payload.length ≤ recordSize.toNat
  records : ∀ i (h : i < payloads.length),
    r.Holds (slotAt recordSize i) (recordBytes payloads[i])

/-- A limit at the first record makes an empty queue. -/
theorem Reserved.queued_nil {r : Region n} {recordSize : UInt64} (h : Reserved r recordSize 0) :
    Queued r recordSize [] := ⟨h.limit, h.fits, by simp, by simp⟩

/-! ## Preparing -/

/-- A limit counts the records in front of it. -/
theorem limitIn_sub {r : Region n} {recordSize : UInt64} {count : Nat}
    (hlimit : (limitIn r).toNat = slotAt recordSize count) :
    (limitIn r).toNat - headerSize = count * strideOf recordSize := by
  rw [hlimit, slotAt, Nat.add_sub_cancel_left]

theorem prepareIn_of_truncate (b : Bus) (r : Region b.mapping.size)
    (hg : Grid b.mapping.size b.recordSize) :
    ∃ after, b.prepareIn false r = .ok () after ∧ Queued after b.recordSize [] := by
  have hroom := hg.room
  obtain ⟨cleared, hclear⟩ := r.zero?_of_le headerSize (b.mapping.size - headerSize) (by omega)
  refine ⟨setLimit cleared headerSize, ?_, (reserved_setLimit hg cleared).queued_nil⟩
  rw [prepareIn, if_neg (by decide)]
  exact Attempt.bind_of_ok (x := ()) (Attempt.changes_eq_ok_iff.mpr hclear)

/-- A bus that is emptied has its body cleared first. -/
theorem exists_cleared_of_prepareIn {b : Bus} {r after : Region b.mapping.size}
    (h : b.prepareIn false r = .ok () after) :
    ∃ cleared, r.zero? headerSize (b.mapping.size - headerSize) = some cleared ∧
      after = setLimit cleared headerSize := by
  rw [prepareIn, if_neg (by decide)] at h
  obtain ⟨_, cleared, hclear, hset⟩ := Attempt.bind_eq_ok_iff.mp h
  cases hset
  exact ⟨cleared, Attempt.changes_eq_ok_iff.mp hclear, rfl⟩

/-- A bus that has never been written to gets its first limit. -/
theorem prepareIn_of_blank (b : Bus) {r : Region b.mapping.size}
    (hg : Grid b.mapping.size b.recordSize) (h : limitIn r = 0) :
    ∃ after, b.prepareIn true r = .ok () after ∧ Queued after b.recordSize [] := by
  have hget : (get : Attempt (Region b.mapping.size) (Region b.mapping.size)) r = .ok r r := rfl
  refine ⟨setLimit r headerSize, ?_, (reserved_setLimit hg r).queued_nil⟩
  simp only [prepareIn]
  rw [if_pos trivial, Attempt.bind_of_ok hget, if_pos h]
  rfl

/-- A bus whose records are kept stays as it is. -/
theorem prepareIn_of_queued (b : Bus) {r : Region b.mapping.size} {payloads : List Bytes}
    (hq : Queued r b.recordSize payloads) : b.prepareIn true r = .ok () r := by
  have hget : (get : Attempt (Region b.mapping.size) (Region b.mapping.size)) r = .ok r r := rfl
  have hlimit := hq.limit
  have hfits := hq.fits
  have hbase : headerSize ≤ slotAt b.recordSize payloads.length := Nat.le_add_right ..
  have hnonzero : limitIn r ≠ 0 := by
    intro hzero
    rw [hzero, UInt64.toNat_zero] at hlimit
    rw [headerSize] at hbase
    omega
  have hgrid : ((limitIn r).toNat - headerSize) % b.stride = 0 := by
    rw [limitIn_sub hlimit]
    exact Nat.mul_mod_left ..
  simp only [prepareIn]
  rw [if_pos trivial, Attempt.bind_of_ok hget, if_neg hnonzero, if_neg]
  · rfl
  · rintro (hlow | hhigh | hoff)
    · omega
    · omega
    · exact hoff hgrid

/-- A limit that stands between records stands behind a count of them. -/
theorem exists_slotAt {recordSize limit : UInt64} (hlow : headerSize ≤ limit.toNat)
    (h : (limit.toNat - headerSize) % strideOf recordSize = 0) :
    ∃ i, limit.toNat = slotAt recordSize i := by
  obtain ⟨i, hi⟩ := Nat.dvd_of_mod_eq_zero h
  refine ⟨i, ?_⟩
  rw [slotAt, Nat.mul_comm, ← hi]
  omega

/-- Opening a bus that keeps its records either sets a limit of zero to the first record, or finds
the limit between records of the window. -/
theorem prepareIn_append_cases {b : Bus} {r after : Region b.mapping.size}
    (h : b.prepareIn true r = .ok () after) :
    (limitIn r = 0 ∧ after = setLimit r headerSize) ∨
    (after = r ∧ ∃ count, Reserved r b.recordSize count) := by
  have hget : (get : Attempt (Region b.mapping.size) (Region b.mapping.size)) r = .ok r r := rfl
  simp only [prepareIn] at h
  rw [if_pos trivial, Attempt.bind_of_ok hget] at h
  split at h
  · rename_i hzero
    cases h
    exact .inl ⟨hzero, rfl⟩
  · split at h
    · cases h
    · rename_i hvalid
      cases h
      obtain ⟨hlow, hrest⟩ := not_or.mp hvalid
      obtain ⟨hhigh, hgrid⟩ := not_or.mp hrest
      obtain ⟨i, hlimit⟩ := exists_slotAt (Nat.le_of_not_lt hlow) (Decidable.not_not.mp hgrid)
      exact .inr ⟨rfl, i, hlimit, hlimit ▸ Nat.le_of_not_lt hhigh⟩

/-- A bus that has been opened for writing has its limit between the records of the window. -/
theorem reserved_of_prepareIn {b : Bus} {append : Bool} {r after : Region b.mapping.size}
    (hg : Grid b.mapping.size b.recordSize) (h : b.prepareIn append r = .ok () after) :
    ∃ count, Reserved after b.recordSize count := by
  cases append with
  | false =>
      obtain ⟨cleared, -, rfl⟩ := exists_cleared_of_prepareIn h
      exact ⟨0, reserved_setLimit hg _⟩
  | true =>
      rcases prepareIn_append_cases h with ⟨-, rfl⟩ | ⟨rfl, count, hreserved⟩
      · exact ⟨0, reserved_setLimit hg _⟩
      · exact ⟨count, hreserved⟩

/-! ## Sending -/

/-- A payload that a record has room for is framed as a whole. -/
theorem frame_eq {recordSize : UInt64} {payload : Bytes}
    (hlen : payload.length ≤ recordSize.toNat) :
    frame (strideOf recordSize) payload =
      Bytes.littleEndian 4 0 ++ Bytes.littleEndian 4 payload.length ++ payload ++
        List.replicate (strideOf recordSize - recordHeaderSize - payload.length) 0 := by
  have hcover := add_le_strideOf recordSize
  rw [recordHeaderSize] at hcover ⊢
  have hframed : (Bytes.littleEndian 4 0 ++ Bytes.littleEndian 4 payload.length ++ payload).length =
      8 + payload.length := by
    simp only [List.length_append, Bytes.length_littleEndian]
  simp only [frame, hframed]
  rw [List.take_of_length_le (by rw [hframed]; omega)]
  congr 2
  omega

theorem length_frame {recordSize : UInt64} {payload : Bytes}
    (hlen : payload.length ≤ recordSize.toNat) :
    (frame (strideOf recordSize) payload).length = strideOf recordSize - 4 := by
  have hcover := add_le_strideOf recordSize
  rw [recordHeaderSize] at hcover
  rw [frame_eq hlen, recordHeaderSize]
  simp only [List.length_append, Bytes.length_littleEndian, List.length_replicate]
  omega

/-- Filling a record inside the region commits it, and touches no other one. -/
theorem fillIn_spec {recordSize : UInt64} {payload : Bytes} {record : Nat} (r : Region n)
    (hlen : payload.length ≤ recordSize.toNat)
    (haligned : record % 4 = 0) (hroom : record + strideOf recordSize ≤ n) :
    ∃ after, fillIn (strideOf recordSize) record payload r = .ok () after ∧
      after.Holds record (recordBytes payload) ∧
      ∀ i, i < record ∨ record + strideOf recordSize ≤ i → after.get i = r.get i := by
  have hsixteen := sixteen_le_strideOf recordSize
  have hframe := length_frame hlen
  have hone : one.length = 4 := rfl
  obtain ⟨framed, hframed⟩ := Region.write?_of_le r (record + rollbackField)
    (frame (strideOf recordSize) payload) (by rw [hframe, rollbackField]; omega)
  obtain ⟨after, hafter⟩ := Region.write?_of_le framed record one (by rw [hone]; omega)
  refine ⟨after, ?_, ?_, ?_⟩
  · obtain ⟨word, hword⟩ := r.aligned?_of_le haligned (by omega)
    have hasks : Attempt.asks (fun s : Region n => s.aligned? 4 record)
        (.config (.recordMisaligned record)) r = .ok word r :=
      Attempt.asks_eq_ok_iff.mpr ⟨hword, rfl⟩
    have hchanges : Attempt.changes (fun s : Region n => s.write? (record + rollbackField)
        (frame (strideOf recordSize) payload)) .channelFull r = .ok () framed :=
      Attempt.changes_eq_ok_iff.mpr hframed
    simp only [fillIn]
    rw [Attempt.bind_of_ok hasks, Attempt.bind_of_ok hchanges]
    exact Attempt.changes_eq_ok_iff.mpr hafter
  · rw [recordBytes, Region.holds_append, hone]
    refine ⟨Region.holds_of_write? hafter, ?_⟩
    have hheld := Region.holds_of_write? hframed
    rw [frame_eq hlen, Region.holds_append] at hheld
    apply hheld.1.congr
    intro i hlow _
    rw [rollbackField] at hlow
    exact Region.get_of_write?_of_outside hafter (.inr (by rw [hone]; omega))
  · intro i hi
    rw [Region.get_of_write?_of_outside hafter (by rw [hone]; omega),
      Region.get_of_write?_of_outside hframed (by rw [hframe, rollbackField]; omega)]

variable {r : Region n} {recordSize : UInt64} {payloads : List Bytes} {payload : Bytes}

theorem reserveIn_of_lt {stride : Nat} (h : n < (limitIn r).toNat + stride) :
    reserveIn stride r = .error .channelFull r := by
  have hget : (get : Attempt (Region n) (Region n)) r = .ok r r := rfl
  simp only [reserveIn]
  rw [Attempt.bind_of_ok hget, if_pos h]
  rfl

theorem reserveIn_of_le {stride : Nat} (h : (limitIn r).toNat + stride ≤ n) :
    reserveIn stride r =
      .ok (limitIn r).toNat (setLimit r ((limitIn r).toNat + stride)) := by
  have hget : (get : Attempt (Region n) (Region n)) r = .ok r r := rfl
  simp only [reserveIn]
  rw [Attempt.bind_of_ok hget, if_neg (by omega)]
  rfl

/-- What an accepted payload leaves of a region: its record stands behind a count of others, and the
limit behind it. -/
structure Accepted (r after : Region n) (recordSize : UInt64) (count : Nat) (payload : Bytes) :
    Prop where
  short : payload.length ≤ recordSize.toNat
  fits : slotAt recordSize (count + 1) ≤ n
  limit : (limitIn after).toNat = slotAt recordSize (count + 1)
  record : after.Holds (slotAt recordSize count) (recordBytes payload)
  kept : ∀ i, headerSize ≤ i → i < slotAt recordSize count → after.get i = r.get i

/-- A payload that a bus has room for becomes the record at its limit, which moves behind that. -/
theorem sendIn_of_room {count : Nat} (hg : Grid n recordSize)
    (hlimit : (limitIn r).toNat = slotAt recordSize count)
    (hlen : payload.length ≤ recordSize.toNat) (hroom : slotAt recordSize (count + 1) ≤ n) :
    ∃ after, sendIn recordSize (strideOf recordSize) payload r = .ok () after ∧
      Accepted r after recordSize count payload := by
  have hbase : headerSize ≤ slotAt recordSize count := Nat.le_add_right ..
  have hmod := slotAt_mod recordSize count
  have hnext := slotAt_succ recordSize count
  obtain ⟨hset, hkept⟩ := setLimit_spec r (slotAt recordSize (count + 1)) (by omega)
  have hreserve : reserveIn (strideOf recordSize) r =
      .ok (slotAt recordSize count) (setLimit r (slotAt recordSize (count + 1))) := by
    rw [hnext, ← hlimit]
    exact reserveIn_of_le (by rw [hlimit, ← hnext]; exact hroom)
  generalize setLimit r (slotAt recordSize (count + 1)) = reserved at hset hkept hreserve
  obtain ⟨after, hfill, hrecord, houtside⟩ := fillIn_spec reserved hlen
    (show slotAt recordSize count % 4 = 0 by omega) (by rw [← hnext]; exact hroom)
  refine ⟨after, ?_, hlen, hroom, ?_, hrecord, ?_⟩
  · rw [sendIn, if_neg (by omega)]
    refine (Attempt.bind_of_ok hreserve).trans ?_
    exact Attempt.onError_of_ok hfill
  · have hsame : limitIn after = limitIn reserved :=
      limitIn_congr fun i hi => houtside i (.inl (by omega))
    rw [hsame, limitIn_of_holds hset (Nat.lt_of_le_of_lt hroom hg.bound)]
  · intro i hlow hi
    rw [houtside i (.inl hi), hkept i hlow]

/-- A payload is refused for its size or for want of room, and leaves the region as it is, or it is
accepted. -/
theorem sendIn_cases {count : Nat} (hg : Grid n recordSize)
    (hlimit : (limitIn r).toNat = slotAt recordSize count) (payload : Bytes) :
    (recordSize.toNat < payload.length ∧ sendIn recordSize (strideOf recordSize) payload r =
      .error (.recordTooLarge payload.length recordSize.toNat) r) ∨
    (payload.length ≤ recordSize.toNat ∧ n < slotAt recordSize (count + 1) ∧
      sendIn recordSize (strideOf recordSize) payload r = .error .channelFull r) ∨
    ∃ after, sendIn recordSize (strideOf recordSize) payload r = .ok () after ∧
      Accepted r after recordSize count payload := by
  rcases Nat.lt_or_ge recordSize.toNat payload.length with hlarge | hlen
  · refine .inl ⟨hlarge, ?_⟩
    rw [sendIn, if_pos hlarge]
    rfl
  rcases Nat.lt_or_ge n (slotAt recordSize (count + 1)) with hfull | hroom
  · refine .inr (.inl ⟨hlen, hfull, ?_⟩)
    rw [slotAt_succ, ← hlimit] at hfull
    rw [sendIn, if_neg (Nat.not_lt.mpr hlen)]
    exact Attempt.bind_of_error (reserveIn_of_lt hfull)
  · exact .inr (.inr (sendIn_of_room hg hlimit hlen hroom))

/-- An accepted payload joins the queue. -/
theorem Queued.snoc {after : Region n} (hq : Queued r recordSize payloads)
    (h : Accepted r after recordSize payloads.length payload) :
    Queued after recordSize (payloads ++ [payload]) := by
  have hcover := add_le_strideOf recordSize
  have hlength : (payloads ++ [payload]).length = payloads.length + 1 := by simp
  refine ⟨?_, ?_, ?_, ?_⟩
  · rw [h.limit, hlength]
  · rw [hlength]
    exact h.fits
  · intro other hother
    rcases List.mem_append.mp hother with hold | hnew
    · exact hq.sizes other hold
    · rw [List.mem_singleton.mp hnew]
      exact h.short
  · intro i hi
    rw [hlength] at hi
    rcases Nat.lt_succ_iff_lt_or_eq.mp hi with hlt | rfl
    · rw [List.getElem_append_left hlt]
      have hbefore := slotAt_le recordSize hlt
      have hlow : headerSize ≤ slotAt recordSize i := Nat.le_add_right ..
      have hsize := hq.sizes _ (List.getElem_mem hlt)
      apply (hq.records i hlt).congr
      intro k hk hend
      rw [length_recordBytes] at hend
      exact h.kept k (by omega) (by omega)
    · rw [List.getElem_append_right (Nat.le_refl _)]
      simpa using h.record

/-! ## Polling -/

variable {c : Cursor}

theorem position_advance {i : Nat} (hc : c.position = slotAt recordSize i) :
    (c.advance (strideOf recordSize)).position = slotAt recordSize (i + 1) := by
  rw [slotAt_succ, ← hc]
  rfl

/-- A poll looks at the record under the cursor, and goes on only where it steps over that. -/
theorem pollIn_eq (stride timeout now : Nat) (c : Cursor) (r : Region n) :
    pollIn stride timeout now c r =
      match look stride timeout now c r with
      | (.none next, after) => (none, next, after)
      | (.record payload next, after) => (some payload, next, after)
      | (.skip next, after) => pollIn stride timeout now next after := by
  rw [pollIn]
  split <;> rename_i hlook <;> rw [hlook]

theorem pollIn_of_none {stride timeout now : Nat} {next : Cursor} {after : Region n}
    (h : look stride timeout now c r = (.none next, after)) :
    pollIn stride timeout now c r = (none, next, after) := by
  rw [pollIn_eq, h]

theorem pollIn_of_record {stride timeout now : Nat} {next : Cursor} {after : Region n}
    (h : look stride timeout now c r = (.record payload next, after)) :
    pollIn stride timeout now c r = (some payload, next, after) := by
  rw [pollIn_eq, h]

theorem pollIn_of_lt {stride : Nat} (timeout now : Nat)
    (h : (limitIn r).toNat < c.position + stride) :
    pollIn stride timeout now c r = (none, c, r) := by
  apply pollIn_of_none
  rw [look, if_pos (.inr h)]

/-- The four parts of the record of a payload. The length is a word of 32 bits. -/
theorem fields_of_holds {record : Nat} (haligned : record % 4 = 0)
    (hrecord : r.Holds record (recordBytes payload)) :
    r.aligned? 4 record = some 1 ∧
      r.little? 4 (record + rollbackField) = some 0 ∧
      r.little? 4 (record + lengthField) = some (payload.length % UInt32.size) ∧
      r.Holds (record + recordHeaderSize) payload := by
  simp only [recordBytes, Region.holds_append, Bytes.length_littleEndian] at hrecord
  obtain ⟨hcommit, ⟨hrollback, hlength⟩, hpayload⟩ := hrecord
  have hone : one.length = 4 := rfl
  rw [hone] at hrollback hlength hpayload
  refine ⟨?_, ?_, ?_, hpayload⟩
  · rw [Region.aligned?, if_pos haligned, ← hone, hcommit.little?]
    rfl
  · have hlittle := hrollback.little?
    rw [Bytes.length_littleEndian] at hlittle
    rw [rollbackField, hlittle]
    rfl
  · have hlittle := hlength.little?
    rw [Bytes.length_littleEndian, Bytes.littleNat_littleEndian] at hlittle
    rw [lengthField, hlittle]
    rfl

/-- A look at the record of a payload answers it, cut as its length is in 32 bits. -/
theorem look_of_holds (timeout now : Nat)
    (haligned : c.position % 4 = 0) (hlen : payload.length ≤ recordSize.toNat)
    (hrecord : r.Holds c.position (recordBytes payload))
    (hlimit : c.position + strideOf recordSize ≤ (limitIn r).toNat) :
    look (strideOf recordSize) timeout now c r =
      (.record (payload.take (payload.length % UInt32.size)) (c.advance (strideOf recordSize)),
        r) := by
  have hpos := strideOf_pos recordSize
  have hcut : payload.length % UInt32.size ≤ payload.length := Nat.mod_le ..
  have hroom : min (payload.length % UInt32.size) (payloadRoom (strideOf recordSize)) =
      payload.length % UInt32.size :=
    Nat.min_eq_left (Nat.le_trans hcut (Nat.le_trans hlen (le_payloadRoom recordSize)))
  obtain ⟨hcommit, hrollback, hlength, hpayload⟩ := fields_of_holds haligned hrecord
  have hread := hpayload.read?_take hcut
  rw [look, if_neg, hcommit]
  · simp [hrollback, hlength, hroom, hread]
  · omega

theorem look_of_lt (timeout now : Nat)
    (hq : Queued r recordSize payloads)
    (hshort : ∀ payload ∈ payloads, payload.length < UInt32.size) {i : Nat}
    (hc : c.position = slotAt recordSize i) (hi : i < payloads.length) :
    look (strideOf recordSize) timeout now c r =
      (.record payloads[i] (c.advance (strideOf recordSize)), r) := by
  have hmem := List.getElem_mem hi
  have hmod := slotAt_mod recordSize i
  have hlimit := slotAt_le recordSize hi
  rw [← hq.limit] at hlimit
  have hlook := look_of_holds timeout now (by rw [hc]; omega) (hq.sizes _ hmem)
    (by rw [hc]; exact hq.records i hi) (by rw [hc]; exact hlimit)
  rwa [Nat.mod_eq_of_lt (hshort _ hmem), List.take_length] at hlook

/-- A poll answers the payload of the record under the cursor, or waits behind the last record; it
changes nothing. -/
theorem pollIn_spec (timeout now : Nat)
    (hq : Queued r recordSize payloads)
    (hshort : ∀ payload ∈ payloads, payload.length < UInt32.size) {i : Nat}
    (hc : c.position = slotAt recordSize i) :
    pollIn (strideOf recordSize) timeout now c r =
      (payloads[i]?, if i < payloads.length then c.advance (strideOf recordSize) else c, r) := by
  by_cases hi : i < payloads.length
  · have hlook := look_of_lt timeout now hq hshort hc hi
    rw [if_pos hi, List.getElem?_eq_getElem hi]
    exact pollIn_of_record hlook
  · rw [if_neg hi, List.getElem?_eq_none (Nat.le_of_not_lt hi)]
    apply pollIn_of_lt timeout now
    have hle : slotAt recordSize payloads.length ≤ slotAt recordSize i :=
      Nat.add_le_add_left (Nat.mul_le_mul_right _ (Nat.le_of_not_lt hi)) _
    have hpos := strideOf_pos recordSize
    rw [hq.limit, hc]
    omega

/-- Draining answers the payloads from the cursor on, up to a count. -/
theorem drainIn_spec (timeout now max : Nat)
    (hq : Queued r recordSize payloads)
    (hshort : ∀ payload ∈ payloads, payload.length < UInt32.size) {i : Nat}
    (hc : c.position = slotAt recordSize i) :
    (drainIn (strideOf recordSize) timeout now max c r).1 = (payloads.drop i).take max := by
  induction max generalizing c i with
  | zero => rfl
  | succ max ih =>
      have hpoll := pollIn_spec timeout now hq hshort hc
      rw [drainIn, hpoll]
      by_cases hi : i < payloads.length
      · rw [List.getElem?_eq_getElem hi, if_pos hi, List.drop_eq_getElem_cons hi,
          List.take_succ_cons]
        simp only [ih (position_advance hc)]
      · have hle := Nat.le_of_not_lt hi
        rw [List.getElem?_eq_none hle, List.drop_eq_nil_of_le hle]
        rfl

/-- A region holds a queue, or has never been prepared for one. -/
def Carries (r : Region n) (recordSize : UInt64) (payloads : List Bytes) : Prop :=
  Queued r recordSize payloads ∨ limitIn r = 0 ∧ payloads = []

theorem pollIn_of_carries (timeout now : Nat) (hs : Sizes n recordSize)
    (h : Carries r recordSize payloads) {i : Nat} (hc : c.position = slotAt recordSize i) :
    pollIn (strideOf recordSize) timeout now c r =
      (payloads[i]?, if i < payloads.length then c.advance (strideOf recordSize) else c, r) := by
  rcases h with hq | ⟨hzero, rfl⟩
  · have hshort (payload : Bytes) (hmem : payload ∈ payloads) : payload.length < UInt32.size :=
      Nat.lt_of_le_of_lt (hq.sizes _ hmem) hs.small
    exact pollIn_spec timeout now hq hshort hc
  · have hpos := strideOf_pos recordSize
    apply pollIn_of_lt timeout now
    rw [hzero, UInt64.toNat_zero]
    omega

end Columnlet.Bus

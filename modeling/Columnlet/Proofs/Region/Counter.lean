import Columnlet.Proofs.Region

/-! # Bumping a counter

The three ways to bump a counter agree: each adds one to the number at its offset and changes no
other byte, whether it rewrites four bytes or the word of eight around them. -/

namespace Columnlet

namespace Region

variable {n : Nat}

/-! ## A field of a word -/

theorem testBit_eq_false {x k i : Nat} (h : x < 2 ^ k) (hi : k ≤ i) : x.testBit i = false :=
  Nat.testBit_lt_two_pow (Nat.lt_of_lt_of_le h (Nat.pow_le_pow_right (by decide) hi))

theorem testBit_mask {s : UInt64} (hs : s.toNat ≤ 32) (j : Nat) :
    ((0xFFFFFFFF : UInt64) <<< s).toNat.testBit j = decide (s.toNat ≤ j ∧ j < s.toNat + 32) := by
  have hones : (0xFFFFFFFF : UInt64).toNat = 2 ^ 32 - 1 := rfl
  rw [UInt64.toNat_shiftLeft, Nat.testBit_mod_two_pow, Nat.testBit_shiftLeft,
    Nat.mod_eq_of_lt (by omega), hones, Nat.testBit_two_pow_sub_one, ← Bool.decide_and,
    ← Bool.decide_and, decide_eq_decide]
  omega

/-- The 32 bits of a word from one of its bits on. -/
theorem toNat_field (x : UInt64) {s : UInt64} (hs : s.toNat ≤ 32) :
    ((x &&& ((0xFFFFFFFF : UInt64) <<< s)) >>> s).toNat = x.toNat / 2 ^ s.toNat % 2 ^ 32 := by
  apply Nat.eq_of_testBit_eq
  intro j
  rw [UInt64.toNat_shiftRight, Nat.testBit_shiftRight, UInt64.toNat_and, Nat.testBit_and,
    Nat.mod_eq_of_lt (show s.toNat < 64 by omega), testBit_mask hs, Nat.testBit_mod_two_pow,
    Nat.testBit_div_two_pow, Bool.and_comm, Nat.add_comm]
  congr 1
  rw [decide_eq_decide]
  omega

/-- A word with 32 of its bits replaced, as a sum of what is above, in and below the field. -/
theorem toNat_replace (x : UInt64) {y s : UInt64} (hs : s.toNat ≤ 32) (hy : y.toNat < 2 ^ 32) :
    ((x &&& ~~~((0xFFFFFFFF : UInt64) <<< s)) ||| (y <<< s)).toNat =
      2 ^ s.toNat * (2 ^ 32 * (x.toNat / 2 ^ (s.toNat + 32)) + y.toNat) +
        x.toNat % 2 ^ s.toNat := by
  apply Nat.eq_of_testBit_eq
  intro j
  have hnot : (~~~((0xFFFFFFFF : UInt64) <<< s)).toNat.testBit j =
      (decide (j < 64) && !decide (s.toNat ≤ j ∧ j < s.toNat + 32)) := by
    rw [← testBit_mask hs j]
    exact BitVec.getLsbD_not
  rw [UInt64.toNat_or, UInt64.toNat_and, Nat.testBit_or, Nat.testBit_and, hnot,
    UInt64.toNat_shiftLeft, Nat.testBit_mod_two_pow, Nat.testBit_shiftLeft,
    Nat.mod_eq_of_lt (show s.toNat < 64 by omega),
    Nat.testBit_two_pow_mul_add _ (Nat.mod_lt _ (Nat.two_pow_pos _)),
    Nat.testBit_two_pow_mul_add _ hy, Nat.testBit_mod_two_pow, Nat.testBit_div_two_pow]
  by_cases hlow : j < s.toNat
  · have hj : j < 64 := by omega
    have hge : ¬ j ≥ s.toNat := by omega
    simp [hlow, hj, hge]
  · by_cases hin : j - s.toNat < 32
    · have hfield : s.toNat ≤ j ∧ j < s.toNat + 32 := by omega
      have hj : j < 64 := by omega
      simp [hlow, hin, hfield, hj]
    · have hnotIn : ¬ (s.toNat ≤ j ∧ j < s.toNat + 32) := by omega
      have hyj : y.toNat.testBit (j - s.toNat) = false := testBit_eq_false hy (by omega)
      have hsum : j - s.toNat - 32 + (s.toNat + 32) = j := by omega
      rw [if_neg hlow, if_neg hin, hsum, hyj]
      by_cases hj : j < 64
      · simp [hnotIn, hj]
      · simp [testBit_eq_false x.toNat_lt (Nat.le_of_not_lt hj), hj]

/-! ## The three ways to bump -/

/-- A region in which the counter at an offset has been bumped from a given count. -/
structure Bumped (r after : Region n) (offset : Nat) (count : UInt32) : Prop where
  before : r.counter? offset = some count
  holds : after.Holds offset (Bytes.littleEndian 4 (count + 1).toNat)
  frame : ∀ i, i < offset ∨ offset + 4 ≤ i → after.get i = r.get i

theorem bumped_of_write? {r after : Region n} {offset : Nat} {count : UInt32}
    (hcount : r.counter? offset = some count)
    (h : r.write? offset (Bytes.littleEndian 4 (count + 1).toNat) = some after) :
    Bumped r after offset count := by
  refine ⟨hcount, holds_of_write? h, ?_⟩
  intro i hi
  exact get_of_write?_of_outside h (by simpa using hi)

theorem bumpAligned?_spec {r after : Region n} {offset : Nat} {next : UInt32}
    (h : r.bumpAligned? offset = some (next, after)) :
    ∃ count, next = count + 1 ∧ Bumped r after offset count := by
  obtain ⟨k, hk, h⟩ := Option.bind_eq_some_iff.mp h
  obtain ⟨s, hs, h⟩ := Option.bind_eq_some_iff.mp h
  cases h
  have hlittle : r.little? 4 offset = some k := by
    unfold aligned? at hk
    split at hk
    · exact hk
    · cases hk
  have hcount : r.counter? offset = some (UInt32.ofNat k) := by
    rw [counter?, hlittle]
    rfl
  exact ⟨_, rfl, bumped_of_write? hcount hs⟩

theorem bumpSplit?_spec {r after : Region n} {offset : Nat} {next : UInt32}
    (h : r.bumpSplit? offset = some (next, after)) :
    ∃ count, next = count + 1 ∧ Bumped r after offset count := by
  obtain ⟨count, hcount, h⟩ := Option.bind_eq_some_iff.mp h
  obtain ⟨s, hs, h⟩ := Option.bind_eq_some_iff.mp h
  cases h
  exact ⟨count, rfl, bumped_of_write? hcount hs⟩

/-- Bumping the counter between two parts of a word keeps both parts. -/
theorem bumpWord_spec (low mid high : Bytes) (hmid : mid.length = 4)
    (hlen : low.length + 4 + high.length = 8) (word : UInt64)
    (hword : word.toNat = Bytes.littleNat (low ++ mid ++ high)) :
    (bumpWord word low.length).1 = UInt32.ofNat (Bytes.littleNat mid) + 1 ∧
      Bytes.littleEndian 8 (bumpWord word low.length).2.toNat =
        low ++ Bytes.littleEndian 4 (UInt32.ofNat (Bytes.littleNat mid) + 1).toNat ++ high := by
  have hshift : (UInt64.ofNat (8 * low.length)).toNat = 8 * low.length := by
    rw [UInt64.toNat_ofNat', Nat.mod_eq_of_lt (by omega)]
  have hs : (UInt64.ofNat (8 * low.length)).toNat ≤ 32 := by omega
  have hpow : 2 ^ (8 * low.length) = 256 ^ low.length := by rw [Nat.pow_mul]
  have hlow := Bytes.littleNat_lt low
  have hmidLt := Bytes.littleNat_lt mid
  rw [hmid] at hmidLt
  rw [List.append_assoc] at hword
  have hdiv : word.toNat / 256 ^ low.length =
      Bytes.littleNat mid + 256 ^ 4 * Bytes.littleNat high := by
    rw [hword, Bytes.littleNat_append_div, Bytes.littleNat_append, hmid]
  have hmod : word.toNat % 256 ^ low.length = Bytes.littleNat low := by
    rw [hword, Bytes.littleNat_append_mod]
  have hnext : (bumpWord word low.length).1 = UInt32.ofNat (Bytes.littleNat mid) + 1 := by
    have hfield := toNat_field word hs
    rw [hshift, hpow, hdiv] at hfield
    have hvalue : (Bytes.littleNat mid + 256 ^ 4 * Bytes.littleNat high) % 2 ^ 32 =
        Bytes.littleNat mid := by omega
    rw [hvalue] at hfield
    simp only [bumpWord, counterMask]
    congr 1
    apply UInt32.toNat_inj.mp
    rw [UInt64.toNat_toUInt32, hfield, UInt32.toNat_ofNat']
  refine ⟨hnext, ?_⟩
  have hreplace := toNat_replace word (y := (bumpWord word low.length).1.toUInt64) hs
    (by rw [UInt32.toNat_toUInt64]; exact UInt32.toNat_lt _)
  have hhigh : word.toNat / 2 ^ (8 * low.length + 32) = Bytes.littleNat high := by
    rw [Nat.pow_add, hpow, ← Nat.div_div_eq_div_mul, hdiv]
    omega
  rw [hshift, hhigh, hpow, hmod, UInt32.toNat_toUInt64, hnext] at hreplace
  have hwhole : (bumpWord word low.length).2.toNat = Bytes.littleNat low +
      256 ^ low.length * ((UInt32.ofNat (Bytes.littleNat mid) + 1).toNat +
        256 ^ 4 * Bytes.littleNat high) := by
    refine Eq.trans ?_ (hreplace.trans ?_)
    · rw [← hnext]
      rfl
    · have hbits : (2 : Nat) ^ 32 = 256 ^ 4 := by decide
      rw [Nat.add_comm, Nat.add_comm (2 ^ 32 * _), hbits]
  have hwidth : 8 = low.length + (4 + high.length) := by omega
  have hlt : (UInt32.ofNat (Bytes.littleNat mid) + 1).toNat < 256 ^ 4 := UInt32.toNat_lt _
  rw [hwhole, hwidth, Bytes.littleEndian_add _ _ _ _ hlow, Bytes.littleEndian_add _ _ _ _ hlt,
    Bytes.littleEndian_littleNat, Bytes.littleEndian_littleNat, List.append_assoc]

/-- A word is what is before, in and after the counter in it. -/
theorem exists_parts {word : Bytes} {start : Nat} (h : start + 4 ≤ word.length) :
    ∃ low mid high, word = low ++ mid ++ high ∧ low.length = start ∧ mid.length = 4 := by
  refine ⟨word.take start, (word.drop start).take 4, (word.drop start).drop 4, ?_, ?_, ?_⟩
  · rw [List.append_assoc, List.take_append_drop, List.take_append_drop]
  · rw [List.length_take]
    omega
  · rw [List.length_take, List.length_drop]
    omega

/-- Regions that hold the same bytes around a counter agree on them. -/
theorem get_eq_of_parts {r s : Region n} {start i : Nat} {low mid mid' high : Bytes}
    (hr : r.Holds start (low ++ mid ++ high)) (hs : s.Holds start (low ++ mid' ++ high))
    (hmid : mid.length = 4) (hmid' : mid'.length = 4) (hlow : start ≤ i)
    (hhigh : i < start + (low.length + 4 + high.length))
    (hout : i < start + low.length ∨ start + low.length + 4 ≤ i) : r.get i = s.get i := by
  rw [holds_append, holds_append, List.length_append, hmid] at hr
  rw [holds_append, holds_append, List.length_append, hmid'] at hs
  rcases hout with hbefore | hbehind
  · exact get_eq_of_holds hr.1.1 hs.1.1 hlow hbefore
  · exact get_eq_of_holds hr.2 hs.2 (by omega) (by omega)

theorem bumpInWord?_spec {r after : Region n} {offset : Nat} {next : UInt32}
    (h : r.bumpInWord? offset = some (next, after)) :
    ∃ count, next = count + 1 ∧ Bumped r after offset count := by
  simp only [bumpInWord?] at h
  split at h
  case isFalse => cases h
  case isTrue hwithin =>
      obtain ⟨k, hk, h⟩ := Option.bind_eq_some_iff.mp h
      obtain ⟨s, hs, h⟩ := Option.bind_eq_some_iff.mp h
      cases h
      obtain ⟨word, hread, hword⟩ : ∃ word, r.read? (offset - offset % 8) 8 = some word ∧
          Bytes.littleNat word = k := by
        unfold aligned? at hk
        split at hk
        · exact Option.map_eq_some_iff.mp hk
        · cases hk
      obtain ⟨hlen, hholds⟩ := read?_eq_some_iff.mp hread
      obtain ⟨low, mid, high, rfl, hlow, hmid⟩ := exists_parts
        (show offset % 8 + 4 ≤ word.length by omega)
      have hparts : low.length + 4 + high.length = 8 := by
        rw [← hlen, List.length_append, List.length_append, hmid]
      have hk64 : (UInt64.ofNat k).toNat = Bytes.littleNat (low ++ mid ++ high) := by
        have hlt := Bytes.littleNat_lt (low ++ mid ++ high)
        rw [hlen, hword] at hlt
        rw [hword, UInt64.toNat_ofNat']
        omega
      obtain ⟨hnext, hbytes⟩ := bumpWord_spec low mid high hmid hparts _ hk64
      have hstart : offset - offset % 8 + low.length = offset := by omega
      have hafter := holds_of_write? hs
      rw [hlow] at hnext hbytes
      rw [hbytes] at hafter
      have hmiddle := hholds
      have hmiddleAfter := hafter
      rw [holds_append, holds_append, hstart] at hmiddle hmiddleAfter
      have hcount : r.counter? offset = some (UInt32.ofNat (Bytes.littleNat mid)) := by
        have hlittle := hmiddle.1.2.little?
        rw [hmid] at hlittle
        rw [counter?, hlittle]
        rfl
      refine ⟨_, hnext, hcount, hmiddleAfter.1.2, ?_⟩
      intro i hi
      by_cases hout : i < offset - offset % 8 ∨ offset - offset % 8 + 8 ≤ i
      · exact get_of_write?_of_outside hs (by rw [Bytes.length_littleEndian]; exact hout)
      · exact get_eq_of_parts hafter hholds (Bytes.length_littleEndian ..) hmid (by omega)
          (by omega) (by omega)

/-! ## Where each way answers -/

variable {r : Region n} {offset : Nat}

theorem bumpAligned?_isSome_iff :
    (r.bumpAligned? offset).isSome ↔ offset % 4 = 0 ∧ offset + 4 ≤ n := by
  constructor
  · intro h
    obtain ⟨_, hbump⟩ := Option.isSome_iff_exists.mp h
    obtain ⟨count, hcount, -⟩ := Option.bind_eq_some_iff.mp hbump
    refine ⟨Decidable.byContradiction fun hoff => ?_, le_of_aligned? hcount⟩
    simp [aligned?, hoff] at hcount
  · rintro ⟨haligned, hbound⟩
    obtain ⟨count, hcount⟩ := r.aligned?_of_le haligned hbound
    simp [bumpAligned?, hcount, write?, hbound]

theorem bumpInWord?_isSome_iff :
    (r.bumpInWord? offset).isSome ↔ offset % 8 ≤ 4 ∧ offset - offset % 8 + 8 ≤ n := by
  constructor
  · intro h
    simp only [bumpInWord?] at h
    split at h
    case isFalse => cases h
    case isTrue hwithin =>
        obtain ⟨_, hbump⟩ := Option.isSome_iff_exists.mp h
        obtain ⟨word, hword, -⟩ := Option.bind_eq_some_iff.mp hbump
        exact ⟨hwithin, le_of_aligned? hword⟩
  · rintro ⟨hwithin, hbound⟩
    obtain ⟨word, hword⟩ := r.aligned?_of_le (show (offset - offset % 8) % 8 = 0 by omega) hbound
    simp [bumpInWord?, hwithin, hword, write?, hbound]

theorem bumpSplit?_isSome_iff : (r.bumpSplit? offset).isSome ↔ offset + 4 ≤ n := by
  constructor
  · intro h
    obtain ⟨_, hbump⟩ := Option.isSome_iff_exists.mp h
    obtain ⟨count, hcount, -⟩ := Option.bind_eq_some_iff.mp hbump
    exact le_of_counter? hcount
  · intro hbound
    obtain ⟨k, hk⟩ := r.little?_of_le 4 hbound
    simp [bumpSplit?, counter?, hk, write?, hbound]

/-! ## A bump -/

theorem bumped_of_bump? {r after : Region n} {offset : Nat} {next : UInt32}
    (h : r.bump? offset = some (next, after)) :
    ∃ count, next = count + 1 ∧ Bumped r after offset count := by
  unfold bump? at h
  split at h
  case h_1 _ hbump =>
      cases h
      exact bumpAligned?_spec hbump
  case h_2 =>
      split at h
      case h_1 _ hbump =>
          cases h
          exact bumpInWord?_spec hbump
      case h_2 => exact bumpSplit?_spec h

theorem Bumped.bound {r after : Region n} {offset : Nat} {count : UInt32}
    (h : Bumped r after offset count) : offset + 4 ≤ n := by
  have hbound := h.holds.bound
  rwa [Bytes.length_littleEndian] at hbound

theorem Bumped.after {r after : Region n} {offset : Nat} {count : UInt32}
    (h : Bumped r after offset count) : after.counter? offset = some (count + 1) :=
  h.holds.counter?

/-- What counts as a bump depends on the bytes of the counter, and on what else may change. -/
theorem Bumped.congr {r after s last : Region n} {offset : Nat} {count : UInt32}
    (h : Bumped r after offset count)
    (hbefore : ∀ i, offset ≤ i → i < offset + 4 → s.get i = r.get i)
    (hafter : ∀ i, offset ≤ i → i < offset + 4 → last.get i = after.get i)
    (frame : ∀ i, i < offset ∨ offset + 4 ≤ i → last.get i = s.get i) :
    Bumped s last offset count := by
  refine ⟨?_, h.holds.congr ?_, frame⟩
  · rw [counter?_congr hbefore]
    exact h.before
  · rw [Bytes.length_littleEndian]
    exact hafter

/-- A counter is bumped if it lies inside the region, however it stands to the words there. -/
theorem bump?_isSome_iff : (r.bump? offset).isSome ↔ offset + 4 ≤ n := by
  constructor
  · intro h
    obtain ⟨_, hbump⟩ := Option.isSome_iff_exists.mp h
    obtain ⟨_, _, hbumped⟩ := bumped_of_bump? hbump
    exact hbumped.bound
  · intro hbound
    unfold bump?
    split
    · rfl
    · split
      · rfl
      · exact bumpSplit?_isSome_iff.mpr hbound

theorem bump?_spec (r : Region n) (offset : Nat) (h : offset + 4 ≤ n) :
    ∃ count after, r.bump? offset = some (count + 1, after) ∧ Bumped r after offset count := by
  obtain ⟨⟨next, after⟩, hbump⟩ := Option.isSome_iff_exists.mp (bump?_isSome_iff.mpr h)
  obtain ⟨count, rfl, hbumped⟩ := bumped_of_bump? hbump
  exact ⟨count, after, hbump, hbumped⟩

/-! ## One increment -/

/-- The number of 32 bits at an offset one higher, modulo 2 to the 32, and the bytes of a memory
that has it there and is otherwise as it was; nothing if the number does not lie inside. -/
def incremented? (r : Region n) (offset : Nat) : Option (UInt32 × (Nat → UInt8)) :=
  if offset + 4 ≤ n then
    let next := (Bytes.littleNat (r.memory.read offset 4) + 1) % 2 ^ 32
    some (.ofNat next, fun i =>
      if offset ≤ i ∧ i < offset + 4 then .ofNat (next / 256 ^ (i - offset)) else r.get i)
  else none

/-- A count, and the bytes of the region beside it. -/
def seen (bumped : UInt32 × Region n) : UInt32 × (Nat → UInt8) := (bumped.1, bumped.2.get)

theorem Bumped.toNat_next {after : Region n} {count : UInt32} (h : Bumped r after offset count) :
    (count + 1).toNat = (Bytes.littleNat (r.memory.read offset 4) + 1) % 2 ^ 32 := by
  obtain ⟨k, hk, rfl⟩ := Option.map_eq_some_iff.mp h.before
  obtain ⟨bs, hbs, rfl⟩ := Option.map_eq_some_iff.mp hk
  rw [read?, if_pos h.bound] at hbs
  cases hbs
  simp [UInt32.toNat_add, Nat.add_mod]

theorem Bumped.incremented?_eq {after : Region n} {count : UInt32}
    (h : Bumped r after offset count) :
    r.incremented? offset = some (seen (count + 1, after)) := by
  rw [incremented?, if_pos h.bound, ← h.toNat_next]
  simp only [seen, Option.some.injEq, Prod.mk.injEq, UInt32.ofNat_toNat, true_and]
  funext i
  split
  · rename_i hi
    have hget := (holds_iff.mp h.holds).2 (i - offset) (by rw [Bytes.length_littleEndian]; omega)
    rw [Bytes.getElem_littleEndian, Nat.add_sub_cancel' hi.1] at hget
    exact hget.symm
  · exact (h.frame i (by omega)).symm

/-- A way to bump comes to one increment wherever it answers. -/
theorem map_seen_of_spec {way : Option (UInt32 × Region n)} {p : Prop} [Decidable p]
    (hspec : ∀ {next after}, way = some (next, after) →
      ∃ count, next = count + 1 ∧ Bumped r after offset count)
    (hsome : way.isSome ↔ p ∧ offset + 4 ≤ n) :
    way.map seen = if p then r.incremented? offset else none := by
  cases hway : way with
  | none =>
      simp only [hway, Option.isSome_none, Bool.false_eq_true, false_iff] at hsome
      by_cases hp : p
      · simp [hp, incremented?, mt (And.intro hp) hsome]
      · simp [hp]
  | some bumped =>
      obtain ⟨count, hnext, hbumped⟩ := hspec hway
      have hp : p := (hsome.mp (by simp [hway])).1
      rw [if_pos hp, hbumped.incremented?_eq, ← hnext]
      rfl

/-- A bump is one increment of the four bytes at its offset, inside the region, and answers nothing
elsewhere. So is each of the three ways to bump where it answers: the aligned one at multiples of
four, the one through a word where that begins at most four bytes in front and lies inside, the
split one wherever a bump does. What a bump answers is the counter then. -/
theorem bump?_eq_incremented? (r : Region n) (offset : Nat) :
    (r.bump? offset).map seen = r.incremented? offset ∧
      (r.bumpAligned? offset).map seen =
        (if offset % 4 = 0 then r.incremented? offset else none) ∧
      (r.bumpInWord? offset).map seen =
        (if offset % 8 ≤ 4 ∧ offset - offset % 8 + 8 ≤ n then r.incremented? offset else none) ∧
      (r.bumpSplit? offset).map seen = r.incremented? offset ∧
      (r.bump? offset).bind (·.2.counter? offset) = (r.bump? offset).map (·.1) := by
  refine ⟨?_, ?_, ?_, ?_, ?_⟩
  · simpa using map_seen_of_spec (p := True) bumped_of_bump? (by simp [bump?_isSome_iff])
  · exact map_seen_of_spec bumpAligned?_spec bumpAligned?_isSome_iff
  · refine map_seen_of_spec bumpInWord?_spec (bumpInWord?_isSome_iff.trans ?_)
    omega
  · simpa using map_seen_of_spec (p := True) bumpSplit?_spec (by simp [bumpSplit?_isSome_iff])
  · cases hbump : r.bump? offset with
    | none => rfl
    | some bumped =>
        obtain ⟨count, hnext, hbumped⟩ := bumped_of_bump? hbump
        simp [hbumped.after, hnext]

/-- A counter inside a word wraps without a carry into the byte behind it. -/
example : ((⟨.ofBytes [7, 0xff, 0xff, 0xff, 0xff, 9]⟩ : Region 8).bump? 1).map
    (fun bumped => (bumped.1, bumped.2.memory.read 0 8)) = some (0, [7, 0, 0, 0, 0, 9, 0, 0]) := by
  decide +kernel

end Region

end Columnlet

import Columnlet.Proofs.Bytes

/-! # The order of byte strings

Byte strings of one length are in the order of the numbers that they spell with their most
significant byte first, and a number is small if and only if its first bytes are zero. -/

namespace Columnlet.Bytes

/-! ## Positions -/

/-- A byte string is what its number is written as in the same count of bytes. -/
theorem bigEndian_bigNat_of_length {width : Nat} {bs : Bytes} (h : bs.length = width) :
    bigEndian width (bigNat bs) = bs := by
  rw [← h, bigEndian_bigNat]

theorem bigNat_append (as bs : Bytes) :
    bigNat (as ++ bs) = bigNat as * 256 ^ bs.length + bigNat bs := by
  simp only [bigNat, List.reverse_append, littleNat_append, List.length_reverse]
  rw [Nat.add_comm, Nat.mul_comm]

theorem bigNat_cons (b : UInt8) (bs : Bytes) :
    bigNat (b :: bs) = b.toNat * 256 ^ bs.length + bigNat bs := by
  have h := bigNat_append [b] bs
  rwa [List.singleton_append] at h

/-- A number needs no more than its last bytes if and only if those before them are zero. -/
theorem bigNat_append_lt_iff (as bs : Bytes) :
    bigNat (as ++ bs) < 256 ^ bs.length ↔ ∀ a ∈ as, a = 0 := by
  induction as with
  | nil => simpa using bigNat_lt bs
  | cons a as ih =>
      rw [List.cons_append, bigNat_cons, List.forall_mem_cons, ← ih]
      constructor
      · intro h
        have hpow : 256 ^ bs.length ≤ 256 ^ (as ++ bs).length :=
          Nat.pow_le_pow_right (by decide) (by simp)
        have hzero : a.toNat = 0 := by
          refine Nat.eq_zero_of_not_pos fun hpos => ?_
          have hmul := Nat.le_mul_of_pos_left (256 ^ (as ++ bs).length) hpos
          omega
        exact ⟨UInt8.toNat_inj.mp hzero, Nat.lt_of_le_of_lt (Nat.le_add_left ..) h⟩
      · rintro ⟨rfl, h⟩
        simpa using h

/-! ## Comparisons -/

/-- The first digits decide, and the last ones where the first are the same. -/
theorem compare_mul_add {a b x y base : Nat} (hx : x < base) (hy : y < base) :
    compare (a * base + x) (b * base + y) = (compare a b).then (compare x y) := by
  rcases Nat.lt_trichotomy a b with hlt | rfl | hgt
  · have hle : (a + 1) * base ≤ b * base := Nat.mul_le_mul_right base hlt
    have hnumbers : a * base + x < b * base + y := by
      rw [Nat.add_mul] at hle
      omega
    rw [Nat.compare_eq_lt.mpr hlt, Nat.compare_eq_lt.mpr hnumbers]
    rfl
  · have hself : compare a a = .eq := Nat.compare_eq_eq.mpr rfl
    rw [hself, Ordering.eq_then]
    simp only [Nat.compare_eq_ite_lt, Nat.add_lt_add_iff_left]
  · have hle : (b + 1) * base ≤ a * base := Nat.mul_le_mul_right base hgt
    have hnumbers : b * base + y < a * base + x := by
      rw [Nat.add_mul] at hle
      omega
    rw [Nat.compare_eq_gt.mpr hgt, Nat.compare_eq_gt.mpr hnumbers]
    rfl

theorem compare_toNat (a b : UInt8) : compare a.toNat b.toNat = compare a b := by
  simp only [compare, compareOfLessAndEq, UInt8.lt_iff_toNat_lt, UInt8.toNat_inj]

/-- Byte strings of one length are in the order of the numbers that they spell. -/
theorem compare_bigNat {as bs : Bytes} (h : as.length = bs.length) :
    compare (bigNat as) (bigNat bs) = compare as bs := by
  induction as generalizing bs with
  | nil =>
      obtain rfl : bs = [] := List.length_eq_zero_iff.mp h.symm
      rfl
  | cons a as ih =>
      cases bs with
      | nil => cases h
      | cons b bs =>
          have hlength : as.length = bs.length := Nat.succ.inj h
          have hb : bigNat bs < 256 ^ as.length := hlength ▸ bigNat_lt bs
          rw [bigNat_cons, bigNat_cons, ← hlength, compare_mul_add (bigNat_lt as) hb,
            compare_toNat, ih hlength, List.compare_cons_cons]

theorem compare_bigEndian {width m n : Nat} (hm : m < 256 ^ width) (hn : n < 256 ^ width) :
    compare (bigEndian width m) (bigEndian width n) = compare m n := by
  rw [← compare_bigNat (by simp), bigNat_bigEndian, bigNat_bigEndian, Nat.mod_eq_of_lt hm,
    Nat.mod_eq_of_lt hn]

/-- Behind beginnings of one length the rest counts where the beginnings are the same. -/
theorem compare_append {as bs : Bytes} (h : as.length = bs.length) (xs ys : Bytes) :
    compare (as ++ xs) (bs ++ ys) = (compare as bs).then (compare xs ys) := by
  induction as generalizing bs with
  | nil =>
      obtain rfl : bs = [] := List.length_eq_zero_iff.mp h.symm
      rfl
  | cons a as ih =>
      cases bs with
      | nil => cases h
      | cons b bs =>
          rw [List.cons_append, List.cons_append, List.compare_cons_cons, List.compare_cons_cons,
            ih (Nat.succ.inj h), Ordering.then_assoc]

end Columnlet.Bytes

import Columnlet.Bytes
import Mathlib.Algebra.Group.Nat.Defs

/-! # Numbers in bytes

How far numbers in bytes reach, what each byte of a number is, and numbers written in two parts. -/

namespace Columnlet.Bytes

/-! ## Bounds -/

theorem littleNat_littleEndian (width n : Nat) :
    littleNat (littleEndian width n) = n % 256 ^ width := by
  induction width generalizing n with
  | zero => simp [littleEndian, littleNat, Nat.mod_one]
  | succ width ih =>
    have low : (UInt8.ofNat n).toNat = n % 256 := UInt8.toNat_ofNat'
    rw [littleEndian, littleNat, low, ih, Nat.pow_succ', Nat.mod_mul]

theorem littleNat_lt (bs : Bytes) : littleNat bs < 256 ^ bs.length := by
  induction bs with
  | nil => simp [littleNat]
  | cons b bs ih =>
    have hb : b.toNat < 256 := b.toNat_lt
    rw [littleNat, List.length_cons, Nat.pow_succ]
    omega

theorem bigNat_bigEndian (width n : Nat) : bigNat (bigEndian width n) = n % 256 ^ width := by
  simp [bigNat, bigEndian, littleNat_littleEndian]

theorem bigNat_lt (bs : Bytes) : bigNat bs < 256 ^ bs.length := by
  simpa [bigNat] using littleNat_lt bs.reverse

/-! ## Single bytes -/

theorem getElem_littleEndian (width n : Nat) {k : Nat} (hk : k < (littleEndian width n).length) :
    (littleEndian width n)[k] = UInt8.ofNat (n / 256 ^ k) := by
  induction width generalizing n k with
  | zero => simp [littleEndian] at hk
  | succ width ih =>
      cases k with
      | zero => simp [littleEndian]
      | succ k =>
          simp only [littleEndian, List.getElem_cons_succ, ih]
          rw [Nat.div_div_eq_div_mul, Nat.pow_succ']

/-! ## Numbers in two parts -/

theorem littleNat_append (as bs : Bytes) :
    littleNat (as ++ bs) = littleNat as + 256 ^ as.length * littleNat bs := by
  induction as with
  | nil => simp [littleNat]
  | cons a as ih =>
      rw [List.cons_append, littleNat, littleNat, ih, List.length_cons, Nat.pow_succ', Nat.mul_add,
        Nat.mul_assoc]
      omega

theorem littleNat_append_div (as bs : Bytes) :
    littleNat (as ++ bs) / 256 ^ as.length = littleNat bs := by
  rw [littleNat_append, Nat.add_mul_div_left _ _ (Nat.pow_pos (by decide)),
    Nat.div_eq_of_lt (littleNat_lt as), Nat.zero_add]

theorem littleNat_append_mod (as bs : Bytes) :
    littleNat (as ++ bs) % 256 ^ as.length = littleNat as := by
  rw [littleNat_append, Nat.add_mul_mod_self_left, Nat.mod_eq_of_lt (littleNat_lt as)]

theorem littleEndian_add (width more low high : Nat) (h : low < 256 ^ width) :
    littleEndian (width + more) (low + 256 ^ width * high) =
      littleEndian width low ++ littleEndian more high := by
  induction width generalizing low with
  | zero =>
      have hlow : low = 0 := by simpa using h
      simp [littleEndian, hlow]
  | succ width ih =>
      have hdiv : (low + 256 ^ (width + 1) * high) / 256 = low / 256 + 256 ^ width * high := by
        rw [Nat.pow_succ', Nat.mul_assoc, Nat.add_mul_div_left _ _ (by decide)]
      have hmod : UInt8.ofNat (low + 256 ^ (width + 1) * high) = UInt8.ofNat low := by
        apply UInt8.toNat_inj.mp
        rw [UInt8.toNat_ofNat', UInt8.toNat_ofNat', Nat.pow_succ', Nat.mul_assoc]
        omega
      have hlt : low / 256 < 256 ^ width := by
        rw [Nat.pow_succ] at h
        omega
      rw [Nat.add_right_comm, littleEndian, littleEndian, hdiv, hmod, ih (low / 256) hlt,
        List.cons_append]

end Columnlet.Bytes

/-!
Byte strings and the numbers written in them. `littleEndian` and `bigEndian` write a number in a
given count of bytes, `littleNat` and `bigNat` read one back; each pair is inverse up to the width.
-/

namespace Columnlet

/-- A finite string of bytes. -/
abbrev Bytes := List UInt8

namespace Bytes

/-! ## Numbers, least significant byte first -/

/-- The low `width` bytes of `n`, least significant first. -/
def littleEndian : (width n : Nat) → Bytes
  | 0, _ => []
  | width + 1, n => UInt8.ofNat n :: littleEndian width (n / 256)

/-- The number whose bytes are given, least significant first. -/
def littleNat : Bytes → Nat
  | [] => 0
  | b :: bs => b.toNat + 256 * littleNat bs

@[simp] theorem length_littleEndian (width n : Nat) : (littleEndian width n).length = width := by
  induction width generalizing n with
  | zero => rfl
  | succ width ih => simp [littleEndian, ih]

theorem littleEndian_littleNat (bs : Bytes) : littleEndian bs.length (littleNat bs) = bs := by
  induction bs with
  | nil => rfl
  | cons b bs ih =>
    have hb : b.toNat < 256 := b.toNat_lt
    have hdiv : (b.toNat + 256 * littleNat bs) / 256 = littleNat bs := by omega
    have hlow : UInt8.ofNat (b.toNat + 256 * littleNat bs) = b := by
      apply UInt8.toNat_inj.mp
      rw [UInt8.toNat_ofNat']
      omega
    rw [List.length_cons, littleEndian, littleNat, hdiv, ih, hlow]

/-! ## Numbers, most significant byte first -/

/-- The low `width` bytes of `n`, most significant first. -/
def bigEndian (width n : Nat) : Bytes := (littleEndian width n).reverse

/-- The number whose bytes are given, most significant first. -/
def bigNat (bs : Bytes) : Nat := littleNat bs.reverse

@[simp] theorem length_bigEndian (width n : Nat) : (bigEndian width n).length = width := by
  simp [bigEndian]

theorem bigEndian_bigNat (bs : Bytes) : bigEndian bs.length (bigNat bs) = bs := by
  have h := littleEndian_littleNat bs.reverse
  rw [List.length_reverse] at h
  rw [bigEndian, bigNat, h, List.reverse_reverse]

/-! ## Text -/

/-- The hexadecimal digit of a number below 16, in lower case. -/
def hexDigit (n : Nat) : Char := Char.ofNat (if n < 10 then 48 + n else 87 + n)

/-- Two lower-case hexadecimal digits for each byte. -/
def hex (bs : Bytes) : String :=
  String.ofList (bs.flatMap fun b => [hexDigit (b.toNat / 16), hexDigit (b.toNat % 16)])

/-- The bytes of a text in UTF-8. -/
def ofText (s : String) : Bytes := s.toUTF8.data.toList

/-- The text that the bytes spell in UTF-8, if they spell one. -/
def text? (bs : Bytes) : Option String := String.fromUTF8? ⟨bs.toArray⟩

end Bytes

end Columnlet

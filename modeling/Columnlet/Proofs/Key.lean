import Columnlet.Key
import Columnlet.Proofs.Bytes.Order

/-! # Keys in bytes

A key is read back from the bytes that it is written as, and from no others; byte strings of the
right width spell a key unless one of their numbers is too large for it. -/

namespace Columnlet.Key

/-! ## Written keys -/

/-- The three numbers in the bytes of a key. -/
theorem bigNat_toBytes (k : Key) :
    Bytes.bigNat (k.toBytes.take 8) = k.fileId.toNat ∧
      Bytes.bigNat ((k.toBytes.drop 8).take 4) = k.rowGroup.toNat ∧
      Bytes.bigNat (k.toBytes.drop 12) = k.column.toNat := by
  have hfile : k.fileId.toNat < 256 ^ 8 := k.fileId.toNat_lt
  have hgroup : k.rowGroup.toNat < 2 ^ 16 := k.rowGroup.toNat_lt
  have hcolumn : k.column.toNat < 2 ^ 16 := k.column.toNat_lt
  refine ⟨?_, ?_, ?_⟩
  · rw [toBytes, List.append_assoc, List.take_left' (by simp), Bytes.bigNat_bigEndian,
      Nat.mod_eq_of_lt hfile]
  · rw [toBytes, List.append_assoc, List.drop_left' (by simp), List.take_left' (by simp),
      Bytes.bigNat_bigEndian, Nat.mod_eq_of_lt (by omega)]
  · rw [toBytes, List.drop_left' (by simp), Bytes.bigNat_bigEndian, Nat.mod_eq_of_lt (by omega)]

theorem ofBytes?_toBytes (k : Key) : ofBytes? k.toBytes = some k := by
  obtain ⟨hfile, hgroup, hcolumn⟩ := k.bigNat_toBytes
  have hfits : k.rowGroup.toNat < UInt16.size ∧ k.column.toNat < UInt16.size :=
    ⟨k.rowGroup.toNat_lt, k.column.toNat_lt⟩
  rw [ofBytes?, if_pos k.length_toBytes]
  simp only [hfile, hgroup, hcolumn]
  rw [if_pos hfits]
  simp

theorem toBytes_injective : Function.Injective toBytes := by
  intro a b h
  have hsome := ofBytes?_toBytes a
  rw [h, ofBytes?_toBytes] at hsome
  exact (Option.some.inj hsome).symm

/-! ## Bytes that spell a key -/

/-- Four bytes spell a number of sixteen bits if and only if the first two are zero. -/
theorem bigNat_field_lt_iff (bs : Bytes) (i : Nat) (h : i + 4 ≤ bs.length) :
    Bytes.bigNat ((bs.drop i).take 4) < UInt16.size ↔ bs[i]? = some 0 ∧ bs[i + 1]? = some 0 := by
  have hfield : (bs.drop i).take 4 = [bs[i], bs[i + 1]] ++ (bs.drop (i + 2)).take 2 := by
    rw [List.drop_eq_getElem_cons (by omega), List.take_succ_cons,
      List.drop_eq_getElem_cons (by omega), List.take_succ_cons]
    rfl
  have hsize : UInt16.size = 256 ^ ((bs.drop (i + 2)).take 2).length := by
    have hlength : ((bs.drop (i + 2)).take 2).length = 2 := by
      rw [List.length_take, List.length_drop]
      omega
    rw [hlength]
    rfl
  rw [hfield, hsize, Bytes.bigNat_append_lt_iff, List.getElem?_eq_getElem (by omega),
    List.getElem?_eq_getElem (by omega)]
  simp

/-- A key of three numbers that fit is written as these numbers. -/
theorem toBytes_ofNat {file group column : Nat} (hfile : file < UInt64.size)
    (hgroup : group < UInt16.size) (hcolumn : column < UInt16.size) :
    toBytes ⟨.ofNat file, .ofNat group, .ofNat column⟩ =
      Bytes.bigEndian 8 file ++ Bytes.bigEndian 4 group ++ Bytes.bigEndian 4 column := by
  simp only [toBytes, UInt64.toNat_ofNat_of_lt' hfile, UInt16.toNat_ofNat_of_lt' hgroup,
    UInt16.toNat_ofNat_of_lt' hcolumn]

/-- Bytes that spell a key are the ones it is written as. -/
theorem eq_toBytes_of_ofBytes? {bs : Bytes} {k : Key} (h : ofBytes? bs = some k) :
    bs = k.toBytes := by
  simp only [ofBytes?] at h
  split at h
  · rename_i hlength
    split at h
    · rename_i hfits
      rw [width] at hlength
      have hfile : Bytes.bigNat (bs.take 8) < UInt64.size := by
        have hlt := Bytes.bigNat_lt (bs.take 8)
        rwa [List.length_take, hlength] at hlt
      have hparts : bs = bs.take 8 ++ (bs.drop 8).take 4 ++ bs.drop 12 := by
        have hlast : bs.drop 12 = (bs.drop 8).drop 4 := by rw [List.drop_drop]
        rw [hlast, List.append_assoc, List.take_append_drop, List.take_append_drop]
      rw [← Option.some.inj h, toBytes_ofNat hfile hfits.1 hfits.2,
        Bytes.bigEndian_bigNat_of_length (by simp [hlength]),
        Bytes.bigEndian_bigNat_of_length (by simp [hlength]),
        Bytes.bigEndian_bigNat_of_length (by simp [hlength])]
      exact hparts
    · cases h
  · cases h

/-- Sixteen bytes spell a key if and only if the upper halves of row group and column are zero. -/
theorem isSome_ofBytes?_iff (bs : Bytes) :
    (ofBytes? bs).isSome ↔
      bs.length = 16 ∧ bs[8]? = some 0 ∧ bs[9]? = some 0 ∧ bs[12]? = some 0 ∧ bs[13]? = some 0 := by
  by_cases h : bs.length = 16
  · have hgroup := bigNat_field_lt_iff bs 8 (by omega)
    have hcolumn := bigNat_field_lt_iff bs 12 (by omega)
    have hwhole : (bs.drop 12).take 4 = bs.drop 12 := List.take_of_length_le (by simp [h])
    rw [hwhole] at hcolumn
    simp only [ofBytes?, width, h, if_true, hgroup, hcolumn, true_and, and_assoc, Option.isSome_ite]
  · simp [ofBytes?, width, h]

end Columnlet.Key

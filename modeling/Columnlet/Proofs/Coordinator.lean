import Columnlet.Coordinator
import Columnlet.Proofs.Attempt
import Columnlet.Proofs.Region

/-! # The handshake of readers and writer

Storing a header touches no byte behind it, and a read that is admitted and leaves again restores
the header byte for byte. -/

namespace Columnlet

namespace Header

variable {n : Nat}

@[simp] theorem length_toBytes (h : Header) : h.toBytes.length = width := by
  simp [toBytes, width]

/-! ## The bytes of a header -/

theorem mod_of_field (x : UInt16) : x.toNat % 256 ^ 2 = x.toNat := by
  have hlt := x.toNat_lt
  omega

theorem ofRegion_of_holds {r : Region n} {h : Header} (hr : r.Holds flagOffset h.toBytes) :
    ofRegion r = h := by
  obtain ⟨hflag, hreaders⟩ := Region.holds_append.mp hr
  have hflagNat := hflag.little?
  have hreadersNat := hreaders.little?
  rw [Bytes.length_littleEndian] at hflagNat
  simp only [Bytes.length_littleEndian] at hreadersNat
  rw [Bytes.littleNat_littleEndian, mod_of_field] at hflagNat hreadersNat
  rw [ofRegion, hflagNat, show readersOffset = flagOffset + 2 from rfl, hreadersNat]
  simp

theorem holds_ofRegion (r : Region n) (hn : width ≤ n) :
    r.Holds flagOffset (ofRegion r).toBytes := by
  have hfield (offset : Nat) (hoffset : offset + 2 ≤ n) :
      r.Holds offset
        (Bytes.littleEndian 2 (UInt16.ofNat ((r.little? 2 offset).getD 0)).toNat) := by
    obtain ⟨bs, hbs⟩ := r.read?_of_le hoffset
    obtain ⟨hlen, hholds⟩ := Region.read?_eq_some_iff.mp hbs
    have hlt := Bytes.littleNat_lt bs
    rw [hlen] at hlt
    have hmod : Bytes.littleNat bs % 2 ^ 16 = Bytes.littleNat bs := by omega
    rw [Region.little?, hbs, Option.map_some, Option.getD_some, UInt16.toNat_ofNat', hmod, ← hlen,
      Bytes.littleEndian_littleNat]
    exact hholds
  simp only [width] at hn
  rw [toBytes, Region.holds_append, Bytes.length_littleEndian]
  exact ⟨hfield flagOffset (by simp only [flagOffset]; omega),
    hfield readersOffset (by simp only [readersOffset]; omega)⟩

theorem ofRegion_congr {r s : Region n} (h : ∀ i, i < width → s.get i = r.get i) :
    ofRegion s = ofRegion r := by
  have hfield (offset : Nat) (hoffset : offset + 2 ≤ width) :
      s.little? 2 offset = r.little? 2 offset := by
    apply Region.little?_congr
    intro i _ hi
    exact h i (by omega)
  rw [ofRegion, ofRegion, hfield flagOffset (by decide), hfield readersOffset (by decide)]

/-! ## Storing -/

theorem holds_store (r : Region n) (h : Header) (hn : width ≤ n) :
    (store r h).Holds flagOffset h.toBytes := by
  obtain ⟨after, hafter⟩ := Region.write?_of_le r flagOffset h.toBytes
    (by rw [length_toBytes, flagOffset]; omega)
  rw [store, hafter]
  exact Region.holds_of_write? hafter

@[simp] theorem ofRegion_store (r : Region n) (h : Header) (hn : width ≤ n) :
    ofRegion (store r h) = h := ofRegion_of_holds (holds_store r h hn)

theorem get_store_of_le (r : Region n) (h : Header) {i : Nat} (hi : width ≤ i) :
    (store r h).get i = r.get i := by
  cases hwrite : r.write? flagOffset h.toBytes with
  | none => rw [store, hwrite, Option.getD_none]
  | some after =>
      rw [store, hwrite, Option.getD_some]
      exact Region.get_of_write?_of_outside hwrite (by rw [length_toBytes, flagOffset]; omega)

/-- Putting the header of another region back restores the bytes of the header, and no other. -/
theorem get_store_ofRegion (r s : Region n) (hn : width ≤ n) (i : Nat) :
    (store s (ofRegion r)).get i = if i < width then r.get i else s.get i := by
  by_cases hi : i < width
  · rw [if_pos hi]
    exact Region.get_eq_of_holds (holds_store s _ hn) (holds_ofRegion r hn) (Nat.zero_le _)
      (by rw [length_toBytes, flagOffset]; omega)
  · rw [if_neg hi]
    exact get_store_of_le s _ (by omega)

/-! ## Admission -/

theorem enter_eq_ok_iff {h h' : Header} :
    h.enter = .ok h' ↔
      h.writerFlag = 0 ∧ h.readers < ceiling ∧ h' = { h with readers := h.readers + 1 } := by
  unfold enter
  by_cases hflag : h.writerFlag = 0
  · by_cases hfull : ceiling ≤ h.readers
    · have hroom : ¬ h.readers < ceiling := UInt16.not_lt.mpr hfull
      simp [hflag, hfull, hroom]
    · have hroom : h.readers < ceiling := UInt16.not_le.mp hfull
      simp [hflag, hfull, hroom, eq_comm]
  · simp [hflag]

/-- A read that is admitted and leaves restores the header. -/
theorem leave_of_enter {h h' : Header} (hent : h.enter = .ok h') : h'.leave = h := by
  obtain ⟨hflag, hroom, rfl⟩ := enter_eq_ok_iff.mp hent
  have hne : h.readers + 1 ≠ 0 := by
    intro hzero
    have hnat := congrArg UInt16.toNat hzero
    have hlt : h.readers.toNat < 32767 := hroom
    simp only [UInt16.toNat_add, UInt16.toNat_zero] at hnat
    have hone : (1 : UInt16).toNat = 1 := rfl
    omega
  simp [leave, hne]

end Header

/-! ## Through a window -/

namespace Coordinator

theorem view_update (c : Coordinator) (f : Header → Header) (files : Files) :
    (c.update f files).view c.mapping =
      Header.store (files.view c.mapping) (f (c.state files)) := Files.view_commit_self ..

theorem file_update_of_ne (c : Coordinator) (f : Header → Header) (files : Files) {l : Location}
    (h : l ≠ c.mapping.location) : (c.update f files).file l = files.file l :=
  Files.file_commit_of_ne h

end Coordinator

end Columnlet

import Columnlet.Proofs.Bytes
import Columnlet.Region.Counter

/-! # The contents of regions

Which bytes a region holds where, what a write leaves of them, and which bytes a read depends on. -/

namespace Columnlet

namespace Region

variable {n : Nat}

/-- From an offset on, inside the region, stand given bytes. -/
def Holds (r : Region n) (offset : Nat) (bs : Bytes) : Prop :=
  r.read? offset bs.length = some bs

theorem read?_eq_some_iff {r : Region n} {offset width : Nat} {bs : Bytes} :
    r.read? offset width = some bs ↔ bs.length = width ∧ r.Holds offset bs := by
  constructor
  · intro h
    have hlen := length_of_read? h
    exact ⟨hlen, by rw [Holds, hlen, h]⟩
  · rintro ⟨rfl, h⟩
    exact h

theorem holds_iff {r : Region n} {offset : Nat} {bs : Bytes} :
    r.Holds offset bs ↔
      offset + bs.length ≤ n ∧ ∀ k (h : k < bs.length), r.get (offset + k) = bs[k] := by
  unfold Holds read?
  by_cases hn : offset + bs.length ≤ n
  · rw [if_pos hn, Option.some.injEq]
    constructor
    · intro h
      refine ⟨hn, ?_⟩
      intro k hk
      have hk' : k < (r.memory.read offset bs.length).length := by rwa [Memory.length_read]
      have hget := Memory.getElem_read r.memory offset bs.length k hk'
      simp only [h] at hget
      exact hget.symm
    · rintro ⟨_, h⟩
      apply List.ext_getElem (Memory.length_read ..)
      intro k hk hb
      rw [Memory.getElem_read]
      exact h k hb
  · rw [if_neg hn]
    simp [hn]

theorem Holds.bound {r : Region n} {offset : Nat} {bs : Bytes} (h : r.Holds offset bs) :
    offset + bs.length ≤ n := (holds_iff.mp h).1

theorem holds_append {r : Region n} {offset : Nat} {as bs : Bytes} :
    r.Holds offset (as ++ bs) ↔ r.Holds offset as ∧ r.Holds (offset + as.length) bs := by
  simp only [holds_iff, List.length_append]
  constructor
  · rintro ⟨hn, h⟩
    refine ⟨⟨by omega, ?_⟩, by omega, ?_⟩
    · intro k hk
      rw [h k (by omega), List.getElem_append_left hk]
    · intro k hk
      rw [Nat.add_assoc, h (as.length + k) (by omega), List.getElem_append_right (by omega)]
      simp
  · rintro ⟨⟨_, ha⟩, hn, hb⟩
    refine ⟨by omega, ?_⟩
    intro k hk
    by_cases hka : k < as.length
    · rw [ha k hka, List.getElem_append_left hka]
    · rw [List.getElem_append_right (by omega), ← hb (k - as.length) (by omega)]
      congr 1
      omega

/-- Two regions that hold the same bytes in a range agree on it. -/
theorem get_eq_of_holds {r s : Region n} {offset i : Nat} {bs : Bytes} (hr : r.Holds offset bs)
    (hs : s.Holds offset bs) (hlow : offset ≤ i) (hhigh : i < offset + bs.length) :
    r.get i = s.get i := by
  have hi : offset + (i - offset) = i := by omega
  have hget := (holds_iff.mp hr).2 (i - offset) (by omega)
  have hget' := (holds_iff.mp hs).2 (i - offset) (by omega)
  rw [hi] at hget hget'
  rw [hget, hget']

/-! ## Reads and the bytes they depend on -/

theorem read?_of_le (r : Region n) {offset width : Nat} (h : offset + width ≤ n) :
    ∃ bs, r.read? offset width = some bs :=
  Option.isSome_iff_exists.mp ((read?_isSome_iff r offset width).mpr h)

theorem little?_of_le (r : Region n) (width : Nat) {offset : Nat} (h : offset + width ≤ n) :
    ∃ k, r.little? width offset = some k := by
  obtain ⟨bs, hbs⟩ := r.read?_of_le h
  exact ⟨Bytes.littleNat bs, by rw [little?, hbs]; rfl⟩

theorem aligned?_of_le (r : Region n) {width offset : Nat} (haligned : offset % width = 0)
    (h : offset + width ≤ n) : ∃ k, r.aligned? width offset = some k := by
  rw [aligned?, if_pos haligned]
  exact r.little?_of_le width h

theorem read_congr {r s : Region n} {offset width : Nat}
    (h : ∀ i, offset ≤ i → i < offset + width → s.get i = r.get i) :
    s.memory.read offset width = r.memory.read offset width := by
  apply List.map_congr_left
  intro i hi
  obtain ⟨hlow, hhigh⟩ := List.mem_range'_1.mp hi
  exact h i hlow hhigh

theorem read?_congr {r s : Region n} {offset width : Nat}
    (h : ∀ i, offset ≤ i → i < offset + width → s.get i = r.get i) :
    s.read? offset width = r.read? offset width := by
  rw [read?, read?, read_congr h]

theorem Holds.congr {r s : Region n} {offset : Nat} {bs : Bytes} (hr : r.Holds offset bs)
    (h : ∀ i, offset ≤ i → i < offset + bs.length → s.get i = r.get i) : s.Holds offset bs := by
  rw [Holds, read?_congr h]
  exact hr

theorem little?_congr {r s : Region n} {width offset : Nat}
    (h : ∀ i, offset ≤ i → i < offset + width → s.get i = r.get i) :
    s.little? width offset = r.little? width offset := by
  rw [little?, little?, read?_congr h]

theorem aligned?_congr {r s : Region n} {width offset : Nat}
    (h : ∀ i, offset ≤ i → i < offset + width → s.get i = r.get i) :
    s.aligned? width offset = r.aligned? width offset := by
  rw [aligned?, aligned?, little?_congr h]

theorem counter?_congr {r s : Region n} {offset : Nat}
    (h : ∀ i, offset ≤ i → i < offset + 4 → s.get i = r.get i) :
    s.counter? offset = r.counter? offset := by
  rw [counter?, counter?, little?_congr h]

theorem Holds.read?_take {r : Region n} {offset count : Nat} {bs : Bytes} (h : r.Holds offset bs)
    (hcount : count ≤ bs.length) : r.read? offset count = some (bs.take count) := by
  have hsplit : r.Holds offset (bs.take count ++ bs.drop count) := by
    rw [List.take_append_drop]
    exact h
  have htaken := (holds_append.mp hsplit).1
  rwa [Holds, List.length_take, Nat.min_eq_left hcount] at htaken

theorem Holds.little? {r : Region n} {offset : Nat} {bs : Bytes} (h : r.Holds offset bs) :
    r.little? bs.length offset = some (Bytes.littleNat bs) := by
  rw [Region.little?, h]
  rfl

theorem Holds.counter? {r : Region n} {offset : Nat} {count : UInt32}
    (h : r.Holds offset (Bytes.littleEndian 4 count.toNat)) : r.counter? offset = some count := by
  have hlittle := h.little?
  rw [Bytes.length_littleEndian, Bytes.littleNat_littleEndian] at hlittle
  have hlt : count.toNat < 256 ^ 4 := count.toNat_lt
  rw [Region.counter?, hlittle, Nat.mod_eq_of_lt hlt]
  simp

theorem counter?_eq_some_iff {r : Region n} {offset : Nat} {count : UInt32} :
    r.counter? offset = some count ↔ r.Holds offset (Bytes.littleEndian 4 count.toNat) := by
  constructor
  · intro h
    obtain ⟨k, hk, rfl⟩ := Option.map_eq_some_iff.mp h
    obtain ⟨bs, hbs, rfl⟩ := Option.map_eq_some_iff.mp hk
    obtain ⟨hlen, hholds⟩ := read?_eq_some_iff.mp hbs
    have hlt : Bytes.littleNat bs < UInt32.size := by
      have hbound := Bytes.littleNat_lt bs
      rwa [hlen] at hbound
    rw [UInt32.toNat_ofNat_of_lt' hlt, ← hlen, Bytes.littleEndian_littleNat]
    exact hholds
  · exact Holds.counter?

theorem le_of_little? {r : Region n} {width offset k : Nat}
    (h : r.little? width offset = some k) : offset + width ≤ n := by
  obtain ⟨bs, hbs, _⟩ := Option.map_eq_some_iff.mp h
  exact (read?_isSome_iff r offset width).mp (by rw [hbs]; rfl)

theorem le_of_counter? {r : Region n} {offset : Nat} {count : UInt32}
    (h : r.counter? offset = some count) : offset + 4 ≤ n := by
  obtain ⟨k, hk, _⟩ := Option.map_eq_some_iff.mp h
  exact le_of_little? hk

theorem le_of_aligned? {r : Region n} {width offset k : Nat}
    (h : r.aligned? width offset = some k) : offset + width ≤ n := by
  unfold aligned? at h
  split at h
  · exact le_of_little? h
  · cases h

/-! ## Writes -/

theorem write?_of_le (r : Region n) (offset : Nat) (data : Bytes)
    (h : offset + data.length ≤ n) : ∃ after, r.write? offset data = some after :=
  Option.isSome_iff_exists.mp ((write?_isSome_iff r offset data).mpr h)

theorem le_of_write? {r after : Region n} {offset : Nat} {data : Bytes}
    (h : r.write? offset data = some after) : offset + data.length ≤ n :=
  (write?_isSome_iff r offset data).mp (by rw [h]; rfl)

theorem write?_eq_none_iff {r : Region n} {offset : Nat} {data : Bytes} :
    r.write? offset data = none ↔ n < offset + data.length := by
  simp [write?]

theorem zero?_of_le (r : Region n) (offset width : Nat) (h : offset + width ≤ n) :
    ∃ after, r.zero? offset width = some after := ⟨_, if_pos h⟩

theorem get_of_zero? {r after : Region n} {offset width : Nat}
    (h : r.zero? offset width = some after) (i : Nat) :
    after.get i = if offset ≤ i ∧ i < offset + width then 0 else r.get i := by
  unfold zero? at h
  split at h
  · obtain rfl := Option.some.inj h
    exact Memory.get_clear ..
  · cases h

/-- What has been written stands there. -/
theorem holds_of_write? {r after : Region n} {offset : Nat} {data : Bytes}
    (h : r.write? offset data = some after) : after.Holds offset data := by
  refine holds_iff.mpr ⟨le_of_write? h, ?_⟩
  intro k hk
  rw [get_of_write? h, dif_pos (by omega)]
  simp

/-- A write changes no byte outside of its range. -/
theorem get_of_write?_of_outside {r after : Region n} {offset i : Nat} {data : Bytes}
    (h : r.write? offset data = some after) (hi : i < offset ∨ offset + data.length ≤ i) :
    after.get i = r.get i := by
  rw [get_of_write? h, dif_neg (by omega)]

end Region

end Columnlet

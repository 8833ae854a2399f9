import Columnlet.Proofs.Index.Bounds
import Columnlet.Proofs.Index.RoundTrip
import Columnlet.Proofs.Region.Window

/-! # Indexes cut short

What a lookup answers is decided by the bytes that it has read, and a read that is cut off ends it.
So an index of which only the first bytes are there answers what all of it would, or that it is
malformed. -/

namespace Columnlet

/-! ## Regions that begin alike -/

theorem Memory.read_isPrefix (m : Memory) (i : Nat) {short long : Nat} (h : short ≤ long) :
    m.read i short <+: m.read i long := by
  obtain ⟨rest, rfl⟩ := Nat.exists_eq_add_of_le h
  rw [read, read, ← List.range'_append_1, List.map_append]
  exact List.prefix_append ..

namespace Region

variable {m n offset width : Nat} {r : Region m} {s : Region n} {bs short : Bytes}

/-- A region shows the first bytes of another one, and no more. -/
structure Begins (r : Region m) (s : Region n) : Prop where
  narrow : m ≤ n
  same : ∀ i, i < m → s.get i = r.get i

/-- A region holds the bytes that it shows. -/
theorem holds_read (s : Region n) (h : offset + width ≤ n) :
    s.Holds offset (s.memory.read offset width) := by
  rw [Holds, Memory.length_read, read?, if_pos h]

theorem begins_of_holds (hinitial : short <+: bs) (hr : r.Holds 0 short) (hs : s.Holds 0 bs)
    (hm : m = short.length) : r.Begins s := by
  have hlen := hinitial.length_le
  have hbound := hs.bound
  refine ⟨by omega, ?_⟩
  intro i hi
  have hshort := (holds_iff.mp hr).2 i (by omega)
  have hlong := (holds_iff.mp hs).2 i (by omega)
  rw [Nat.zero_add] at hshort hlong
  rw [hlong, hshort]
  exact (hinitial.getElem (by omega)).symm

theorem Begins.read?_eq (h : r.Begins s) (hbound : offset + width ≤ m) :
    s.read? offset width = r.read? offset width := by
  have hsame : (s.resize m).memory.read offset width = r.memory.read offset width :=
    read_congr fun i _ hi => h.same i (by omega)
  rw [read?, read?, if_pos hbound, if_pos (Nat.le_trans hbound h.narrow), ← hsame]
  rfl

end Region

namespace Index

variable {m n : Nat} {r : Region m} {s : Region n} {α : Type}

/-! ## Computations that read a trie -/

/-- In a region that is cut short a computation comes to what it comes to in the whole one, or
fails at one of the reads that it makes there, which ends past the shorter region. -/
theorem Reading.run_of_begins (h : r.Begins s) (x : Reading α) :
    x.run r = x.run s ∨
      ∃ a, .access a ∈ x.events s ∧ m < a.stop ∧ x.run r = .error a.error := by
  induction x with
  | done answer => exact .inl rfl
  | note mark rest ih =>
      rcases ih with hsame | ⟨a, ha, hstop, herror⟩
      · exact .inl hsame
      · exact .inr ⟨a, List.mem_cons_of_mem _ ha, hstop, herror⟩
  | read access next ih =>
      rw [run, run, events]
      by_cases hinside : access.stop ≤ m
      · have hread : access.read? s = access.read? r := h.read?_eq hinside
        rw [hread]
        cases access.read? r with
        | none => exact .inl rfl
        | some bs =>
            rcases ih bs with hsame | ⟨a, ha, hstop, herror⟩
            · exact .inl hsame
            · exact .inr ⟨a, List.mem_cons_of_mem _ ha, hstop, herror⟩
      · have hcut := Nat.lt_of_not_le hinside
        rw [Access.read?_eq_none_iff.mpr hcut]
        exact .inr ⟨access, List.mem_cons_self .., hcut, rfl⟩

/-! ## Lookups -/

/-- A window that has room for a root can be used as an index. -/
theorem ofMapping_of_le {mapping : Mapping} (h : minSize ≤ mapping.size) (format : Format) :
    ofMapping mapping format = .ok ⟨mapping, format⟩ := by
  rw [ofMapping, Mapping.require_eq_ok_iff.mpr h]
  rfl

/-- Whatever bytes an index consists of, a lookup in a region that holds only the first of them
answers what it answers in a region that holds them all, or else that the index is malformed, at
the offset of a read of the other lookup that the shorter region cuts off. So what a lookup has
answered without an error it goes on answering when bytes are appended. -/
theorem tryLookup_of_isPrefix {bs short : Bytes} (hinitial : short <+: bs)
    (hroot : minSize ≤ short.length) {whole part : Mapping} {files other : Files}
    (hwhole : whole.size = bs.length) (hbs : (files.view whole).Holds 0 bs)
    (hpart : part.size = short.length) (hshort : (other.view part).Holds 0 short)
    (format : Format) (key : Bytes) :
    ofMapping whole format = .ok ⟨whole, format⟩ ∧ ofMapping part format = .ok ⟨part, format⟩ ∧
      (tryLookup ⟨part, format⟩ other key = tryLookup ⟨whole, format⟩ files key ∨
        ∃ a, .access a ∈ trace ⟨whole, format⟩ files key ∧ part.size < a.stop ∧
          tryLookup ⟨part, format⟩ other key = .error (.malformedIndex a.offset a.cause)) ∧
      ∀ found, tryLookup ⟨part, format⟩ other key = .ok found →
        tryLookup ⟨whole, format⟩ files key = .ok found := by
  have hlen := hinitial.length_le
  have hbegins := Region.begins_of_holds hinitial hshort hbs hpart
  have hrun (index : Index) (files : Files) :
      (Reading.walk index.format key 0 0).run (files.view index.mapping) =
        index.tryLookup files key := Reading.run_walk ..
  have hcases := Reading.run_of_begins hbegins (Reading.walk format key 0 0)
  rw [hrun ⟨part, format⟩, hrun ⟨whole, format⟩] at hcases
  refine ⟨ofMapping_of_le (by omega) format, ofMapping_of_le (by omega) format, hcases, ?_⟩
  intro found hfound
  rcases hcases with hsame | ⟨a, -, -, herror⟩
  · rw [← hsame, hfound]
  · cases hfound.symm.trans herror

/-- A window onto the file of the sample that ends in front of the last node. -/
def sampleNarrow : Mapping := ⟨"index", ["index"], 84⟩

theorem tryLookup_of_isPrefix_sample :
    tryLookup ⟨sampleNarrow, .legacy⟩ samplePublished [7] =
        tryLookup ⟨sampleMapping, .legacy⟩ samplePublished [7] ∧
      tryLookup ⟨sampleMapping, .legacy⟩ samplePublished [7] =
        .ok (some ⟨32, 6, some ⟨2, 0, 64⟩⟩) ∧
      tryLookup ⟨sampleMapping, .legacy⟩ samplePublished [7, 8] =
        .ok (some ⟨64, 3, some ⟨4, 0, 90⟩⟩) ∧
      ∃ a : Access, 84 < a.stop ∧ tryLookup ⟨sampleNarrow, .legacy⟩ samplePublished [7, 8] =
        .error (.malformedIndex a.offset a.cause) := by
  have hwhole : (samplePublished.view sampleMapping).Holds 0
      ((samplePublished.view sampleMapping).memory.read 0 256) :=
    (samplePublished.view sampleMapping).holds_read (by decide)
  have hpart : (samplePublished.view sampleNarrow).Holds 0
      ((samplePublished.view sampleMapping).memory.read 0 84) :=
    (samplePublished.view sampleNarrow).holds_read (by decide)
  have hinitial := (samplePublished.view sampleMapping).memory.read_isPrefix 0
    (show 84 ≤ 256 by decide)
  have hlookup := tryLookup_of_isPrefix hinitial (by rw [Memory.length_read]; decide)
    (Memory.length_read ..).symm hwhole (Memory.length_read ..).symm hpart .legacy
  have hshort : tryLookup ⟨sampleNarrow, .legacy⟩ samplePublished [7] =
      .ok (some ⟨32, 6, some ⟨2, 0, 64⟩⟩) := except_eq_ok_of_toOption (by decide +kernel)
  have hlong : tryLookup ⟨sampleMapping, .legacy⟩ samplePublished [7, 8] =
      .ok (some ⟨64, 3, some ⟨4, 0, 90⟩⟩) := except_eq_ok_of_toOption (by decide +kernel)
  have hcut : (tryLookup ⟨sampleNarrow, .legacy⟩ samplePublished [7, 8]).toOption = none := by
    decide +kernel
  obtain ⟨-, -, -, hkept⟩ := hlookup [7]
  obtain ⟨-, -, hsame | ⟨a, -, hstop, herror⟩, -⟩ := hlookup [7, 8]
  · rw [hsame, hlong] at hcut
    cases hcut
  · exact ⟨hshort.trans (hkept _ hshort).symm, hkept _ hshort, hlong, a, hstop, herror⟩

end Index

end Columnlet

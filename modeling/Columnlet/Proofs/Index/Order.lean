import Columnlet.Index.Builder

/-! # Keys in order

A builder keeps its keys in strictly increasing order. A list in that order is a finite map, and
inserting one key after another leaves for each key what was inserted for it last. -/

namespace Columnlet

/-- The builder of a layout after some insertions, the first of the list first. -/
def IndexBuilder.ofInsertions (format : Format) (insertions : List (Bytes × Slot)) :
    IndexBuilder :=
  insertions.foldl
    (fun b (key, slot) => b.insert key slot.offset slot.length slot.insertedAt) (.empty format)

/-- What was inserted last for a key. -/
def lastInserted? (insertions : List (Bytes × Slot)) (key : Bytes) : Option Slot :=
  insertions.reverse.lookup key

namespace Entries

/-- Every key is less than those behind it. -/
def Sorted (entries : Entries) : Prop := entries.Pairwise fun a b => compare a.1 b.1 = .lt

theorem lookup_cons (entry : Bytes × Slot) (rest : Entries) (key : Bytes) :
    List.lookup key (entry :: rest) = if key = entry.1 then some entry.2 else rest.lookup key := by
  obtain ⟨first, slot⟩ := entry
  rw [List.lookup_cons]
  by_cases h : key = first
  · simp [h]
  · have hbeq : (key == first) = false := by simpa using h
    simp [h, hbeq]

/-! ## Insertion -/

theorem mem_insert {key : Bytes} {slot : Slot} {entries : Entries} {entry : Bytes × Slot}
    (h : entry ∈ entries.insert key slot) : entry = (key, slot) ∨ entry ∈ entries := by
  induction entries with
  | nil => simpa [insert] using h
  | cons first rest ih =>
      simp only [insert] at h
      split at h
      · simpa using h
      · rcases List.mem_cons.mp h with h | h
        · exact .inl h
        · exact .inr (List.mem_cons_of_mem _ h)
      · rcases List.mem_cons.mp h with h | h
        · exact .inr (by simp [h])
        · rcases ih h with h | h
          · exact .inl h
          · exact .inr (List.mem_cons_of_mem _ h)

theorem Sorted.insert {entries : Entries} (h : entries.Sorted) (key : Bytes) (slot : Slot) :
    (entries.insert key slot).Sorted := by
  induction entries with
  | nil => simp [Entries.insert, Sorted]
  | cons first rest ih =>
      obtain ⟨hfirst, hrest⟩ := List.pairwise_cons.mp h
      simp only [Entries.insert]
      split
      · rename_i hlt
        refine List.pairwise_cons.mpr ⟨?_, h⟩
        intro entry he
        rcases List.mem_cons.mp he with rfl | he
        · exact hlt
        · exact Std.TransCmp.lt_trans hlt (hfirst entry he)
      · rename_i heq
        obtain rfl : key = first.1 := Std.LawfulEqCmp.eq_of_compare heq
        exact List.pairwise_cons.mpr ⟨hfirst, hrest⟩
      · rename_i hgt
        refine List.pairwise_cons.mpr ⟨?_, ih hrest⟩
        intro entry he
        rcases mem_insert he with rfl | he
        · exact Std.OrientedCmp.lt_of_gt hgt
        · exact hfirst entry he

/-- Inserting a key changes what is found for that key, and for no other. -/
theorem lookup_insert (key other : Bytes) (slot : Slot) (entries : Entries) :
    (entries.insert key slot).lookup other =
      if other = key then some slot else entries.lookup other := by
  induction entries with
  | nil => simp [insert, lookup_cons]
  | cons first rest ih =>
      simp only [insert]
      split
      · rw [lookup_cons]
      · rename_i heq
        obtain rfl : key = first.1 := Std.LawfulEqCmp.eq_of_compare heq
        by_cases h : other = first.1 <;> simp [lookup_cons, h]
      · rename_i hgt
        have hne : key ≠ first.1 := by
          intro he
          simp [he, Std.ReflCmp.compare_self] at hgt
        by_cases h : other = key
        · subst h
          simp [lookup_cons, hne, ih]
        · simp [lookup_cons, h, ih]

/-- What a builder has collected: its keys in order, each with its last insertion. -/
theorem ofInsertions_spec (format : Format) (insertions : List (Bytes × Slot)) :
    (IndexBuilder.ofInsertions format insertions).format = format ∧
      Sorted (IndexBuilder.ofInsertions format insertions).entries ∧
      ∀ key, (IndexBuilder.ofInsertions format insertions).entries.lookup key =
        lastInserted? insertions key := by
  unfold IndexBuilder.ofInsertions lastInserted?
  rw [← List.foldr_reverse]
  induction insertions.reverse with
  | nil => simp [IndexBuilder.empty, Sorted]
  | cons entry earlier ih =>
      obtain ⟨hformat, hsorted, hlookup⟩ := ih
      refine ⟨hformat, hsorted.insert _ _, ?_⟩
      intro key
      rw [lookup_cons, ← hlookup key]
      exact lookup_insert ..

end Entries

end Columnlet

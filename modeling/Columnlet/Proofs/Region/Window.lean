import Columnlet.Proofs.Region

/-! # Windows and the memory behind them

What a window shows of a memory, a wider one onto the same memory shows as well; and what a window
does not show makes no difference to what is read and written through it. -/

namespace Columnlet.Region

variable {n m offset width k : Nat} {bs : Bytes} {r s : Region n}

/-! ## Other widths -/

/-- The same memory through a window of another width. -/
def resize (r : Region n) (m : Nat) : Region m := ⟨r.memory⟩

@[simp] theorem get_resize (r : Region n) (m i : Nat) : (r.resize m).get i = r.get i := rfl

theorem read?_resize (hn : n ≤ m) (h : r.read? offset width = some bs) :
    (r.resize m).read? offset width = some bs := by
  have hbound : offset + width ≤ n := (read?_isSome_iff r offset width).mp (by rw [h]; rfl)
  rw [read?, if_pos hbound] at h
  rw [read?, if_pos (Nat.le_trans hbound hn)]
  exact h

theorem Holds.resize (hn : n ≤ m) (h : r.Holds offset bs) : (r.resize m).Holds offset bs :=
  read?_resize hn h

theorem little?_resize (hn : n ≤ m) (h : r.little? width offset = some k) :
    (r.resize m).little? width offset = some k := by
  obtain ⟨bs, hbs, rfl⟩ := Option.map_eq_some_iff.mp h
  rw [little?, read?_resize hn hbs, Option.map_some]

theorem aligned?_resize (hn : n ≤ m) (h : r.aligned? width offset = some k) :
    (r.resize m).aligned? width offset = some k := by
  unfold aligned? at h ⊢
  split at h
  · rename_i haligned
    rw [if_pos haligned]
    exact little?_resize hn h
  · cases h

theorem write?_resize (hn : n ≤ m) (h : r.write? offset bs = some s) :
    (r.resize m).write? offset bs = some (s.resize m) := by
  have hbound := le_of_write? h
  rw [write?, if_pos hbound] at h
  rw [write?, if_pos (Nat.le_trans hbound hn), ← Option.some.inj h]
  rfl

/-! ## Other memories -/

/-- Two memories show the same bytes through a window. -/
def Alike (r s : Region n) : Prop := ∀ i, i < n → s.get i = r.get i

theorem Alike.read?_eq (h : r.Alike s) (offset width : Nat) :
    s.read? offset width = r.read? offset width := by
  by_cases hbound : offset + width ≤ n
  · exact read?_congr fun i _ hi => h i (by omega)
  · rw [read?, read?, if_neg hbound, if_neg hbound]

theorem Alike.little?_eq (h : r.Alike s) (width offset : Nat) :
    s.little? width offset = r.little? width offset := by
  rw [little?, little?, h.read?_eq]

theorem Alike.aligned?_eq (h : r.Alike s) (width offset : Nat) :
    s.aligned? width offset = r.aligned? width offset := by
  rw [aligned?, aligned?, h.little?_eq]

/-- What is written through the window either fails in both memories or leaves them alike. -/
theorem Alike.write? (h : r.Alike s) (offset : Nat) (bs : Bytes) :
    (r.write? offset bs = none ∧ s.write? offset bs = none) ∨
      ∃ r' s', r.write? offset bs = some r' ∧ s.write? offset bs = some s' ∧ r'.Alike s' := by
  by_cases hbound : offset + bs.length ≤ n
  · obtain ⟨r', hr⟩ := r.write?_of_le offset bs hbound
    obtain ⟨s', hs⟩ := s.write?_of_le offset bs hbound
    refine .inr ⟨r', s', hr, hs, fun i hi => ?_⟩
    rw [get_of_write? hr, get_of_write? hs, h i hi]
  · rw [Region.write?, Region.write?, if_neg hbound, if_neg hbound]
    exact .inl ⟨rfl, rfl⟩

end Columnlet.Region

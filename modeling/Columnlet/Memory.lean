import Columnlet.Bytes

/-!
Memories: a byte at every address, almost all of them zero. A memory is a binary tree whose root
is the byte at address zero; the odd addresses are in one subtree and the even ones in the other,
both renumbered from zero. What has never been written takes no room. The main statements say what
`set`, `write` and `clear` do to each address.
-/

namespace Columnlet

/-- A byte at every address, almost all of them zero. -/
inductive Memory where
  | blank
  | node (first : UInt8) (odd even : Memory)
  deriving DecidableEq, Repr

namespace Memory

/-- The byte at an address. -/
def get : Memory → Nat → UInt8
  | blank, _ => 0
  | node first odd even, i =>
    if i = 0 then first else if i % 2 = 1 then odd.get (i / 2) else even.get (i / 2 - 1)

@[simp] theorem get_blank (i : Nat) : blank.get i = 0 := rfl

/-! ## Changing bytes -/

/-- The memory with the byte at one address replaced. -/
def set (m : Memory) (i : Nat) (b : UInt8) : Memory :=
  match m with
  | blank =>
    if b = 0 then blank
    else if i = 0 then node b blank blank
    else if i % 2 = 1 then node 0 (blank.set (i / 2) b) blank
    else node 0 blank (blank.set (i / 2 - 1) b)
  | node first odd even =>
    if i = 0 then node b odd even
    else if i % 2 = 1 then node first (odd.set (i / 2) b) even
    else node first odd (even.set (i / 2 - 1) b)
termination_by i

theorem get_set (m : Memory) (i j : Nat) (b : UInt8) :
    (m.set i b).get j = if j = i then b else m.get j := by
  have odds {i j : Nat} (hi : i % 2 = 1) (hj : j % 2 = 1) : j / 2 = i / 2 ↔ j = i := by omega
  have evens {i j : Nat} (hi : ¬i % 2 = 1) (hj : ¬j % 2 = 1) (i0 : i ≠ 0) (j0 : j ≠ 0) :
      j / 2 - 1 = i / 2 - 1 ↔ j = i := by omega
  fun_induction set m i b generalizing j with
  | case1 => simp_all
  | case2 | case5 => simp only [get]; split <;> simp_all
  | case3 i _ i0 i1 ih | case6 i _ _ _ i0 i1 ih =>
    simp only [get, ih]
    by_cases j0 : j = 0
    · simp [j0, Ne.symm i0]
    · by_cases j1 : j % 2 = 1
      · simp [j0, j1, odds i1 j1]
      · have other : j ≠ i := by omega
        simp [j0, j1, other]
  | case4 i _ i0 i1 ih | case7 i _ _ _ i0 i1 ih =>
    simp only [get, ih]
    by_cases j0 : j = 0
    · simp [j0, Ne.symm i0]
    · by_cases j1 : j % 2 = 1
      · have other : j ≠ i := by omega
        simp [j0, j1, other]
      · simp [j0, j1, evens i1 j1 i0 j0]

/-- The memory with the bytes from an address on replaced by given ones. -/
def write (m : Memory) (i : Nat) : Bytes → Memory
  | [] => m
  | b :: bs => (m.set i b).write (i + 1) bs

theorem get_write (m : Memory) (i j : Nat) (bs : Bytes) :
    (m.write i bs).get j = if h : i ≤ j ∧ j < i + bs.length then bs[j - i] else m.get j := by
  induction bs generalizing m i with
  | nil => simp only [write, List.length_nil]; rw [dif_neg (by omega)]
  | cons b bs ih =>
    rw [write, ih, get_set]
    by_cases before : j < i
    · rw [dif_neg (by omega), dif_neg (by omega), if_neg (by omega)]
    · by_cases here : j = i
      · subst here
        rw [dif_neg (by omega), dif_pos (by simp only [List.length_cons]; omega)]
        simp
      · by_cases inside : j < i + 1 + bs.length
        · have hj : j - i = (j - (i + 1)) + 1 := by omega
          rw [dif_pos (by omega), dif_pos (by simp only [List.length_cons]; omega)]
          simp [hj]
        · rw [dif_neg (by omega), dif_neg (by simp only [List.length_cons]; omega), if_neg here]

/-- The memory with zeros from one address up to another. -/
def clear : Memory → (start stop : Nat) → Memory
  | blank, _, _ => blank
  | node b odd even, start, stop =>
    if stop ≤ start then node b odd even
    else
      node (if start = 0 then 0 else b) (odd.clear (start / 2) (stop / 2))
        (even.clear ((start - 1) / 2) ((stop - 1) / 2))

theorem get_clear (m : Memory) (start stop i : Nat) :
    (m.clear start stop).get i = if start ≤ i ∧ i < stop then 0 else m.get i := by
  induction m generalizing start stop i with
  | blank => simp [clear]
  | node b odd even hodd heven =>
    simp only [clear]
    split
    · rw [if_neg (by omega)]
    · simp only [get, hodd, heven]
      by_cases i0 : i = 0
      · subst i0
        by_cases s0 : start = 0
        · simp [s0]
          omega
        · simp [s0]
      · by_cases i1 : i % 2 = 1
        · have same : (start / 2 ≤ i / 2 ∧ i / 2 < stop / 2) ↔ (start ≤ i ∧ i < stop) := by omega
          simp only [i0, i1, if_false, if_true, same]
        · have same : ((start - 1) / 2 ≤ i / 2 - 1 ∧ i / 2 - 1 < (stop - 1) / 2) ↔
              (start ≤ i ∧ i < stop) := by omega
          simp only [i0, i1, if_false, same]

/-! ## Byte strings -/

/-- The bytes at consecutive addresses. -/
def read (m : Memory) (i width : Nat) : Bytes := (List.range' i width).map m.get

@[simp] theorem length_read (m : Memory) (i width : Nat) : (m.read i width).length = width := by
  simp [read]

theorem getElem_read (m : Memory) (i width k : Nat) (h : k < (m.read i width).length) :
    (m.read i width)[k] = m.get (i + k) := by
  simp [read]

/-- A memory that begins with given bytes. -/
def ofBytes (bs : Bytes) : Memory := blank.write 0 bs

theorem read_ofBytes (bs : Bytes) : (ofBytes bs).read 0 bs.length = bs := by
  refine List.ext_getElem (length_read ..) fun k hk hb => ?_
  rw [getElem_read, ofBytes, get_write, dif_pos (by omega)]
  simp

end Memory

end Columnlet

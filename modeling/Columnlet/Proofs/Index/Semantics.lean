import Columnlet.Proofs.Attempt
import Columnlet.Proofs.Bytes.Order
import Columnlet.Proofs.Index.Order

/-! # What a trie stores

The value of a key in a trie, found without any bytes, and the proof that the trie of some entries
stores what the entries do. -/

namespace Columnlet

/-! ## Finding a key -/

/-- The value at a node: of the key that is its edge, or of one that goes on below it. -/
def follow {α : Type} (edge : Bytes) (value : Option α) (below : Bytes → Option α) (key : Bytes) :
    Option α :=
  if edge.isPrefixOf key then
    match key.drop edge.length with
    | [] => value
    | byte :: rest => below (byte :: rest)
  else none

/-- What the nodes of a forest store for a key. -/
def Forest.find? : Forest → Bytes → Option Slot
  | nil, _ => none
  | cons _ _ _ _ _, [] => none
  | cons branch edge value children siblings, byte :: key =>
    if branch = byte then follow edge value children.find? key else siblings.find? (byte :: key)

/-- What a trie stores for a key. -/
def Trie.find? (t : Trie) (key : Bytes) : Option Slot := follow t.edge t.value t.children.find? key

/-- Edges and numbers of children that a header can tell, in every node. -/
def Forest.Fits : Forest → Prop
  | nil => True
  | cons _ edge _ children siblings =>
    edge.length ≤ NodeHeader.maxEdge ∧ children.width ≤ NodeHeader.maxChildren ∧
      children.Fits ∧ siblings.Fits

/-- Edges and numbers of children that a header can tell, in the root and below it. -/
structure Trie.Fits (t : Trie) : Prop where
  edge : t.edge.length ≤ NodeHeader.maxEdge
  width : t.children.width ≤ NodeHeader.maxChildren
  children : t.children.Fits

theorem follow_append {α : Type} (edge : Bytes) (value : Option α) (below : Bytes → Option α)
    (rest : Bytes) :
    follow edge value below (edge ++ rest) = if rest = [] then value else below rest := by
  have h : edge.isPrefixOf (edge ++ rest) = true := by simp
  cases rest <;> simp [follow, h]

theorem follow_of_not_isPrefix {α : Type} {edge : Bytes} (value : Option α)
    (below : Bytes → Option α) {key : Bytes} (h : ¬ edge <+: key) :
    follow edge value below key = none := by
  simp [follow, h]

namespace Entries

/-! ## Shared beginnings -/

theorem compare_append_left (front a b : Bytes) :
    compare (front ++ a) (front ++ b) = compare a b := by
  have hfront : compare front front = .eq := Std.ReflCmp.compare_self
  rw [Bytes.compare_append rfl, hfront, Ordering.eq_then]

/-- A key between two keys that begin alike begins so too. -/
theorem prefix_of_between {front a b key : Bytes} (low : (compare (front ++ a) key).isLE)
    (high : (compare key (front ++ b)).isLE) : front <+: key := by
  induction front generalizing key with
  | nil => exact List.nil_prefix
  | cons x front ih =>
      cases key with
      | nil => simp at low
      | cons y key =>
          rw [List.cons_append, List.compare_cons_cons, Ordering.isLE_then_iff_and] at low high
          obtain rfl : x = y :=
            Std.LawfulEqCmp.eq_of_compare (Std.OrientedCmp.isLE_antisymm low.1 high.1)
          have hx : compare x x = .eq := Std.ReflCmp.compare_self
          obtain ⟨rest, rfl⟩ := ih (by simpa [hx] using low.2) (by simpa [hx] using high.2)
          exact ⟨rest, rfl⟩

theorem commonPrefix_isPrefix (a b : Bytes) :
    commonPrefix a b <+: a ∧ commonPrefix a b <+: b := by
  induction a generalizing b with
  | nil => simp [commonPrefix]
  | cons x a ih =>
      cases b with
      | nil => simp [commonPrefix]
      | cons y b =>
          by_cases h : x = y
          · subst h
            simpa [commonPrefix] using ih b
          · simp [commonPrefix, h]

theorem length_edge_le (entries : Entries) : entries.edge.length ≤ NodeHeader.maxEdge := by
  unfold edge
  split
  · exact List.length_take_le ..
  · exact Nat.zero_le _

/-- The edge of the node for some entries is a beginning of all their keys. -/
theorem Sorted.edge_isPrefix {entries : Entries} (h : entries.Sorted) :
    ∀ entry ∈ entries, entries.edge <+: entry.1 := by
  intro entry he
  cases entries with
  | nil => simp at he
  | cons first rest =>
      obtain ⟨front, last, hlast⟩ : ∃ front last, first :: rest = front ++ [last] :=
        ⟨_, _, (List.dropLast_concat_getLast (by simp)).symm⟩
      have hgetLast : (first :: rest).getLast? = some last := by simp [hlast]
      have hedge : edge (first :: rest) =
          (commonPrefix first.1 last.1).take NodeHeader.maxEdge := by
        rw [edge, List.head?_cons, hgetLast]
      have hshared : edge (first :: rest) <+: commonPrefix first.1 last.1 := by
        rw [hedge]
        exact List.take_prefix ..
      obtain ⟨a, ha⟩ := hshared.trans (commonPrefix_isPrefix first.1 last.1).1
      obtain ⟨b, hb⟩ := hshared.trans (commonPrefix_isPrefix first.1 last.1).2
      have low : (compare first.1 entry.1).isLE := by
        rcases List.mem_cons.mp he with rfl | he
        · simp [Std.ReflCmp.compare_self]
        · simp [(List.pairwise_cons.mp h).1 entry he]
      have high : (compare entry.1 last.1).isLE := by
        rw [Sorted, hlast] at h
        rw [hlast] at he
        rcases List.mem_append.mp he with he | he
        · simp [(List.pairwise_append.mp h).2.2 entry he last (by simp)]
        · simp [List.mem_singleton.mp he, Std.ReflCmp.compare_self]
      exact prefix_of_between (ha ▸ low) (hb ▸ high)

/-! ## Taking bytes off -/

theorem lookup_strip {front : Bytes} {entries : Entries}
    (h : ∀ entry ∈ entries, front <+: entry.1) (key : Bytes) :
    (entries.strip front.length).lookup key = entries.lookup (front ++ key) := by
  induction entries with
  | nil => rfl
  | cons entry rest ih =>
      obtain ⟨tail, htail⟩ := h entry (by simp)
      have hrest := ih fun e he => h e (List.mem_cons_of_mem _ he)
      have hcons : strip front.length (entry :: rest) =
          (tail, entry.2) :: strip front.length rest := by
        simp [strip, ← htail]
      rw [hcons, lookup_cons, lookup_cons, hrest, ← htail]
      simp

theorem Sorted.strip {front : Bytes} {entries : Entries} (h : entries.Sorted)
    (hfront : ∀ entry ∈ entries, front <+: entry.1) : (entries.strip front.length).Sorted := by
  refine List.pairwise_map.mpr (h.imp_of_mem ?_)
  intro a b ha hb hab
  obtain ⟨x, hx⟩ := hfront a ha
  obtain ⟨y, hy⟩ := hfront b hb
  rw [← hx, ← hy, compare_append_left] at hab
  simpa [← hx, ← hy] using hab

theorem ne_nil_of_lt {a b : Bytes} (h : compare a b = .lt) : b ≠ [] := by
  rintro rfl
  cases a <;> simp at h

/-- What a node for some entries stores, and the entries that go on below it. -/
def division (entries : Entries) : Option Slot × Entries :=
  (entries.strip entries.edge.length).splitValue

theorem splitValue_spec {entries : Entries} (h : entries.Sorted) :
    entries.splitValue.2.Sorted ∧ (∀ entry ∈ entries.splitValue.2, entry.1 ≠ []) ∧
      ∀ key, entries.lookup key =
        if key = [] then entries.splitValue.1 else entries.splitValue.2.lookup key := by
  unfold splitValue
  split
  · rename_i slot rest
    obtain ⟨hfirst, hrest⟩ := List.pairwise_cons.mp h
    refine ⟨hrest, fun entry he => ne_nil_of_lt (hfirst entry he), ?_⟩
    intro key
    rw [lookup_cons]
  · rename_i hne
    have hfull : ∀ entry ∈ entries, entry.1 ≠ [] := by
      intro entry he
      cases entries with
      | nil => simp at he
      | cons first rest =>
          rcases List.mem_cons.mp he with rfl | he
          · rintro hnil
            exact hne entry.2 rest (by rw [← hnil])
          · exact ne_nil_of_lt ((List.pairwise_cons.mp h).1 entry he)
    refine ⟨h, hfull, ?_⟩
    intro key
    by_cases hkey : key = []
    · subst hkey
      rw [if_pos rfl, List.lookup_eq_none_iff]
      intro entry he
      simpa using (hfull entry he).symm
    · rw [if_neg hkey]

/-- Dividing entries at their edge keeps what each key stands for. -/
theorem division_spec {entries : Entries} (h : entries.Sorted) :
    entries.division.2.Sorted ∧ (∀ entry ∈ entries.division.2, entry.1 ≠ []) ∧
      ∀ key, entries.lookup key =
        follow entries.edge entries.division.1 (fun rest => entries.division.2.lookup rest)
          key := by
  have hedge := h.edge_isPrefix
  obtain ⟨hsorted, hfull, hlookup⟩ := splitValue_spec (h.strip hedge)
  refine ⟨hsorted, hfull, ?_⟩
  intro key
  by_cases hkey : entries.edge <+: key
  · obtain ⟨rest, rfl⟩ := hkey
    rw [follow_append, ← lookup_strip hedge]
    exact hlookup rest
  · rw [follow_of_not_isPrefix _ _ hkey, List.lookup_eq_none_iff]
    intro entry he
    have hne : key ≠ entry.1 := by
      rintro rfl
      exact hkey (hedge entry he)
    simpa using hne

/-! ## Dividing by the next byte -/

/-- The entries that go on with the first byte of the first of them, without that byte. -/
def run (branch : UInt8) (key : Bytes) (slot : Slot) (rest : Entries) : Entries :=
  (key, slot) :: strip 1 (rest.takeWhile (startsWith branch))

theorem startsWith_iff (branch : UInt8) (entry : Bytes × Slot) :
    startsWith branch entry = true ↔ [branch] <+: entry.1 := by
  obtain ⟨key, slot⟩ := entry
  cases key with
  | nil => simp [startsWith]
  | cons x key => simp [startsWith, eq_comm]

theorem head_isLE_of_lt {a b : UInt8} {x y : Bytes} (h : compare (a :: x) (b :: y) = .lt) :
    (compare a b).isLE := by
  rw [List.compare_cons_cons, Ordering.then_eq_lt] at h
  rcases h with h | h <;> simp [h]

/-- In order, the keys behind the last that goes on with a byte go on with greater ones. -/
theorem not_startsWith_of_mem_dropWhile {branch : UInt8} {key : Bytes} {slot : Slot}
    {rest : Entries} (h : Sorted ((branch :: key, slot) :: rest)) :
    ∀ entry ∈ rest.dropWhile (startsWith branch), startsWith branch entry = false := by
  induction rest with
  | nil => simp
  | cons first rest ih =>
      obtain ⟨hlt, hrest⟩ := List.pairwise_cons.mp h
      by_cases hstart : startsWith branch first
      · rw [List.dropWhile_cons_of_pos hstart]
        exact ih (List.pairwise_cons.mpr
          ⟨fun e he => hlt e (List.mem_cons_of_mem _ he), hrest.tail⟩)
      · rw [List.dropWhile_cons_of_neg hstart]
        intro entry he
        rcases List.mem_cons.mp he with rfl | he
        · simpa using hstart
        · have hfirst := hlt first (by simp)
          have hentry := (List.pairwise_cons.mp hrest).1 entry he
          cases hf : first.1 with
          | nil => exact absurd hf (ne_nil_of_lt hfirst)
          | cons b x =>
              cases hx : entry.1 with
              | nil => exact absurd hx (ne_nil_of_lt hentry)
              | cons c y =>
                  rw [hf] at hfirst hentry
                  rw [hx] at hentry
                  have hne : branch ≠ b := by
                    rintro rfl
                    simp [startsWith, hf] at hstart
                  simp only [startsWith, hx, List.head?_cons, Option.some.injEq,
                    decide_eq_false_iff_not]
                  rintro rfl
                  exact hne (Std.LawfulEqCmp.eq_of_compare
                    (Std.OrientedCmp.isLE_antisymm (head_isLE_of_lt hfirst)
                      (head_isLE_of_lt hentry)))

theorem prefix_of_mem_takeWhile (branch : UInt8) (rest : Entries) :
    ∀ entry ∈ rest.takeWhile (startsWith branch), [branch] <+: entry.1 := by
  intro entry he
  have h := List.all_eq_true.mp (List.all_takeWhile (p := startsWith branch) (l := rest)) entry he
  exact (startsWith_iff branch entry).mp h

/-- The entries of a run with their common byte are entries in order, each with that byte. -/
theorem run_spec {branch : UInt8} {key : Bytes} {slot : Slot} {rest : Entries}
    (h : Sorted ((branch :: key, slot) :: rest)) :
    (run branch key slot rest).Sorted ∧
      ∀ byte tail, List.lookup (byte :: tail) ((branch :: key, slot) :: rest) =
        if branch = byte then (run branch key slot rest).lookup tail
        else List.lookup (byte :: tail) (rest.dropWhile (startsWith branch)) := by
  have hwhole : run branch key slot rest =
      strip [branch].length ((branch :: key, slot) :: rest.takeWhile (startsWith branch)) := rfl
  have hfront : ∀ entry ∈ (branch :: key, slot) :: rest.takeWhile (startsWith branch),
      [branch] <+: entry.1 := by
    intro entry he
    rcases List.mem_cons.mp he with rfl | he
    · simp
    · exact prefix_of_mem_takeWhile branch rest entry he
  have hsorted : Sorted ((branch :: key, slot) :: rest.takeWhile (startsWith branch)) :=
    h.sublist ((List.takeWhile_sublist _).cons_cons _)
  refine ⟨hwhole ▸ hsorted.strip hfront, ?_⟩
  intro byte tail
  have hsplit : List.lookup (byte :: tail) ((branch :: key, slot) :: rest) =
      (List.lookup (byte :: tail)
          ((branch :: key, slot) :: rest.takeWhile (startsWith branch))).or
        (List.lookup (byte :: tail) (rest.dropWhile (startsWith branch))) := by
    rw [← List.lookup_append, List.cons_append, List.takeWhile_append_dropWhile]
  by_cases hb : branch = byte
  · subst hb
    have hnone : List.lookup (branch :: tail) (rest.dropWhile (startsWith branch)) = none := by
      rw [List.lookup_eq_none_iff]
      intro entry he
      have hnot := not_startsWith_of_mem_dropWhile h entry he
      have hne : branch :: tail ≠ entry.1 := by
        intro heq
        simp [startsWith, ← heq] at hnot
      simpa using hne
    rw [if_pos rfl, hsplit, hnone, Option.or_none, hwhole, lookup_strip hfront]
    rfl
  · have hnone : List.lookup (byte :: tail)
        ((branch :: key, slot) :: rest.takeWhile (startsWith branch)) = none := by
      rw [List.lookup_eq_none_iff]
      intro entry he
      have hne : byte :: tail ≠ entry.1 := by
        intro heq
        have hpre := hfront entry he
        simp [← heq, hb] at hpre
      simpa using hne
    rw [if_neg hb, hsplit, hnone, Option.none_or]

/-- Entries are divided by their first bytes, and then at the edge of each run. -/
theorem divide_induction {motive : Entries → Prop} (nil : motive [])
    (skip : ∀ slot rest, motive rest → motive (([], slot) :: rest))
    (run : ∀ branch key slot rest, motive (run branch key slot rest).division.2 →
      motive (rest.dropWhile (startsWith branch)) → motive ((branch :: key, slot) :: rest))
    (entries : Entries) : motive entries :=
  Forest.ofEntries.induct (fun _ entries => motive entries) (fun _ => nil)
    (fun _ slot rest ih => skip slot rest ih)
    (fun _ branch key slot rest ihc ihs => run branch key slot rest ihc ihs) 0 entries

end Entries

/-! ## Tries of entries -/

theorem Forest.width_le_of_checkWidth {depth : Nat} {children : Forest} {u : Unit}
    (h : children.checkWidth depth = .ok u) : children.width ≤ NodeHeader.maxChildren := by
  unfold checkWidth at h
  split at h
  · cases h
  · omega

/-- What the forest of some entries consists of, if the first of them has a key that goes on. -/
theorem Forest.ofEntries_cons_eq_ok {depth : Nat} {branch : UInt8} {key : Bytes} {slot : Slot}
    {rest : Entries} {forest : Forest}
    (h : Forest.ofEntries depth ((branch :: key, slot) :: rest) = .ok forest) :
    ∃ children siblings,
      Forest.ofEntries (depth + 1 + (Entries.run branch key slot rest).edge.length)
          (Entries.run branch key slot rest).division.2 = .ok children ∧
      children.width ≤ NodeHeader.maxChildren ∧
      Forest.ofEntries depth (rest.dropWhile (Entries.startsWith branch)) = .ok siblings ∧
      forest = .cons branch (Entries.run branch key slot rest).edge
        (Entries.run branch key slot rest).division.1 children siblings := by
  rw [Forest.ofEntries] at h
  obtain ⟨children, hchildren, h⟩ := except_bind_eq_ok_iff.mp h
  obtain ⟨_, hwidth, h⟩ := except_bind_eq_ok_iff.mp h
  obtain ⟨siblings, hsiblings, h⟩ := except_bind_eq_ok_iff.mp h
  exact ⟨children, siblings, hchildren, width_le_of_checkWidth hwidth, hsiblings,
    (Except.ok.inj h).symm⟩

/-- The forest of entries in order stores what the entries do. -/
theorem Forest.find?_ofEntries {depth : Nat} {entries : Entries} {forest : Forest}
    (h : Forest.ofEntries depth entries = .ok forest) (hsorted : entries.Sorted)
    (hfull : ∀ entry ∈ entries, entry.1 ≠ []) (key : Bytes) :
    forest.find? key = entries.lookup key := by
  induction entries using Entries.divide_induction generalizing depth forest key with
  | nil =>
      rw [Forest.ofEntries] at h
      cases h
      cases key <;> rfl
  | skip slot rest ih => exact absurd rfl (hfull ([], slot) (by simp))
  | run branch first slot rest ihc ihs =>
      obtain ⟨children, siblings, hchildren, _, hsiblings, rfl⟩ :=
        Forest.ofEntries_cons_eq_ok h
      obtain ⟨hrun, hlookup⟩ := Entries.run_spec hsorted
      obtain ⟨hbelow, hbelowFull, hdivide⟩ := Entries.division_spec hrun
      have hlater : (rest.dropWhile (Entries.startsWith branch)).Sublist
          ((branch :: first, slot) :: rest) := (List.dropWhile_sublist _).cons _
      have hc : children.find? = fun tail =>
          (Entries.run branch first slot rest).division.2.lookup tail :=
        funext fun tail => ihc hchildren hbelow hbelowFull tail
      have hs := ihs hsiblings (hsorted.sublist hlater)
        fun entry he => hfull entry (hlater.subset he)
      cases key with
      | nil =>
          symm
          rw [Forest.find?, List.lookup_eq_none_iff]
          intro entry he
          simpa using (hfull entry he).symm
      | cons byte tail => rw [Forest.find?, hc, ← hdivide, hs, hlookup]

theorem Forest.fits_ofEntries {depth : Nat} {entries : Entries} {forest : Forest}
    (h : Forest.ofEntries depth entries = .ok forest) : forest.Fits := by
  induction entries using Entries.divide_induction generalizing depth forest with
  | nil =>
      rw [Forest.ofEntries] at h
      cases h
      trivial
  | skip slot rest ih =>
      rw [Forest.ofEntries] at h
      exact ih h
  | run branch first slot rest ihc ihs =>
      obtain ⟨children, siblings, hchildren, hwidth, hsiblings, rfl⟩ :=
        Forest.ofEntries_cons_eq_ok h
      exact ⟨Entries.length_edge_le _, hwidth, ihc hchildren, ihs hsiblings⟩

/-- The trie of entries in order can be written in headers, and stores what the entries do. -/
theorem Trie.ofEntries_spec {entries : Entries} {t : Trie} (h : Trie.ofEntries entries = .ok t)
    (hsorted : entries.Sorted) : t.Fits ∧ ∀ key, t.find? key = entries.lookup key := by
  obtain ⟨children, hchildren, h⟩ := except_bind_eq_ok_iff.mp h
  obtain ⟨_, hwidth, h⟩ := except_bind_eq_ok_iff.mp h
  cases Except.ok.inj h
  obtain ⟨hbelow, hbelowFull, hdivide⟩ := Entries.division_spec hsorted
  refine ⟨⟨Entries.length_edge_le _, Forest.width_le_of_checkWidth hwidth,
    Forest.fits_ofEntries hchildren⟩, ?_⟩
  · intro key
    have hc : children.find? = fun tail => entries.division.2.lookup tail :=
      funext fun tail => Forest.find?_ofEntries hchildren hbelow hbelowFull tail
    rw [hdivide key, ← hc]
    rfl

end Columnlet

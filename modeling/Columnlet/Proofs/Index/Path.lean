import Columnlet.Proofs.Index.Walk

/-! # Paths through a trie

Which locator a region has for a key, said by what stands where and not by a walk: a path goes from
node to node, each time to the child of the first slot that carries the next byte of the key, and
the edges and the branch bytes on it spell the key. A lookup answers a locator if and only if a path
leads to it, whatever the region holds. -/

namespace Columnlet

/-- The bytes of a value slot from which a locator is made. -/
def Locator.bytes (l : Locator) : Bytes :=
  match l.legacy with
  | none => Bytes.bigEndian 8 l.offset.toNat ++ Bytes.bigEndian 4 l.length.toNat
  | some slot =>
    Bytes.bigEndian 8 l.offset.toNat ++ Bytes.bigEndian 8 slot.insertedAt.toNat ++
      Bytes.bigEndian 4 l.length.toNat ++ Bytes.littleEndian 4 slot.accessCount.toNat

theorem ChildSlot.toNat_ofNat {k : Nat} (h : k < 256 ^ width) : (ofNat k).toNat = k := by
  have hoffset : ((ofNat k).offset : Nat) = k % 0x100000000000000 := rfl
  have hbranch : (ofNat k).branch.toNat = k / 0x100000000000000 % 256 := UInt8.toNat_ofNat'
  rw [width] at h
  rw [toNat, hoffset, hbranch]
  omega

namespace Index

variable {n : Nat}

/-! ## The parts of a node -/

/-- The header of a node stands at an offset of the trie. -/
def HeaderAt (r : Region n) (node : Nat) (h : NodeHeader) : Prop :=
  r.Holds (headerSize + node) (Bytes.bigEndian NodeHeader.width h.toNat)

/-- A child slot stands at an offset of the trie. -/
def SlotAt (r : Region n) (offset : Nat) (slot : ChildSlot) : Prop :=
  r.Holds (headerSize + offset) (Bytes.bigEndian ChildSlot.width slot.toNat)

/-- Of some slots, one after another from an offset on, the first that carries a byte leads to a
child. -/
def FirstSlot (r : Region n) (offset count : Nat) (branch : UInt8) (child : Nat) : Prop :=
  ∃ i < count,
    (∃ slot, SlotAt r (offset + ChildSlot.width * i) slot ∧ slot.branch = branch ∧
      slot.offset = child) ∧
    ∀ j < i, ∃ other, SlotAt r (offset + ChildSlot.width * j) other ∧ other.branch ≠ branch

/-- Where the edge of a node begins. -/
def edgeStart (node : Nat) (h : NodeHeader) : Nat :=
  node + NodeHeader.width + ChildSlot.width * h.children

/-- The edge of a node. An edge without bytes takes no room, also behind the end of the region. -/
structure EdgeAt (r : Region n) (node : Nat) (h : NodeHeader) (edge : Bytes) : Prop where
  length : edge.length = h.edgeLength
  held : edge ≠ [] → r.Holds (headerSize + edgeStart node h) edge

/-- The value slot at an offset of the trie has the bytes of a locator, which tells where its
accesses are counted if the layout counts them there. -/
structure ValueAt (format : Format) (r : Region n) (slot : Nat) (l : Locator) : Prop where
  held : r.Holds (headerSize + slot) l.bytes
  counter : match format with
    | .current => l.legacy = none
    | .legacy => ∃ stored, l.legacy = some stored ∧ stored.counterAt = slot + Slot.counterField

/-- A path from a node through given nodes that spells a key, to the locator of the last of them. -/
inductive Leads (format : Format) (r : Region n) : Nat → Bytes → List Nat → Locator → Prop
  | here {node : Nat} {h : NodeHeader} {edge : Bytes} {l : Locator} (header : HeaderAt r node h)
      (spelled : EdgeAt r node h edge) (flag : h.hasValue = true)
      (value : ValueAt format r (edgeStart node h + h.edgeLength) l) :
      Leads format r node edge [node] l
  | down {node child : Nat} {h : NodeHeader} {edge rest : Bytes} {branch : UInt8}
      {nodes : List Nat} {l : Locator} (header : HeaderAt r node h)
      (spelled : EdgeAt r node h edge)
      (first : FirstSlot r (node + NodeHeader.width) h.children branch child)
      (below : Leads format r child rest nodes l) :
      Leads format r node (edge ++ branch :: rest) (node :: nodes) l

/-! ## Reading the parts -/

theorem read_eq_ok_iff {r : Region n} {offset width : Nat} {bs : Bytes} :
    read r offset width = .ok bs ↔ bs.length = width ∧ r.Holds (headerSize + offset) bs := by
  rw [← Region.read?_eq_some_iff, read]
  cases r.read? (headerSize + offset) width <;> simp

theorem number_eq_ok_iff {r : Region n} {width offset k : Nat} :
    number r width offset = .ok k ↔
      k < 256 ^ width ∧ r.Holds (headerSize + offset) (Bytes.bigEndian width k) := by
  constructor
  · intro h
    obtain ⟨bs, hread, rfl⟩ := except_map_eq_ok_iff.mp h
    obtain ⟨rfl, hholds⟩ := read_eq_ok_iff.mp hread
    rw [Bytes.bigEndian_bigNat]
    exact ⟨Bytes.bigNat_lt bs, hholds⟩
  · rintro ⟨hlt, hholds⟩
    exact number_of_holds hlt hholds

theorem header_eq_ok_iff {r : Region n} {node : Nat} {h : NodeHeader} :
    header r node = .ok h ↔ HeaderAt r node h := by
  constructor
  · intro hread
    obtain ⟨k, hnumber, rfl⟩ := except_map_eq_ok_iff.mp hread
    obtain ⟨hlt, hholds⟩ := number_eq_ok_iff.mp hnumber
    rw [HeaderAt, NodeHeader.toNat_ofNat hlt]
    exact hholds
  · intro hheld
    rw [header, number_of_holds h.toNat_lt hheld]
    simp only [Except.map, NodeHeader.ofNat_toNat]

theorem edgeMatches_eq_true_iff {r : Region n} {offset length : Nat} {key : Bytes} :
    edgeMatches r offset length key = .ok true ↔
      ∃ edge rest, key = edge ++ rest ∧ edge.length = length ∧
        (edge ≠ [] → r.Holds (headerSize + offset) edge) := by
  constructor
  · intro h
    unfold edgeMatches at h
    split at h
    · cases h
    · rename_i hlong
      split at h
      · rename_i hzero
        exact ⟨[], key, rfl, hzero.symm, fun hne => absurd rfl hne⟩
      · obtain ⟨edge, hread, hsame⟩ := except_map_eq_ok_iff.mp h
        obtain ⟨hlen, hholds⟩ := read_eq_ok_iff.mp hread
        refine ⟨edge, key.drop length, ?_, hlen, fun _ => hholds⟩
        rw [eq_of_beq hsame, List.take_append_drop]
  · rintro ⟨edge, rest, rfl, rfl, hheld⟩
    cases edge with
    | nil => simp [edgeMatches]
    | cons byte edge =>
        rw [edgeMatches_of_holds (hheld (by simp)), List.isPrefixOf_iff_prefix.mpr]
        exact List.prefix_append ..

theorem slotAt_ofNat {r : Region n} {offset k : Nat}
    (h : number r ChildSlot.width offset = .ok k) : SlotAt r offset (ChildSlot.ofNat k) := by
  obtain ⟨hlt, hholds⟩ := number_eq_ok_iff.mp h
  rw [SlotAt, ChildSlot.toNat_ofNat hlt]
  exact hholds

theorem findChild_of_slotAt {r : Region n} {offset : Nat} {slot : ChildSlot}
    (h : SlotAt r offset slot) (count : Nat) (byte : UInt8) :
    findChild r offset (count + 1) byte =
      if slot.branch = byte then .ok (some (slot.offset : Nat))
      else findChild r (offset + ChildSlot.width) count byte :=
  findChild_succ (number_of_holds slot.toNat_lt h) (ChildSlot.ofNat_toNat slot) count byte

theorem firstSlot_succ_iff {r : Region n} {offset count child : Nat} {branch : UInt8} :
    FirstSlot r offset (count + 1) branch child ↔
      ∃ slot, SlotAt r offset slot ∧ (slot.branch = branch ∧ slot.offset = child ∨
        slot.branch ≠ branch ∧
          FirstSlot r (offset + ChildSlot.width) count branch child) := by
  have hshift (i : Nat) : offset + ChildSlot.width + ChildSlot.width * i =
      offset + ChildSlot.width * (i + 1) := by
    rw [Nat.mul_succ]
    omega
  constructor
  · rintro ⟨i, hi, ⟨slot, hslot, hbranch, hchild⟩, hbefore⟩
    cases i with
    | zero => exact ⟨slot, hslot, .inl ⟨hbranch, hchild⟩⟩
    | succ i =>
        obtain ⟨other, hother, hne⟩ := hbefore 0 (Nat.succ_pos i)
        refine ⟨other, hother, .inr ⟨hne, i, by omega, ⟨slot, ?_, hbranch, hchild⟩, ?_⟩⟩
        · rw [hshift]
          exact hslot
        · intro j hj
          rw [hshift]
          exact hbefore (j + 1) (by omega)
  · rintro ⟨slot, hslot, ⟨hbranch, hchild⟩ | ⟨hne, i, hi, hfound, hbefore⟩⟩
    · exact ⟨0, Nat.succ_pos _, ⟨slot, hslot, hbranch, hchild⟩,
        fun j hj => absurd hj (Nat.not_lt_zero j)⟩
    · simp only [hshift] at hfound hbefore
      refine ⟨i + 1, by omega, hfound, ?_⟩
      intro j hj
      cases j with
      | zero => exact ⟨slot, hslot, hne⟩
      | succ j => exact hbefore j (by omega)

theorem findChild_eq_some_iff {r : Region n} {offset count child : Nat} {branch : UInt8} :
    findChild r offset count branch = .ok (some child) ↔
      FirstSlot r offset count branch child := by
  induction count generalizing offset with
  | zero => simp [findChild, FirstSlot]
  | succ count ih =>
      rw [firstSlot_succ_iff]
      constructor
      · intro h
        have hnumber := h
        rw [findChild] at hnumber
        obtain ⟨k, hk, -⟩ := except_bind_eq_ok_iff.mp hnumber
        have hslot := slotAt_ofNat hk
        rw [findChild_of_slotAt hslot] at h
        by_cases hbranch : (ChildSlot.ofNat k).branch = branch
        · rw [if_pos hbranch] at h
          exact ⟨_, hslot, .inl ⟨hbranch, Option.some.inj (Except.ok.inj h)⟩⟩
        · rw [if_neg hbranch] at h
          exact ⟨_, hslot, .inr ⟨hbranch, ih.mp h⟩⟩
      · rintro ⟨slot, hslot, ⟨hbranch, hchild⟩ | ⟨hbranch, hrest⟩⟩
        · rw [findChild_of_slotAt hslot, if_pos hbranch, hchild]
        · rw [findChild_of_slotAt hslot, if_neg hbranch]
          exact ih.mpr hrest

/-- The bytes of a number in range, as a word of 64 bits. -/
theorem bigEndian_ofNat64 {k : Nat} (h : k < 256 ^ 8) :
    Bytes.bigEndian 8 (UInt64.ofNat k).toNat = Bytes.bigEndian 8 k := by
  rw [UInt64.toNat_ofNat_of_lt' h]

theorem bigEndian_ofNat32 {k : Nat} (h : k < 256 ^ 4) :
    Bytes.bigEndian 4 (UInt32.ofNat k).toNat = Bytes.bigEndian 4 k := by
  rw [UInt32.toNat_ofNat_of_lt' h]

theorem locator_current_eq_ok_iff {r : Region n} {slot : Nat} {l : Locator} :
    locator .current r slot = .ok l ↔ ValueAt .current r slot l := by
  constructor
  · intro h
    obtain ⟨offset, hoffset, hrest⟩ := except_bind_eq_ok_iff.mp h
    obtain ⟨length, hlength, hl⟩ := except_bind_eq_ok_iff.mp hrest
    cases hl
    obtain ⟨hoffsetLt, hoffsetHeld⟩ := number_eq_ok_iff.mp hoffset
    obtain ⟨hlengthLt, hlengthHeld⟩ := number_eq_ok_iff.mp hlength
    refine ⟨?_, rfl⟩
    rw [Locator.bytes]
    simp only [Region.holds_append, bigEndian_ofNat64 hoffsetLt, bigEndian_ofNat32 hlengthLt,
      Bytes.length_bigEndian, Nat.add_assoc]
    exact ⟨hoffsetHeld, hlengthHeld⟩
  · rintro ⟨hheld, hcounter⟩
    have hoffset : l.offset.toNat < 256 ^ 8 := l.offset.toNat_lt
    have hlength : l.length.toNat < 256 ^ 4 := l.length.toNat_lt
    obtain ⟨offset, length, legacy⟩ := l
    obtain rfl : legacy = none := hcounter
    simp only [Locator.bytes, Region.holds_append, Bytes.length_bigEndian,
      Nat.add_assoc] at hheld
    rw [locator, number_of_holds hoffset hheld.1]
    simp only [bind, Except.bind, number_of_holds hlength hheld.2, pure, Except.pure,
      UInt64.ofNat_toNat, UInt32.ofNat_toNat]

theorem locator_legacy_eq_ok_iff {r : Region n} {slot : Nat} {l : Locator} :
    locator .legacy r slot = .ok l ↔ ValueAt .legacy r slot l := by
  constructor
  · intro h
    obtain ⟨offset, hoffset, hstored⟩ := except_bind_eq_ok_iff.mp h
    obtain ⟨time, htime, hrest⟩ := except_bind_eq_ok_iff.mp hstored
    obtain ⟨length, hlength, hl⟩ := except_bind_eq_ok_iff.mp hrest
    obtain ⟨hoffsetLt, hoffsetHeld⟩ := number_eq_ok_iff.mp hoffset
    obtain ⟨htimeLt, htimeHeld⟩ := number_eq_ok_iff.mp htime
    obtain ⟨hlengthLt, hlengthHeld⟩ := number_eq_ok_iff.mp hlength
    cases hcount : r.counter? (headerSize + (slot + 20)) with
    | none =>
        simp only [hcount] at hl
        cases hl
    | some count =>
        simp only [hcount] at hl
        cases hl
        refine ⟨?_, _, rfl, rfl⟩
        rw [Locator.bytes]
        simp only [Region.holds_append, bigEndian_ofNat64 hoffsetLt,
          bigEndian_ofNat64 htimeLt, bigEndian_ofNat32 hlengthLt, List.length_append,
          Bytes.length_bigEndian, Nat.add_assoc]
        exact ⟨⟨⟨hoffsetHeld, htimeHeld⟩, hlengthHeld⟩, Region.counter?_eq_some_iff.mp hcount⟩
  · rintro ⟨hheld, hcounter⟩
    have hoffset : l.offset.toNat < 256 ^ 8 := l.offset.toNat_lt
    have hlength : l.length.toNat < 256 ^ 4 := l.length.toNat_lt
    obtain ⟨offset, length, legacy⟩ := l
    obtain ⟨stored, rfl, hplace⟩ := hcounter
    have htime : stored.insertedAt.toNat < 256 ^ 8 := stored.insertedAt.toNat_lt
    simp only [Locator.bytes, Region.holds_append, List.length_append, Bytes.length_bigEndian,
      Nat.add_assoc] at hheld
    obtain ⟨⟨⟨hoffsetHeld, htimeHeld⟩, hlengthHeld⟩, hcountHeld⟩ := hheld
    have hcount := Region.counter?_eq_some_iff.mpr hcountHeld
    rw [locator, number_of_holds hoffset hoffsetHeld]
    simp only [bind, Except.bind, number_of_holds htime htimeHeld,
      number_of_holds hlength hlengthHeld, pure, Except.pure, UInt64.ofNat_toNat,
      UInt32.ofNat_toNat, hcount]
    rw [← Slot.counterField, ← hplace]

theorem locator_eq_ok_iff {format : Format} {r : Region n} {slot : Nat} {l : Locator} :
    locator format r slot = .ok l ↔ ValueAt format r slot l := by
  cases format with
  | current => exact locator_current_eq_ok_iff
  | legacy => exact locator_legacy_eq_ok_iff

/-! ## Visits -/

theorem EdgeAt.matches {r : Region n} {node : Nat} {h : NodeHeader} {edge : Bytes}
    (spelled : EdgeAt r node h edge) (rest : Bytes) :
    edgeMatches r (edgeStart node h) h.edgeLength (edge ++ rest) = .ok true :=
  edgeMatches_eq_true_iff.mpr ⟨edge, rest, rfl, spelled.length, spelled.held⟩

/-- A visit goes on at a node of which the edge matches. -/
theorem visit_of_edgeAt (format : Format) {r : Region n} {node : Nat} {h : NodeHeader}
    {edge : Bytes} (header : HeaderAt r node h) (spelled : EdgeAt r node h edge) (rest : Bytes) :
    visit format r node (edge ++ rest) =
      match rest with
      | [] =>
        if h.hasValue then (locator format r (edgeStart node h + h.edgeLength)).map
          fun l => .finish (some l)
        else .ok (.finish none)
      | branch :: rest =>
        (findChild r (node + NodeHeader.width) h.children branch).map fun
          | none => .finish none
          | some child => .descend child rest := by
  have hdrop : (edge ++ rest).drop h.edgeLength = rest := by
    rw [← spelled.length, List.drop_left]
  have hmatches := spelled.matches rest
  rw [edgeStart] at hmatches
  simp only [visit, header_eq_ok_iff.mpr header, bind, Except.bind, hmatches, hdrop,
    Bool.not_true, Bool.false_eq_true, if_false, edgeStart]
  cases rest with
  | nil =>
      simp only
      split
      · cases locator format r _ <;> rfl
      · rfl
  | cons branch rest =>
      simp only
      cases findChild r _ _ branch with
      | error e => rfl
      | ok found => cases found <;> rfl

/-- A visit that does not end without a locator has met a header and an edge that matches. -/
theorem exists_edgeAt_of_visit {format : Format} {r : Region n} {node : Nat} {key : Bytes}
    {v : Visit} (h : visit format r node key = .ok v) (hv : v ≠ .finish none) :
    ∃ header edge rest, HeaderAt r node header ∧ EdgeAt r node header edge ∧
      key = edge ++ rest := by
  obtain ⟨header, hheader, h⟩ := except_bind_eq_ok_iff.mp h
  obtain ⟨goesOn, hgoesOn, h⟩ := except_bind_eq_ok_iff.mp h
  cases goesOn with
  | false => exact absurd (Except.ok.inj h).symm hv
  | true =>
      obtain ⟨edge, rest, hkey, hlength, hheld⟩ := edgeMatches_eq_true_iff.mp hgoesOn
      exact ⟨header, edge, rest, header_eq_ok_iff.mp hheader, ⟨hlength, hheld⟩, hkey⟩

theorem visit_eq_finish_iff {format : Format} {r : Region n} {node : Nat} {key : Bytes}
    {l : Locator} :
    visit format r node key = .ok (.finish (some l)) ↔
      ∃ h, HeaderAt r node h ∧ EdgeAt r node h key ∧ h.hasValue = true ∧
        ValueAt format r (edgeStart node h + h.edgeLength) l := by
  constructor
  · intro hvisit
    obtain ⟨h, edge, rest, hheader, hedge, rfl⟩ := exists_edgeAt_of_visit hvisit (by simp)
    rw [visit_of_edgeAt format hheader hedge] at hvisit
    cases rest with
    | nil =>
        simp only at hvisit
        split at hvisit
        · rename_i hflag
          obtain ⟨l', hl, hfound⟩ := except_map_eq_ok_iff.mp hvisit
          cases hfound
          refine ⟨h, hheader, ?_, hflag, locator_eq_ok_iff.mp hl⟩
          rw [List.append_nil]
          exact hedge
        · cases hvisit
    | cons branch rest =>
        obtain ⟨found, _, hfound⟩ := except_map_eq_ok_iff.mp hvisit
        cases found <;> cases hfound
  · rintro ⟨h, hheader, hedge, hflag, hvalue⟩
    have hvisit := visit_of_edgeAt format hheader hedge []
    rw [List.append_nil] at hvisit
    rw [hvisit]
    simp only [hflag, if_true, locator_eq_ok_iff.mpr hvalue, Except.map]

theorem visit_eq_descend_iff {format : Format} {r : Region n} {node child : Nat}
    {key rest : Bytes} :
    visit format r node key = .ok (.descend child rest) ↔
      ∃ h edge branch, HeaderAt r node h ∧ EdgeAt r node h edge ∧
        FirstSlot r (node + NodeHeader.width) h.children branch child ∧
        key = edge ++ branch :: rest := by
  constructor
  · intro hvisit
    obtain ⟨h, edge, left, hheader, hedge, rfl⟩ := exists_edgeAt_of_visit hvisit (by simp)
    rw [visit_of_edgeAt format hheader hedge] at hvisit
    cases left with
    | nil =>
        simp only at hvisit
        split at hvisit
        · obtain ⟨l, _, hfound⟩ := except_map_eq_ok_iff.mp hvisit
          cases hfound
        · cases hvisit
    | cons branch left =>
        obtain ⟨found, hfind, hfound⟩ := except_map_eq_ok_iff.mp hvisit
        cases found with
        | none => cases hfound
        | some child' =>
            cases hfound
            exact ⟨h, edge, branch, hheader, hedge, findChild_eq_some_iff.mp hfind, rfl⟩
  · rintro ⟨h, edge, branch, hheader, hedge, hfirst, rfl⟩
    rw [visit_of_edgeAt format hheader hedge]
    simp only [findChild_eq_some_iff.mpr hfirst, Except.map]

/-! ## Paths and walks -/

/-- The first visit of a walk along a path tells whether the path ends, and how it goes on. -/
theorem Leads.visit_eq {format : Format} {r : Region n} {node : Nat} {key : Bytes}
    {nodes : List Nat} {l : Locator} (h : Leads format r node key nodes l) :
    (visit format r node key = .ok (.finish (some l)) ∧ nodes = [node]) ∨
    ∃ child rest below, visit format r node key = .ok (.descend child rest) ∧
      nodes = node :: below ∧ Leads format r child rest below l := by
  cases h with
  | here header spelled flag value =>
      exact .inl ⟨visit_eq_finish_iff.mpr ⟨_, header, spelled, flag, value⟩, rfl⟩
  | down header spelled first below =>
      exact .inr ⟨_, _, _,
        visit_eq_descend_iff.mpr ⟨_, _, _, header, spelled, first, rfl⟩, rfl, below⟩

theorem Leads.lookupFrom_eq {format : Format} {r : Region n} {node : Nat} {key : Bytes}
    {nodes : List Nat} {l : Locator} (h : Leads format r node key nodes l) :
    lookupFrom format r node key = .ok (some l) := by
  induction h with
  | here header spelled flag value =>
      exact lookupFrom_of_finish (visit_eq_finish_iff.mpr ⟨_, header, spelled, flag, value⟩)
  | @down node child _ edge rest branch _ _ header spelled first _ ih =>
      have hvisit : visit format r node (edge ++ branch :: rest) = .ok (.descend child rest) :=
        visit_eq_descend_iff.mpr ⟨_, _, _, header, spelled, first, rfl⟩
      exact (lookupFrom_of_descend hvisit).trans ih

theorem exists_leads_of_lookupFrom {format : Format} {r : Region n} {node : Nat} {key : Bytes}
    {l : Locator} (h : lookupFrom format r node key = .ok (some l)) :
    ∃ nodes, Leads format r node key nodes l := by
  fun_induction lookupFrom format r node key with
  | case1 node key e hvisit => cases h
  | case2 node key found hvisit =>
      cases h
      obtain ⟨header, hheader, hedge, hflag, hvalue⟩ := visit_eq_finish_iff.mp hvisit
      exact ⟨_, .here hheader hedge hflag hvalue⟩
  | case3 node key child rest hvisit ih =>
      obtain ⟨header, edge, branch, hheader, hedge, hfirst, rfl⟩ := visit_eq_descend_iff.mp hvisit
      obtain ⟨nodes, hbelow⟩ := ih h
      exact ⟨_, .down hheader hedge hfirst hbelow⟩

/-- Two paths from a node for one key go through the same nodes. -/
theorem Leads.nodes_eq {format : Format} {r : Region n} {node : Nat} {key : Bytes}
    {nodes nodes' : List Nat} {l l' : Locator} (h : Leads format r node key nodes l)
    (h' : Leads format r node key nodes' l') : nodes = nodes' := by
  -- The other path is followed by its visits, which are those of the walk and not of the path.
  induction h generalizing nodes' with
  | here header spelled flag value =>
      have hvisit := visit_eq_finish_iff.mpr ⟨_, header, spelled, flag, value⟩
      rcases h'.visit_eq with ⟨-, rfl⟩ | ⟨_, _, _, hvisit', -, -⟩
      · rfl
      · cases hvisit.symm.trans hvisit'
  | @down node child _ edge rest branch _ _ header spelled first _ ih =>
      have hvisit : visit format r node (edge ++ branch :: rest) = .ok (.descend child rest) :=
        visit_eq_descend_iff.mpr ⟨_, _, _, header, spelled, first, rfl⟩
      rcases h'.visit_eq with ⟨hvisit', -⟩ | ⟨_, _, below, hvisit', rfl, hbelow⟩
      · cases hvisit.symm.trans hvisit'
      · cases hvisit.symm.trans hvisit'
        rw [ih hbelow]

/-- Whatever bytes an index has, a lookup answers a locator if and only if a path for the key leads
from the root to it, and there is no other path for the key. -/
theorem tryLookup_eq_some_iff (index : Index) (files : Files) (key : Bytes) :
    (∀ l, index.tryLookup files key = .ok (some l) ↔
      ∃ nodes, Leads index.format (files.view index.mapping) 0 key nodes l) ∧
    ∀ nodes nodes' l l', Leads index.format (files.view index.mapping) 0 key nodes l →
      Leads index.format (files.view index.mapping) 0 key nodes' l' → nodes = nodes' ∧ l = l' := by
  refine ⟨?_, ?_⟩
  · intro l
    constructor
    · exact exists_leads_of_lookupFrom
    · rintro ⟨nodes, h⟩
      exact h.lookupFrom_eq
  · intro nodes nodes' l l' h h'
    have hl := h.lookupFrom_eq.symm.trans h'.lookupFrom_eq
    exact ⟨h.nodes_eq h', Option.some.inj (Except.ok.inj hl)⟩

/-- An index of which the root has two slots for one byte: the first leads to a node with a value,
the second back to the root. -/
def sampleTwice : Files :=
  Files.empty.put ["index"] (.ofBytes (List.replicate headerSize 0 ++
    Bytes.bigEndian 2 (NodeHeader.ofCounts false 0 2).toNat ++
    [7] ++ Bytes.bigEndian 7 18 ++ [7] ++ Bytes.bigEndian 7 0 ++
    Bytes.bigEndian 2 (NodeHeader.ofCounts true 1 0).toNat ++ [8] ++
    Slot.toBytes ⟨32, 6, 0⟩ .current) 49)

theorem tryLookup_eq_some_iff_sample :
    ∃ nodes,
      Leads .current (sampleTwice.view ⟨"index", ["index"], 49⟩) 0 [7, 8] nodes ⟨32, 6, none⟩ ∧
      ∀ nodes' l, Leads .current (sampleTwice.view ⟨"index", ["index"], 49⟩) 0 [7, 8] nodes' l →
        nodes' = nodes ∧ l = ⟨32, 6, none⟩ := by
  obtain ⟨hiff, hunique⟩ :=
    tryLookup_eq_some_iff ⟨⟨"index", ["index"], 49⟩, .current⟩ sampleTwice [7, 8]
  obtain ⟨nodes, hleads⟩ := (hiff ⟨32, 6, none⟩).mp
    (except_eq_ok_of_toOption (by decide +kernel))
  exact ⟨nodes, hleads, fun nodes' l hother => hunique _ _ _ _ hother hleads⟩

end Index

end Columnlet

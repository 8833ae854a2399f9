import Columnlet.Proofs.Index.Spelling

/-! # Corrupted edges

A trie with another byte in one of its edges is again a trie, and the bytes of the two differ only
in that byte. Lookups in the one are therefore known from lookups in the other: the byte is never
read as anything but a part of the edge. -/

namespace Columnlet

/-! ## One byte in place of another -/

/-- What is found if behind some bytes a new byte stands in place of an old one: keys that go on
with the old byte are not found, and those with the new one are found in their place. -/
def rerouted {α : Type} (find : Bytes → Option α) (front : Bytes) (old new : UInt8) (key : Bytes) :
    Option α :=
  if front ++ [old] <+: key then none
  else if front ++ [new] <+: key then find (key.set front.length old)
  else find key

section

variable {α : Type} {find below : Bytes → Option α} {front edge key : Bytes} {old new : UInt8}

theorem rerouted_of_not_isPrefix (h : ¬ front <+: key) :
    rerouted find front old new key = find key := by
  have hnot (byte : UInt8) : ¬ front ++ [byte] <+: key :=
    fun hp => h ((List.prefix_append ..).trans hp)
  rw [rerouted, if_neg (hnot old), if_neg (hnot new)]

theorem rerouted_append (edge key : Bytes) :
    rerouted find (edge ++ front) old new (edge ++ key) =
      rerouted (fun rest => find (edge ++ rest)) front old new key := by
  simp only [rerouted, List.append_assoc, List.prefix_append_right_inj, List.length_append]
  rw [List.set_append_right _ _ (by omega), Nat.add_sub_cancel_left]

theorem rerouted_cons (byte : UInt8) (key : Bytes) :
    rerouted find (byte :: front) old new (byte :: key) =
      rerouted (fun rest => find (byte :: rest)) front old new key :=
  rerouted_append [byte] key

theorem map_rerouted {β : Type} (f : α → β) (key : Bytes) :
    (rerouted find front old new key).map f =
      rerouted (fun key => (find key).map f) front old new key := by
  unfold rerouted
  split
  · rfl
  · split <;> rfl

theorem exists_of_rerouted_eq_some {x : α} (h : rerouted find front old new key = some x) :
    ∃ other, find other = some x := by
  unfold rerouted at h
  split at h
  · cases h
  · split at h
    · exact ⟨_, h⟩
    · exact ⟨key, h⟩

theorem follow_append_left (front edge : Bytes) (value : Option α) (key : Bytes) :
    follow (front ++ edge) value below (front ++ key) = follow edge value below key := by
  by_cases h : edge <+: key
  · obtain ⟨rest, rfl⟩ := h
    rw [← List.append_assoc, follow_append, follow_append]
  · rw [follow_of_not_isPrefix _ _ h, follow_of_not_isPrefix]
    rwa [List.prefix_append_right_inj]

/-- Rerouting below a node is rerouting behind its edge. -/
theorem follow_rerouted (edge : Bytes) (value : Option α) (key : Bytes) :
    follow edge value (rerouted below front old new) key =
      rerouted (follow edge value below) (edge ++ front) old new key := by
  by_cases h : edge <+: key
  · obtain ⟨rest, rfl⟩ := h
    rw [follow_append, rerouted_append, funext (follow_append edge value below)]
    cases rest <;> simp [rerouted]
  · have hnot : ¬ edge ++ front <+: key := fun hp => h ((List.prefix_append ..).trans hp)
    rw [rerouted_of_not_isPrefix hnot, follow_of_not_isPrefix _ _ h, follow_of_not_isPrefix _ _ h]

theorem follow_replaced (front tail : Bytes) (hne : new ≠ old) (value : Option α)
    (below : Bytes → Option α) (key : Bytes) :
    follow (front ++ ([new] ++ tail)) value below key =
      rerouted (follow (front ++ ([old] ++ tail)) value below) front old new key := by
  have hapart (byte : UInt8) (h : ¬ front ++ [byte] <+: key) :
      follow (front ++ ([byte] ++ tail)) value below key = none := by
    refine follow_of_not_isPrefix _ _ fun hp => h ?_
    rw [← List.append_assoc] at hp
    exact (List.prefix_append ..).trans hp
  by_cases hold : front ++ [old] <+: key
  · rw [rerouted, if_pos hold]
    refine hapart new fun hnew => hne ?_
    have hsame := List.prefix_of_prefix_length_le hnew hold (by simp)
    simpa using hsame
  · by_cases hnew : front ++ [new] <+: key
    · rw [rerouted, if_neg hold, if_pos hnew]
      obtain ⟨rest, rfl⟩ := hnew
      have hset : (front ++ [new] ++ rest).set front.length old = front ++ ([old] ++ rest) := by
        simp
      rw [hset, List.append_assoc, follow_append_left, follow_append_left, follow_append_left,
        follow_append_left]
    · rw [rerouted, if_neg hold, if_neg hnew, hapart new hnew, hapart old hold]

/-- A new byte in an edge reroutes what is found behind it. -/
theorem follow_set {j : Nat} (hj : j < edge.length) (hne : new ≠ edge[j]) (value : Option α)
    (key : Bytes) :
    follow (edge.set j new) value below key =
      rerouted (follow edge value below) (edge.take j) edge[j] new key := by
  have hreplaced := follow_replaced (edge.take j) (edge.drop (j + 1)) hne value below key
  rw [List.singleton_append, List.singleton_append, List.getElem_cons_drop,
    List.take_append_drop] at hreplaced
  rwa [List.set_eq_take_append_cons_drop, if_pos hj]

end

/-! ## One byte of an edge -/

namespace Forest

/-- A forest with a new byte in the edge of the node to which some bytes lead. -/
def setEdge (j : Nat) (new : UInt8) : Forest → Bytes → Forest
  | nil, _ => nil
  | cons branch edge value children siblings, [] => cons branch edge value children siblings
  | cons branch edge value children siblings, byte :: front =>
    if branch = byte then
      if front = [] then cons branch (edge.set j new) value children siblings
      else cons branch edge value (children.setEdge j new (front.drop edge.length)) siblings
    else cons branch edge value children (siblings.setEdge j new (byte :: front))

variable (j : Nat) (new : UInt8) (format : Format)

@[simp] theorem width_setEdge (forest : Forest) (front : Bytes) :
    (forest.setEdge j new front).width = forest.width := by
  induction forest, front using setEdge.induct with
  | case1 => rfl
  | case2 => rfl
  | case3 branch edge value children siblings => simp [setEdge, width]
  | case4 branch edge value children siblings front hne ih => simp [setEdge, width, hne]
  | case5 branch edge value children siblings byte front hne ih => simp [setEdge, width, hne, ih]

@[simp] theorem nodeSize_set (edge : Bytes) (value : Option Slot) (children : Forest) :
    Trie.nodeSize format (edge.set j new) value children =
      Trie.nodeSize format edge value children := by
  simp [Trie.nodeSize, Trie.nodeHeader]

@[simp] theorem nodeSize_setEdge (edge : Bytes) (value : Option Slot) (children : Forest)
    (front : Bytes) :
    Trie.nodeSize format edge value (children.setEdge j new front) =
      Trie.nodeSize format edge value children := by
  simp [Trie.nodeSize, Trie.nodeHeader]

@[simp] theorem size_setEdge (forest : Forest) (front : Bytes) :
    (forest.setEdge j new front).size format = forest.size format := by
  induction forest, front using setEdge.induct with
  | case1 => rfl
  | case2 => rfl
  | case3 branch edge value children siblings => simp [setEdge, size]
  | case4 branch edge value children siblings front hne ih => simp [setEdge, size, hne, ih]
  | case5 branch edge value children siblings byte front hne ih => simp [setEdge, size, hne, ih]

theorem slots_setEdge (forest : Forest) (front : Bytes) (base : Nat) :
    (forest.setEdge j new front).slots format base = forest.slots format base := by
  induction forest, front using setEdge.induct generalizing base with
  | case1 => rfl
  | case2 => rfl
  | case3 branch edge value children siblings => simp [setEdge, slots]
  | case4 branch edge value children siblings front hne ih => simp [setEdge, slots, hne]
  | case5 branch edge value children siblings byte front hne ih => simp [setEdge, slots, hne, ih]

theorem childAt?_setEdge (forest : Forest) (front : Bytes) (base : Nat) (byte : UInt8) :
    Index.childAt? format (forest.setEdge j new front) base byte =
      Index.childAt? format forest base byte := by
  induction forest, front using setEdge.induct generalizing base with
  | case1 => rfl
  | case2 => rfl
  | case3 branch edge value children siblings => simp [setEdge, Index.childAt?]
  | case4 branch edge value children siblings front hne ih =>
      simp [setEdge, Index.childAt?, hne]
  | case5 branch edge value children siblings byte front hne ih =>
      simp [setEdge, Index.childAt?, hne, ih]

theorem fits_setEdge {forest : Forest} (h : forest.Fits) (front : Bytes) :
    (forest.setEdge j new front).Fits := by
  induction forest, front using setEdge.induct with
  | case1 => trivial
  | case2 => exact h
  | case3 branch edge value children siblings => simpa [setEdge, Fits] using h
  | case4 branch edge value children siblings front hne ih =>
      obtain ⟨hedge, hwidth, hchildren, hsiblings⟩ := h
      simp [setEdge, Fits, hne, hedge, hwidth, ih hchildren, hsiblings]
  | case5 branch edge value children siblings byte front hne ih =>
      obtain ⟨hedge, hwidth, hchildren, hsiblings⟩ := h
      simp [setEdge, Fits, hne, hedge, hwidth, hchildren, ih hsiblings]

end Forest

/-! ## The bytes of the two tries -/

theorem Trie.nodeBytes_set {format : Format} {below j : Nat} {edge : Bytes}
    {value : Option Slot} {children : Forest} {bs : Bytes}
    (h : nodeBytes format below edge value children = .ok bs) (hj : j < edge.length)
    (new : UInt8) :
    nodeBytes format below (edge.set j new) value children =
      .ok (bs.set (edgeAt 0 children + j) new) := by
  obtain ⟨slots, hslots, rfl⟩ := nodeBytes_eq_ok h
  refine except_bind_eq_ok_iff.mpr ⟨slots, hslots, ?_⟩
  have hheader : nodeHeader (edge.set j new) value children = nodeHeader edge value children := by
    simp [nodeHeader]
  have hlength : (Bytes.bigEndian NodeHeader.width (nodeHeader edge value children).toNat ++
      ChildSlot.bytes slots).length = edgeAt 0 children := by
    rw [List.length_append, Bytes.length_bigEndian, ChildSlot.length_bytes,
      Forest.length_slots hslots, edgeAt, slotsAt, Nat.zero_add]
  rw [hheader, List.set_append_left _ _ (by rw [List.length_append, hlength]; omega),
    List.set_append_right _ _ (by omega), hlength, Nat.add_sub_cancel_left]
  rfl

namespace Forest

theorem locate?_cons_self (format : Format) (branch : UInt8) (edge : Bytes) (value : Option Slot)
    (children siblings : Forest) (base : Nat) (key : Bytes) :
    (cons branch edge value children siblings).locate? format base (branch :: key) =
      follow edge (value.map fun slot => (slot, Trie.valueAt base edge children))
        (children.locate? format (base + Trie.nodeSize format edge value children)) key := by
  rw [locate?, if_pos rfl]

theorem locate?_cons_of_ne {format : Format} {branch byte : UInt8} {edge key : Bytes}
    {value : Option Slot} {children siblings : Forest} {base : Nat} (h : branch ≠ byte) :
    (cons branch edge value children siblings).locate? format base (byte :: key) =
      siblings.locate? format
        (base + Trie.nodeSize format edge value children + children.size format) (byte :: key) := by
  rw [locate?, if_neg h]

end Forest

namespace Forest.Reaches

variable {format : Format} {p : PlacedNode} {forest : Forest} {base j : Nat} {front : Bytes}
  {new : UInt8}

/-- The bytes of a forest with a new byte in an edge are the bytes of the forest with a new byte. -/
theorem encode_setEdge (h : Reaches format p forest base front) (hj : j < p.edge.length)
    (new : UInt8) {bs : Bytes} (hencode : forest.encode format base = .ok bs)
    (hfits : forest.Fits) {pos : Nat} (hpos : base + pos = Trie.edgeAt p.start p.children + j) :
    pos < bs.length ∧
      (forest.setEdge j new front).encode format base = .ok (bs.set pos new) := by
  have hstart : p.start ≤ Trie.edgeAt p.start p.children := by
    rw [Trie.edgeAt, Trie.slotsAt]
    omega
  induction h generalizing bs pos with
  | here =>
      obtain ⟨hedge, hwidth, -, -⟩ := hfits
      obtain ⟨first, lower, later, hfirst, hlower, hlater, rfl⟩ := encode_cons_eq_ok hencode
      have hlength := Trie.length_nodeBytes hfirst hedge hwidth
      rw [Trie.nodeSize_eq format _ hedge hwidth, Trie.valueAt] at hlength
      obtain rfl : pos = Trie.edgeAt 0 p.children + j := by
        simp only [Trie.edgeAt, Trie.slotsAt] at hpos ⊢
        omega
      have hshort : Trie.edgeAt 0 p.children + j < first.length := by omega
      refine ⟨by rw [List.length_append, List.length_append]; omega, ?_⟩
      have hnew := Trie.nodeBytes_set hfirst hj new
      rw [← nodeSize_set j new format] at hnew hlower hlater
      rw [setEdge, if_pos rfl, if_pos rfl, encode_cons_of_ok _ hnew hlower hlater,
        List.append_assoc, List.append_assoc, List.set_append_left _ _ hshort]
  | @down branch byte edge front value children siblings base hbelow ih =>
      obtain ⟨hedge, hwidth, hchildren, hsiblings⟩ := hfits
      obtain ⟨first, lower, later, hfirst, hlower, hlater, rfl⟩ := encode_cons_eq_ok hencode
      have hlength := Trie.length_nodeBytes hfirst hedge hwidth
      have hbehind := (start_bounds hbelow.mem_placed).1
      obtain ⟨pos, rfl⟩ : ∃ k, pos = first.length + k := ⟨pos - first.length, by omega⟩
      have hposBelow : base + Trie.nodeSize format edge value children + pos =
          Trie.edgeAt p.start p.children + j := by omega
      obtain ⟨hshort, hnew⟩ := ih hlower hchildren hposBelow
      refine ⟨by rw [List.length_append, List.length_append]; omega, ?_⟩
      have hnode : Trie.nodeBytes format (base + Trie.nodeSize format edge value children) edge
          value (children.setEdge j new (byte :: front)) = .ok first := by
        rw [← hfirst, Trie.nodeBytes, Trie.nodeBytes, slots_setEdge, Trie.nodeHeader,
          Trie.nodeHeader, width_setEdge]
      rw [← nodeSize_setEdge j new format edge value children (byte :: front)] at hnode hnew hlater
      rw [← size_setEdge j new format children (byte :: front)] at hlater
      rw [setEdge, if_pos rfl, if_neg (by simp), List.drop_left,
        encode_cons_of_ok _ hnode hnew hlater, List.append_assoc, List.append_assoc,
        List.set_append_right _ _ (by omega), Nat.add_sub_cancel_left,
        List.set_append_left _ _ hshort]
  | @later branch byte edge front value children siblings base hother hbelow ih =>
      obtain ⟨hedge, hwidth, hchildren, hsiblings⟩ := hfits
      obtain ⟨first, lower, later, hfirst, hlower, hlater, rfl⟩ := encode_cons_eq_ok hencode
      have hlength := Trie.length_nodeBytes hfirst hedge hwidth
      have hlengthLower := length_encode hlower hchildren
      have hbehind := (start_bounds hbelow.mem_placed).1
      obtain ⟨pos, rfl⟩ : ∃ k, pos = (first ++ lower).length + k :=
        ⟨pos - (first ++ lower).length, by rw [List.length_append]; omega⟩
      rw [List.length_append] at hpos
      have hposLater : base + Trie.nodeSize format edge value children + children.size format +
          pos = Trie.edgeAt p.start p.children + j := by omega
      obtain ⟨hshort, hnew⟩ := ih hlater hsiblings hposLater
      refine ⟨by rw [@List.length_append _ _ later]; omega, ?_⟩
      rw [setEdge, if_neg hother, encode_cons_of_ok _ hfirst hlower hnew,
        List.set_append_right _ _ (by omega), Nat.add_sub_cancel_left]

/-! ## What the two tries store -/

/-- A key that a forest stores and that begins with the bytes leading to a node goes on with the
edge of that node. -/
theorem edge_isPrefix (h : Reaches format p forest base front) {key : Bytes}
    (hkey : (forest.locate? format base key).isSome) (hfront : front <+: key) :
    front ++ p.edge <+: key := by
  induction h generalizing key with
  | here =>
      obtain ⟨rest, rfl⟩ := hfront
      rw [List.prefix_append_right_inj]
      by_contra hnot
      rw [List.singleton_append, locate?, if_pos rfl, follow_of_not_isPrefix _ _ hnot] at hkey
      cases hkey
  | @down branch byte edge front value children siblings base _ ih =>
      obtain ⟨rest, rfl⟩ := hfront
      rw [List.cons_append, List.append_assoc, locate?, if_pos rfl, follow_append,
        if_neg (by simp)] at hkey
      have hbelow := ih hkey (List.prefix_append ..)
      rw [List.prefix_append_right_inj] at hbelow
      rwa [List.prefix_append_right_inj]
  | later hother _ ih =>
      obtain ⟨rest, rfl⟩ := hfront
      rw [List.cons_append, locate?, if_neg hother] at hkey
      exact ih hkey (List.prefix_append ..)

/-- A new byte in an edge reroutes the keys of a forest. -/
theorem locate?_setEdge (h : Reaches format p forest base front) (hj : j < p.edge.length)
    (hne : new ≠ p.edge[j]) (key : Bytes) :
    (forest.setEdge j new front).locate? format base key =
      rerouted (forest.locate? format base) (front ++ p.edge.take j) p.edge[j] new key := by
  induction h generalizing key with
  | @here branch siblings =>
      rw [setEdge, if_pos rfl, if_pos rfl]
      cases key with
      | nil => rfl
      | cons byte key =>
          by_cases hb : branch = byte
          · subst hb
            rw [List.singleton_append, rerouted_cons, locate?_cons_self,
              funext (locate?_cons_self format branch p.edge p.value p.children siblings p.start),
              ← follow_set hj hne]
            simp [Trie.valueAt]
          · rw [rerouted_of_not_isPrefix (by simp [hb]), locate?_cons_of_ne hb,
              locate?_cons_of_ne hb, nodeSize_set]
  | @down branch byte edge front value children siblings base _ ih =>
      rw [setEdge, if_pos rfl, if_neg (by simp), List.drop_left]
      cases key with
      | nil => rfl
      | cons first key =>
          by_cases hb : branch = first
          · subst hb
            rw [List.cons_append, List.append_assoc, rerouted_cons, locate?_cons_self,
              funext (locate?_cons_self format branch edge value children siblings base),
              ← follow_rerouted, nodeSize_setEdge, funext ih]
            simp [Trie.valueAt, Trie.edgeAt]
          · rw [rerouted_of_not_isPrefix (by simp [hb]), locate?_cons_of_ne hb,
              locate?_cons_of_ne hb, nodeSize_setEdge, size_setEdge]
  | @later branch byte edge front value children siblings base hother _ ih =>
      rw [setEdge, if_neg hother]
      cases key with
      | nil => rfl
      | cons first key =>
          by_cases hb : branch = first
          · subst hb
            rw [rerouted_of_not_isPrefix (by simp [Ne.symm hother]), locate?_cons_self,
              locate?_cons_self]
          · rw [locate?_cons_of_ne hb, ih]
            by_cases hfirst : byte = first
            · subst hfirst
              rw [List.cons_append, rerouted_cons, rerouted_cons,
                funext fun rest => locate?_cons_of_ne hother]
            · rw [rerouted_of_not_isPrefix (by simp [hfirst]),
                rerouted_of_not_isPrefix (by simp [hfirst]), locate?_cons_of_ne hb]

end Forest.Reaches

/-! ## Lookups -/

theorem Region.Holds.set {n : Nat} {r after : Region n} {offset pos : Nat} {bs : Bytes}
    {new : UInt8} (h : r.Holds offset bs) (hw : r.write? (offset + pos) [new] = some after) :
    after.Holds offset (bs.set pos new) := by
  obtain ⟨hbound, hget⟩ := holds_iff.mp h
  refine holds_iff.mpr ⟨by rw [List.length_set]; exact hbound, ?_⟩
  intro k hk
  rw [List.length_set] at hk
  rw [List.getElem_set]
  by_cases hkpos : pos = k
  · subst hkpos
    have hwritten := (holds_iff.mp (holds_of_write? hw)).2 0 (by simp)
    rw [if_pos rfl]
    exact hwritten
  · rw [if_neg hkpos, get_of_write?_of_outside hw (by simp; omega), hget k hk]

/-- A slot as it is written first makes the same locator in every region that holds it. -/
theorem Slot.locatorIn_eq_of_holds {n : Nat} {format : Format} {r r' : Region n} {s : Slot}
    {slot : Nat} (h : r.Holds (Index.headerSize + slot) (s.toBytes format))
    (h' : r'.Holds (Index.headerSize + slot) (s.toBytes format)) :
    s.locatorIn format r' slot = s.locatorIn format r slot := by
  cases format with
  | current => rfl
  | legacy => rw [locatorIn, locatorIn, counter?_of_holds h, counter?_of_holds h']

/-- The locator that a region which shows a trie has for a key. -/
def Trie.locator? {n : Nat} (format : Format) (r : Region n) (t : Trie) (key : Bytes) :
    Option Locator :=
  (t.locate? format key).map fun (s, slot) => s.locatorIn format r slot

namespace Index

/-- A lookup in a region that shows a forest of one root finds what the forest stores. -/
theorem lookupIn_of_shown_forest {n : Nat} {format : Format} {r : Region n} {forest : Forest}
    (h : forest.Shown format r 0) (hroot : childAt? format forest 0 0 = some 0) (key : Bytes) :
    lookupIn format r key = report format r (forest.locate? format 0 (0 :: key)) := by
  have hlookup := lookupFrom_childAt? h 0 key
  rw [hroot] at hlookup
  exact hlookup

/-- The locators that a published trie has for keys, rerouted, are those of the trie with a new
byte in an edge. -/
theorem lookupIn_of_setEdge {n : Nat} {format : Format} {r after : Region n} {t : Trie}
    {p : PlacedNode} {front bs : Bytes} {j : Nat} {new : UInt8} (hencode : t.encode format = .ok bs)
    (hfits : t.Fits) (hheld : r.Holds headerSize bs)
    (hp : Forest.Reaches format p t.forest 0 (0 :: front)) (hj : j < p.edge.length)
    (hne : new ≠ p.edge[j])
    (hw : r.write? (headerSize + (Trie.edgeAt p.start p.children + j)) [new] = some after)
    (key : Bytes) :
    lookupIn format after key =
      .ok (rerouted (t.locator? format r) (front ++ p.edge.take j) p.edge[j] new key) := by
  have hforest := Trie.encode_forest hencode
  have hfitsForest := Trie.fits_forest hfits
  obtain ⟨-, hnew⟩ := hp.encode_setEdge hj new hforest hfitsForest (Nat.zero_add _)
  obtain ⟨_, hslots⟩ := Forest.shown_of_holds hforest hfitsForest hheld
  obtain ⟨hshown, hslotsAfter⟩ :=
    Forest.shown_of_holds hnew (Forest.fits_setEdge j new hfitsForest _) (hheld.set hw)
  have hroot : childAt? format (t.forest.setEdge j new (0 :: front)) 0 0 = some 0 := by
    rw [Forest.childAt?_setEdge]
    rfl
  have hlocate := hp.locate?_setEdge hj hne (0 :: key)
  rw [List.cons_append, rerouted_cons, funext (Trie.locate?_forest format t)] at hlocate
  have hmap : rerouted (t.locator? format r) (front ++ p.edge.take j) p.edge[j] new key =
      (rerouted (t.locate? format) (front ++ p.edge.take j) p.edge[j] new key).map
        fun (s, slot) => s.locatorIn format r slot :=
    (map_rerouted ..).symm
  rw [lookupIn_of_shown_forest hshown hroot, hlocate, report, hmap]
  cases hfound : rerouted (t.locate? format) (front ++ p.edge.take j) p.edge[j] new key with
  | none => rfl
  | some found =>
      obtain ⟨s, slot⟩ := found
      obtain ⟨other, hother⟩ := exists_of_rerouted_eq_some hfound
      have hsame := Slot.locatorIn_eq_of_holds
        (hslots (0 :: other) s slot ((Trie.locate?_forest ..).trans hother))
        (hslotsAfter (0 :: key) s slot (hlocate.trans hfound))
      simp only [Option.map_some, hsame]

/-- In a published index let another byte be written over one in the edge of a node. No lookup
fails then: those that go on with the old byte find nothing, those that go on with the new one find
what stands at its place without the write, and all others find what they did. So of the inserted
keys those that share the edge are lost, and the others keep their locators. -/
theorem tryLookup_of_corrupted {format : Format} {insertions : List (Bytes × Slot)} {m : Mapping}
    {files published : Files} {count : Nat}
    (h : (IndexBuilder.ofInsertions format insertions).publish m files = .ok count published) :
    ∃ bytes nodes find,
      (IndexBuilder.ofInsertions format insertions).encode = .ok bytes ∧
      (published.view m).Holds headerSize bytes ∧
      Tiled format bytes 0 nodes ∧ (∀ node ∈ nodes, ∃ front, Trie.Spells bytes node front) ∧
      (∀ key, tryLookup ⟨m, format⟩ published key = .ok (find key)) ∧
      ∀ node front, Trie.Spells bytes node front →
        ∀ j (hj : j < (Trie.edgeIn bytes node).length) new, new ≠ (Trie.edgeIn bytes node)[j] →
          ∃ r, (published.view m).write? (headerSize + (Trie.edgeStartIn bytes node + j)) [new] =
              some r ∧
            (∀ key, tryLookup ⟨m, format⟩ (published.commit m r) key =
              .ok (rerouted find (front ++ (Trie.edgeIn bytes node).take j)
                (Trie.edgeIn bytes node)[j] new key)) ∧
            ∀ key, (lastInserted? insertions key).isSome →
              (front ++ Trie.edgeIn bytes node <+: key ∧
                tryLookup ⟨m, format⟩ (published.commit m r) key = .ok none) ∨
              (¬ front <+: key ∧ (find key).isSome ∧
                tryLookup ⟨m, format⟩ (published.commit m r) key = .ok (find key)) := by
  obtain ⟨bytes, r, hencode, _, hwrite, rfl⟩ := IndexBuilder.publish_eq_ok h
  obtain ⟨t, hencoded⟩ := IndexBuilder.exists_encoded hencode
  have hheld : r.Holds headerSize bytes := Region.holds_of_write? hwrite
  have hshown := (Trie.shown_of_holds hencoded.encode hencoded.fits hheld).1
  have hfitsForest := Trie.fits_forest hencoded.fits
  simp only [tryLookup, Files.view_commit_self]
  refine ⟨bytes, t.forest.starts format 0,
    t.locator? format r, hencode, hheld, hencoded.wellFormed.tiled,
    fun node hnode => hencoded.wellFormed.exists_spells hnode, lookupIn_of_shown hshown, ?_⟩
  intro node front hspells j hj new hne
  obtain ⟨p, hp, rfl⟩ := hspells.exists_reaches hencoded.written hfitsForest hencoded.branches
  have hwritten := hencoded.written p hp.mem_placed
  have hfits := Forest.Fits.of_mem_placed hfitsForest hp.mem_placed
  simp only [hwritten.edgeIn hfits, hwritten.edgeStartIn hfits] at hj hne ⊢
  obtain ⟨hpos, -⟩ := hp.encode_setEdge hj new (Trie.encode_forest hencoded.encode)
    hfitsForest (Nat.zero_add _)
  have hbound := hheld.bound
  obtain ⟨after, hafter⟩ := r.write?_of_le
    (headerSize + (Trie.edgeAt p.start p.children + j)) [new] (by simp; omega)
  have hlookup := lookupIn_of_setEdge hencoded.encode hencoded.fits hheld hp hj hne hafter
  refine ⟨after, hafter, hlookup, ?_⟩
  intro key hkey
  rw [← hencoded.find, ← t.map_locate? format, Option.isSome_map] at hkey
  rw [hlookup]
  by_cases hfront : front <+: key
  · have hstored : (t.forest.locate? format 0 (0 :: key)).isSome := by rwa [Trie.locate?_forest]
    have hedge := hp.edge_isPrefix hstored (List.cons_prefix_cons.mpr ⟨rfl, hfront⟩)
    rw [List.cons_append, List.cons_prefix_cons] at hedge
    have hold : front ++ p.edge.take j ++ [p.edge[j]] <+: front ++ p.edge := by
      rw [List.append_assoc, List.prefix_append_right_inj, List.take_concat_get' _ _ hj]
      exact List.take_prefix ..
    exact .inl ⟨hedge.2, by rw [rerouted, if_pos (hold.trans hedge.2)]⟩
  · refine .inr ⟨hfront, by rwa [Trie.locator?, Option.isSome_map], ?_⟩
    rw [rerouted_of_not_isPrefix fun hp => hfront ((List.prefix_append ..).trans hp)]

/-- Insertions of two keys that share an edge, and of one that does not. -/
def sampleShared : List (Bytes × Slot) :=
  [([7, 8, 9, 1], ⟨64, 3, 4⟩), ([7, 8, 9, 2], ⟨32, 6, 2⟩), ([3, 4], ⟨0, 5, 1⟩)]

/-- The bytes of their trie. -/
def sampleSharedBytes : Bytes :=
  (IndexBuilder.ofInsertions .legacy sampleShared).encode.toOption.getD []

theorem tryLookup_of_corrupted_sample :
    ∃ count published r,
      (IndexBuilder.ofInsertions .legacy sampleShared).publish sampleMapping .empty =
        .ok count published ∧
      (published.view sampleMapping).write? (headerSize + (63 + 1)) [5] = some r ∧
      tryLookup ⟨sampleMapping, .legacy⟩ (published.commit sampleMapping r) [7, 8, 9, 1] =
        .ok none ∧
      tryLookup ⟨sampleMapping, .legacy⟩ (published.commit sampleMapping r) [7, 8, 5, 1] =
        tryLookup ⟨sampleMapping, .legacy⟩ published [7, 8, 9, 1] ∧
      tryLookup ⟨sampleMapping, .legacy⟩ (published.commit sampleMapping r) [3, 4] =
        tryLookup ⟨sampleMapping, .legacy⟩ published [3, 4] := by
  have hpublish : (IndexBuilder.ofInsertions .legacy sampleShared).publish sampleMapping .empty =
      .ok 117 _ := Attempt.eq_ok_of_perform (by decide +kernel)
  obtain ⟨bytes, _, find, hencode, _, _, _, hfind, hcorrupted⟩ := tryLookup_of_corrupted hpublish
  obtain rfl : bytes = sampleSharedBytes := by
    rw [sampleSharedBytes, hencode]
    rfl
  have hroot : Trie.edgeIn sampleSharedBytes 0 = [] := by decide +kernel
  have hedge : Trie.edgeIn sampleSharedBytes 45 = [8, 9] := by decide +kernel
  have hstart : Trie.edgeStartIn sampleSharedBytes 45 = 63 := by decide +kernel
  have hslot : ⟨7, 45⟩ ∈ Trie.slotsIn sampleSharedBytes 0 := by decide +kernel
  have hspells := Trie.Spells.child .root hslot
  rw [hroot] at hspells
  have hnode := hcorrupted 45 [7] hspells
  simp only [hedge, hstart] at hnode
  obtain ⟨r, hwrite, hlookup, _⟩ := hnode 1 (by simp) 5 (by simp)
  refine ⟨117, _, r, hpublish, hwrite, ?_, ?_, ?_⟩
  · rw [hlookup]
    rfl
  · rw [hlookup, hfind]
    rfl
  · rw [hlookup, hfind]
    rfl

end Index

end Columnlet

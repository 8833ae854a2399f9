import Columnlet.Proofs.Index.Path

/-! # The reads of a lookup

A lookup told apart into the reads that it makes, one after another, and what it does with their
answers. A computation of this kind cannot but fail at the first read that leaves the region, and
cannot depend on bytes that it does not read. -/

namespace Columnlet.Index

variable {n : Nat} {α β : Type}

/-! ## Computations that read a trie -/

/-- A read of some bytes of the trie, and what it means if they are not all there. -/
structure Access where
  offset : Nat
  width : Nat
  cause : Malformation
  deriving DecidableEq, Repr

namespace Access

/-- Where the bytes end, counted from the start of the region. -/
def stop (a : Access) : Nat := headerSize + a.offset + a.width

/-- The error of a read that ends past the region. -/
def error (a : Access) : Error := .malformedIndex a.offset a.cause

/-- What the read answers. -/
def read? (a : Access) (r : Region n) : Option Bytes := r.read? (headerSize + a.offset) a.width

theorem read?_eq_none_iff {a : Access} {r : Region n} : a.read? r = none ↔ n < a.stop := by
  simp [read?, stop, Region.read?]

theorem read?_isSome_iff {a : Access} {r : Region n} : (a.read? r).isSome ↔ a.stop ≤ n :=
  r.read?_isSome_iff (headerSize + a.offset) a.width

end Access

/-- What a walk has come to know. -/
inductive Mark where
  /-- A node is visited, with a count of bytes of the key matched before it. -/
  | visit (node matched : Nat)
  /-- The edge of the node begins at an offset. -/
  | edge (start : Nat)
  /-- The key goes on with the edge, up to a count of bytes. -/
  | matched (count : Nat)
  deriving DecidableEq, Repr

/-- What happens in the course of a walk. -/
inductive Event where
  | mark (m : Mark)
  | access (a : Access)
  deriving DecidableEq, Repr

/-- Whether a node is visited. -/
def Event.isVisit : Event → Bool
  | mark (.visit ..) => true
  | _ => false

/-- A computation that knows of a trie only what it reads of it. -/
inductive Reading (α : Type) where
  | done (answer : α)
  | note (mark : Mark) (rest : Reading α)
  | read (access : Access) (next : Bytes → Reading α)

namespace Reading

/-- Go on with an answer. -/
def bind (x : Reading α) (f : α → Reading β) : Reading β :=
  match x with
  | done answer => f answer
  | note mark rest => note mark (rest.bind f)
  | read access next => read access fun bs => (next bs).bind f

instance : Monad Reading where
  pure := done
  bind := bind

/-- What the computation comes to in a region. -/
def run (r : Region n) : Reading α → Except Error α
  | done answer => .ok answer
  | note _ rest => rest.run r
  | read access next =>
    match access.read? r with
    | some bs => (next bs).run r
    | none => .error access.error

/-- What happens on the way, a read that leaves the region being the last. -/
def events (r : Region n) : Reading α → List Event
  | done _ => []
  | note mark rest => .mark mark :: rest.events r
  | read access next =>
    .access access ::
      match access.read? r with
      | some bs => (next bs).events r
      | none => []

/-- Whatever the reads answer, everything on the way has one property and the answer another. -/
def Ensures (P : Event → Prop) (Q : α → Prop) : Reading α → Prop
  | done answer => Q answer
  | note mark rest => P (.mark mark) ∧ rest.Ensures P Q
  | read access next => P (.access access) ∧ ∀ bs, (next bs).Ensures P Q

@[simp] theorem run_pure (r : Region n) (a : α) : (pure a : Reading α).run r = .ok a := rfl

@[simp] theorem run_bind (r : Region n) (x : Reading α) (f : α → Reading β) :
    (x >>= f).run r = x.run r >>= fun a => (f a).run r := by
  change (x.bind f).run r = _
  induction x with
  | done answer => rfl
  | note mark rest ih => exact ih
  | read access next ih =>
      simp only [bind, run]
      cases access.read? r with
      | none => rfl
      | some bs => exact ih bs

@[simp] theorem run_map (r : Region n) (f : α → β) (x : Reading α) :
    (f <$> x).run r = (x.run r).map f := by
  change (x >>= fun a => pure (f a)).run r = _
  rw [run_bind]
  rfl

theorem events_bind (r : Region n) (x : Reading α) (f : α → Reading β) :
    (x >>= f).events r = x.events r ++
      match x.run r with
      | .ok a => (f a).events r
      | .error _ => [] := by
  change (x.bind f).events r = _
  induction x with
  | done answer => rfl
  | note mark rest ih => exact congrArg (.mark mark :: ·) ih
  | read access next ih =>
      simp only [bind, events, run]
      cases access.read? r with
      | none => rfl
      | some bs => exact congrArg (.access access :: ·) (ih bs)

/-- A computation fails if and only if one of its reads leaves the region. -/
theorem run_eq_error_iff {r : Region n} {x : Reading α} {e : Error} :
    x.run r = .error e ↔ ∃ a, .access a ∈ x.events r ∧ n < a.stop ∧ e = a.error := by
  induction x with
  | done answer => simp [run, events]
  | note mark rest ih =>
      rw [run, ih, events]
      constructor
      · rintro ⟨a, ha, houtside⟩
        exact ⟨a, List.mem_cons_of_mem _ ha, houtside⟩
      · rintro ⟨a, ha, houtside⟩
        exact ⟨a, by simpa using ha, houtside⟩
  | read access next ih =>
      rw [run, events]
      cases hread : access.read? r with
      | none =>
          have hstop := Access.read?_eq_none_iff.mp hread
          simp [hstop, eq_comm]
      | some bs =>
          have hstop := Access.read?_isSome_iff.mp (Option.isSome_of_eq_some hread)
          rw [ih bs]
          constructor
          · rintro ⟨a, ha, houtside⟩
            exact ⟨a, List.mem_cons_of_mem _ ha, houtside⟩
          · rintro ⟨a, ha, houtside⟩
            obtain hfirst | ha := List.mem_cons.mp ha
            · cases hfirst
              omega
            · exact ⟨a, ha, houtside⟩

/-- A computation depends on no bytes besides those that its reads answer. -/
theorem run_congr {r s : Region n} {x : Reading α}
    (h : ∀ a, .access a ∈ x.events r → a.stop ≤ n →
      ∀ i, headerSize + a.offset ≤ i → i < a.stop → s.get i = r.get i) :
    x.run s = x.run r := by
  induction x with
  | done answer => rfl
  | note mark rest ih => exact ih fun a ha => h a (List.mem_cons_of_mem _ ha)
  | read access next ih =>
      rw [events] at h
      have hsame : access.read? s = access.read? r := by
        by_cases hstop : access.stop ≤ n
        · exact Region.read?_congr fun i => h access (List.mem_cons_self ..) hstop i
        · rw [Access.read?_eq_none_iff.mpr (by omega), Access.read?_eq_none_iff.mpr (by omega)]
      rw [run, run, hsame]
      cases hread : access.read? r with
      | none => rfl
      | some bs =>
          rw [hread] at h
          exact ih bs fun a ha => h a (List.mem_cons_of_mem _ ha)

theorem Ensures.bind {P : Event → Prop} {Q : α → Prop} {R : β → Prop} {x : Reading α}
    {f : α → Reading β} (hx : x.Ensures P Q) (hf : ∀ a, Q a → (f a).Ensures P R) :
    (x >>= f).Ensures P R := by
  change (x.bind f).Ensures P R
  induction x with
  | done answer => exact hf answer hx
  | note mark rest ih => exact ⟨hx.1, ih hx.2⟩
  | read access next ih => exact ⟨hx.1, fun bs => ih bs (hx.2 bs)⟩

theorem Ensures.mono {P P' : Event → Prop} {Q : α → Prop} {x : Reading α} (hx : x.Ensures P Q)
    (h : ∀ event, P event → P' event) : x.Ensures P' Q := by
  induction x with
  | done answer => exact hx
  | note mark rest ih => exact ⟨h _ hx.1, ih hx.2⟩
  | read access next ih => exact ⟨h _ hx.1, fun bs => ih bs (hx.2 bs)⟩

theorem Ensures.of_run {P : Event → Prop} {Q : α → Prop} {x : Reading α} (hx : x.Ensures P Q)
    {r : Region n} {a : α} (h : x.run r = .ok a) : Q a := by
  induction x with
  | done answer =>
      cases h
      exact hx
  | note mark rest ih => exact ih hx.2 h
  | read access next ih =>
      rw [run] at h
      split at h
      · exact ih _ (hx.2 _) h
      · cases h

theorem Ensures.of_mem {P : Event → Prop} {Q : α → Prop} {x : Reading α} (hx : x.Ensures P Q)
    {r : Region n} {event : Event} (h : event ∈ x.events r) : P event := by
  induction x with
  | done answer => cases h
  | note mark rest ih =>
      obtain rfl | h := List.mem_cons.mp h
      · exact hx.1
      · exact ih hx.2 h
  | read access next ih =>
      rw [events] at h
      obtain rfl | h := List.mem_cons.mp h
      · exact hx.1
      · split at h
        · exact ih _ (hx.2 _) h
        · cases h

/-! ## A lookup as its reads -/

/-- Tell what happens. -/
def tell (mark : Mark) : Reading Unit := note mark (done ())

/-- The bytes of a range of the trie. -/
def bytes (offset width : Nat) : Reading Bytes := read ⟨offset, width, .pastEnd width⟩ done

/-- A number in the trie, most significant byte first. -/
def number (width offset : Nat) : Reading Nat := Bytes.bigNat <$> bytes offset width

/-- The counter at an offset of the trie. -/
def counter (offset : Nat) : Reading UInt32 :=
  read ⟨offset, 4, .counterPastEnd⟩ fun bs => done (.ofNat (Bytes.littleNat bs))

/-- The header of the node at an offset. -/
def header (node : Nat) : Reading NodeHeader := NodeHeader.ofNat <$> number NodeHeader.width node

/-- The offset in the first of `count` child slots that carries a branch byte. -/
def findChild (offset count : Nat) (branch : UInt8) : Reading (Option Nat) :=
  match count with
  | 0 => return none
  | count + 1 => do
    let slot := ChildSlot.ofNat (← number ChildSlot.width offset)
    if slot.branch = branch then return some slot.offset
    findChild (offset + ChildSlot.width) count branch

/-- Whether a key goes on with the edge of a given length. -/
def edgeMatches (offset length : Nat) (key : Bytes) : Reading Bool :=
  if key.length < length then return false
  else if length = 0 then return true
  else (fun edge => edge == key.take length) <$> bytes offset length

/-- The locator in the value slot at an offset. -/
def locator (format : Format) (slot : Nat) : Reading Locator := do
  let offset ← number 8 slot
  match format with
  | .current =>
    let length ← number 4 (slot + 8)
    return { offset := .ofNat offset, length := .ofNat length }
  | .legacy =>
    let insertedAt ← number 8 (slot + 8)
    let length ← number 4 (slot + 16)
    let counterAt := slot + 20
    let accessCount ← counter counterAt
    return {
      offset := .ofNat offset
      length := .ofNat length
      legacy := some { insertedAt := .ofNat insertedAt, accessCount, counterAt }
    }

/-- What a visit to a node comes to, with a count of bytes of a key matched before it. -/
inductive Turn (key : Bytes) (matched : Nat) where
  | finish (found : Option Locator)
  | descend (child next : Nat) (further : matched < next) (within : next ≤ key.length)

/-- The visit, said by what is left of the key. -/
def Turn.visit {key : Bytes} {matched : Nat} : Turn key matched → Visit
  | finish found => .finish found
  | descend child next _ _ => .descend child (key.drop next)

/-- Go on behind the edge of a node, up to which a count of bytes of a key is matched. -/
def proceed (format : Format) (key : Bytes) (node : Nat) (h : NodeHeader) {matched spelled : Nat}
    (onward : matched ≤ spelled) : Reading (Turn key matched) := do
  if hspelled : spelled < key.length then
    match ← findChild (node + NodeHeader.width) h.children key[spelled] with
    | none => return .finish none
    | some child => return .descend child (spelled + 1) (Nat.lt_succ_of_le onward) hspelled
  else if h.hasValue then
    return .finish (some (← locator format (edgeStart node h + h.edgeLength)))
  else return .finish none

/-- Visit a node with a count of bytes of a key matched before it. -/
def inspect (format : Format) (key : Bytes) (node matched : Nat) : Reading (Turn key matched) := do
  let h ← header node
  tell (.edge (edgeStart node h))
  if ← edgeMatches (edgeStart node h) h.edgeLength (key.drop matched) then
    tell (.matched (matched + h.edgeLength))
    proceed format key node h (Nat.le_add_right matched h.edgeLength)
  else return .finish none

/-- Walk on from a node with a count of bytes of a key matched. -/
def walk (format : Format) (key : Bytes) (node matched : Nat) : Reading (Option Locator) := do
  tell (.visit node matched)
  match ← inspect format key node matched with
  | .finish found => return found
  | .descend child next _ _ => walk format key child next
termination_by key.length - matched

/-! ## The parts of a visit -/

@[simp] theorem run_tell (r : Region n) (mark : Mark) : (tell mark).run r = .ok () := rfl

theorem events_tell_bind (r : Region n) (mark : Mark) (f : Unit → Reading α) :
    (tell mark >>= f).events r = .mark mark :: (f ()).events r := rfl

@[simp] theorem run_bytes (r : Region n) (offset width : Nat) :
    (bytes offset width).run r = Index.read r offset width := by
  rw [bytes, run, Index.read, Access.read?]
  cases r.read? (headerSize + offset) width <;> rfl

@[simp] theorem run_number (r : Region n) (width offset : Nat) :
    (number width offset).run r = Index.number r width offset := by
  rw [number, run_map, run_bytes, Index.number]

@[simp] theorem run_counter (r : Region n) (offset : Nat) :
    (counter offset).run r =
      match r.counter? (headerSize + offset) with
      | some count => .ok count
      | none => .error (.malformedIndex offset .counterPastEnd) := by
  rw [counter, run, Region.counter?, Region.little?, Access.read?]
  cases r.read? (headerSize + offset) 4 <;> rfl

@[simp] theorem run_header (r : Region n) (node : Nat) :
    (header node).run r = Index.header r node := by
  rw [header, run_map, run_number, Index.header]

@[simp] theorem run_findChild (r : Region n) (offset count : Nat) (branch : UInt8) :
    (findChild offset count branch).run r = Index.findChild r offset count branch := by
  induction count generalizing offset with
  | zero => rfl
  | succ count ih =>
      rw [findChild, Index.findChild, run_bind, run_number]
      congr 1
      funext k
      simp only
      split
      · rfl
      · exact ih _

@[simp] theorem run_edgeMatches (r : Region n) (offset length : Nat) (key : Bytes) :
    (edgeMatches offset length key).run r = Index.edgeMatches r offset length key := by
  unfold edgeMatches Index.edgeMatches
  split
  · rfl
  · split
    · rfl
    · rw [run_map, run_bytes]

@[simp] theorem run_locator (r : Region n) (format : Format) (slot : Nat) :
    (locator format slot).run r = Index.locator format r slot := by
  cases format with
  | current =>
      simp only [locator, run_bind, run_number, run_pure]
      rfl
  | legacy =>
      simp only [locator, run_bind, run_number, run_counter, run_pure]
      rw [Index.locator]
      congr 1
      funext offset
      congr 1
      funext insertedAt
      congr 1
      funext length
      cases hcount : r.counter? (headerSize + (slot + 20)) with
      | none => simp [hcount]; rfl
      | some count => simp [hcount]; rfl

theorem run_proceed (r : Region n) (format : Format) (key : Bytes) (node : Nat) (h : NodeHeader)
    {matched spelled : Nat} (onward : matched ≤ spelled) :
    ((proceed format key node h onward).run r).map Turn.visit =
      match key.drop spelled with
      | [] =>
        if h.hasValue then
          (Index.locator format r (edgeStart node h + h.edgeLength)).map fun l => .finish (some l)
        else .ok (.finish none)
      | branch :: rest =>
        (Index.findChild r (node + NodeHeader.width) h.children branch).map fun
          | none => .finish none
          | some child => .descend child rest := by
  unfold proceed
  split
  · rename_i hspelled
    rw [List.drop_eq_getElem_cons hspelled, run_bind, run_findChild]
    dsimp only
    cases Index.findChild r (node + NodeHeader.width) h.children key[spelled] with
    | error e => rfl
    | ok found => cases found <;> rfl
  · rename_i hspelled
    rw [List.drop_eq_nil_of_le (Nat.le_of_not_lt hspelled)]
    split
    · rw [run_bind, run_locator]
      cases Index.locator format r (edgeStart node h + h.edgeLength) <;> rfl
    · rfl

/-- What a turn comes to is what the visit of the node comes to with the rest of the key. -/
theorem run_inspect (r : Region n) (format : Format) (key : Bytes) (node matched : Nat) :
    ((inspect format key node matched).run r).map Turn.visit =
      visit format r node (key.drop matched) := by
  simp only [inspect, visit, run_bind, run_header, run_tell, run_edgeMatches]
  cases Index.header r node with
  | error e => rfl
  | ok h =>
      have hedge : node + NodeHeader.width + ChildSlot.width * h.children = edgeStart node h := rfl
      simp only [Bind.bind, Except.bind, hedge]
      cases Index.edgeMatches r (edgeStart node h) h.edgeLength (key.drop matched) with
      | error e => rfl
      | ok fits =>
          cases fits with
          | false => rfl
          | true =>
              have hle : matched ≤ matched + h.edgeLength := Nat.le_add_right ..
              have hproceed := run_proceed r format key node h hle
              rw [List.drop_drop]
              refine hproceed.trans ?_
              cases key.drop (matched + h.edgeLength) with
              | nil =>
                dsimp only
                split
                · cases Index.locator format r (edgeStart node h + h.edgeLength) <;> rfl
                · rfl
              | cons branch rest =>
                dsimp only
                cases Index.findChild r (node + NodeHeader.width) h.children branch with
                | error e => rfl
                | ok found => cases found <;> rfl

/-! ## Walks -/

theorem run_walk (r : Region n) (format : Format) (key : Bytes) (node matched : Nat) :
    (walk format key node matched).run r = lookupFrom format r node (key.drop matched) := by
  fun_induction walk format key node matched with
  | case1 node matched ih =>
      have hvisit := run_inspect r format key node matched
      rw [run_bind, run_tell]
      change run r (inspect format key node matched >>= _) = _
      rw [run_bind]
      cases hturn : (inspect format key node matched).run r with
      | error e =>
          rw [hturn] at hvisit
          exact (lookupFrom_of_error hvisit.symm).symm
      | ok turn =>
          rw [hturn] at hvisit
          cases turn with
          | finish found => exact (lookupFrom_of_finish hvisit.symm).symm
          | descend child next further within =>
              rw [lookupFrom_of_descend hvisit.symm]
              exact ih child next further within

end Reading

end Columnlet.Index

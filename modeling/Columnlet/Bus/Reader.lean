import Columnlet.Bus.Basic

/-!
The reading side of a miss bus. A reader goes from record to record and answers the payloads of
those that are committed and not rolled back. It waits at a record that is reserved and not yet
committed; once it has seen the same record so for its timeout, it rolls the record back and goes
on, so that a writer that died cannot hide the records behind.
-/

namespace Columnlet

/-- Where a reader stands, and which record it waits for since when. -/
structure Cursor where
  position : Nat
  stalled : Option (Nat × Nat) := none
  deriving DecidableEq, Repr

namespace Cursor

/-- In front of the first record. -/
def start : Cursor := { position := Bus.headerSize }

/-- Since when the record at the cursor is known not to be committed, seen so now. -/
def since (c : Cursor) (now : Nat) : Nat :=
  match c.stalled with
  | some (record, since) => if record = c.position then since else now
  | none => now

/-- The cursor, knowing that its record is not committed now. -/
def wait (c : Cursor) (now : Nat) : Cursor := { c with stalled := some (c.position, c.since now) }

/-- The cursor at its record, waiting for nothing. -/
def settle (c : Cursor) : Cursor := { c with stalled := none }

/-- The cursor one record on. -/
def advance (c : Cursor) (stride : Nat) : Cursor := { position := c.position + stride }

end Cursor

namespace Bus

variable {n : Nat}

/-- What a look at the record under a cursor comes to, and where the cursor is then. -/
inductive Look where
  /-- Nothing to answer yet. -/
  | none (cursor : Cursor)
  /-- A payload to answer. -/
  | record (payload : Bytes) (cursor : Cursor)
  /-- A record to step over. -/
  | skip (cursor : Cursor)

/-- Look at the record under a cursor; only a roll back changes the region. Records of no bytes,
which no bus has, are not looked at: a reader would never come past them. -/
def look (stride timeout now : Nat) (c : Cursor) (r : Region n) : Look × Region n :=
  if stride = 0 ∨ (limitIn r).toNat < c.position + stride then (.none c, r)
  else
    match r.aligned? 4 c.position with
    | none => (.none c, r)
    | some commit =>
      if commit ≠ 1 then
        if now - c.since now < timeout then (.none (c.wait now), r)
        else
          match r.write? (c.position + rollbackField) one with
          | none => (.none (c.wait now), r)
          | some r => (.skip (c.advance stride), r)
      else
        match r.little? 4 (c.position + rollbackField), r.little? 4 (c.position + lengthField) with
        | some rollback, some length =>
          if rollback ≠ 0 then (.skip (c.advance stride), r)
          else
            match r.read? (c.position + recordHeaderSize) (min length (payloadRoom stride)) with
            | some payload => (.record payload (c.advance stride), r)
            | none => (.none (c.advance stride), r)
        | _, _ => (.none c.settle, r)

/-- A record to step over begins inside the region, and stepping over it moves the cursor. -/
theorem position_of_look {stride timeout now : Nat} {c next : Cursor}
    {r after : Region n} (h : look stride timeout now c r = (.skip next, after)) :
    c.position < n ∧ c.position < next.position := by
  unfold look at h
  split at h
  · simp at h
  · rename_i hs
    have hstride : 0 < stride := Nat.pos_of_ne_zero fun e => hs (.inl e)
    split at h
    · simp at h
    · rename_i commit hcommit
      have hn : c.position + 4 ≤ n := by
        unfold Region.aligned? Region.little? at hcommit
        split at hcommit
        · obtain ⟨bs, hbs, -⟩ := Option.map_eq_some_iff.1 hcommit
          exact (r.read?_isSome_iff c.position 4).1 (by simp [hbs])
        · simp at hcommit
      have moved : ∀ {x : Cursor}, c.advance stride = x → c.position < x.position := by
        intro x hx
        rw [← hx]
        simp only [Cursor.advance]
        omega
      split at h
      · split at h
        · simp at h
        · split at h
          · simp at h
          · simp only [Prod.mk.injEq, Look.skip.injEq] at h
            exact ⟨by omega, moved h.1⟩
      · split at h
        · split at h
          · simp only [Prod.mk.injEq, Look.skip.injEq] at h
            exact ⟨by omega, moved h.1⟩
          · split at h <;> simp at h
        · simp at h

/-- The next payload at a time, if there is one; where the cursor is left, and the region. -/
def pollIn (stride timeout now : Nat) (c : Cursor) (r : Region n) :
    Option Bytes × Cursor × Region n :=
  match _h : look stride timeout now c r with
  | (.none c, r) => (none, c, r)
  | (.record payload c, r) => (some payload, c, r)
  | (.skip next, r) => pollIn stride timeout now next r
termination_by n - c.position
decreasing_by have := position_of_look _h; omega

/-- The next payloads at a time, up to a count. -/
def drainIn (stride timeout now max : Nat) (c : Cursor) (r : Region n) :
    List Bytes × Cursor × Region n :=
  match max with
  | 0 => ([], c, r)
  | max + 1 =>
    match pollIn stride timeout now c r with
    | (none, c, r) => ([], c, r)
    | (some payload, c, r) =>
      let (payloads, c, r) := drainIn stride timeout now max c r
      (payload :: payloads, c, r)

/-- How long a reader waits for a record unless told otherwise, in milliseconds. -/
def defaultTimeout : Nat := 2000

end Bus

/-! ## Through a window -/

/-- A reader of a bus: its timeout in milliseconds, and where it stands. -/
structure BusReader where
  bus : Bus
  timeout : Nat := Bus.defaultTimeout
  cursor : Cursor := .start
  deriving DecidableEq, Repr

namespace BusReader

/-- Open a bus for reading, from its first record on. -/
def openFile (path : String) (fileSize recordSize : UInt64) (timeout : Nat := Bus.defaultTimeout) :
    Attempt Files BusReader := do
  return { bus := ← Bus.openFile path fileSize recordSize, timeout }

/-- The next payload at a time. -/
def poll (reader : BusReader) (now : Nat) (files : Files) : Option Bytes × BusReader × Files :=
  let (payload, cursor, r) := Bus.pollIn reader.bus.stride reader.timeout now reader.cursor
    (files.view reader.bus.mapping)
  (payload, { reader with cursor }, files.commit reader.bus.mapping r)

/-- The next payloads at a time, up to a count. -/
def drain (reader : BusReader) (now max : Nat) (files : Files) :
    List Bytes × BusReader × Files :=
  let (payloads, cursor, r) := Bus.drainIn reader.bus.stride reader.timeout now max reader.cursor
    (files.view reader.bus.mapping)
  (payloads, { reader with cursor }, files.commit reader.bus.mapping r)

end BusReader

end Columnlet

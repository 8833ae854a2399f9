import Columnlet.Bus.Basic

/-!
The writing side of a miss bus. A writer reserves a record by moving the limit past it, fills it,
and commits it last; a record that cannot be filled is committed as rolled back, so that readers
step over it.
-/

namespace Columnlet.Bus

variable {n : Nat}

/-- Make a bus ready for writing: empty it, or check that its limit stands between records. A bus
that has never been written to gets its first limit. -/
def prepareIn (b : Bus) (append : Bool) : Attempt (Region b.mapping.size) Unit := do
  if append then
    let limit := limitIn (← get)
    if limit = 0 then
      modify (setLimit · headerSize)
    else if limit.toNat < headerSize ∨ b.mapping.size < limit.toNat ∨
        (limit.toNat - headerSize) % b.stride ≠ 0 then
      throw (.config (.limitOffGrid b.mapping.path limit b.recordSize))
  else
    Attempt.changes (·.zero? headerSize (b.mapping.size - headerSize))
      (.config (.busNotCleared b.mapping.path))
    modify (setLimit · headerSize)

/-- Reserve the next record: its offset, if the bus has room for it. -/
def reserveIn (stride : Nat) : Attempt (Region n) Nat := do
  let r ← get
  let record := (limitIn r).toNat
  let next := record + stride
  if n < next then throw .channelFull
  set (setLimit r next)
  return record

/-- What follows the commit word of a record: no rollback, the length, the payload, and zeros. -/
def frame (stride : Nat) (payload : Bytes) : Bytes :=
  let width := stride - 4
  let framed := Bytes.littleEndian 4 0 ++ Bytes.littleEndian 4 payload.length ++ payload
  framed.take width ++ List.replicate (width - framed.length) 0

/-- Fill a reserved record and commit it. -/
def fillIn (stride record : Nat) (payload : Bytes) : Attempt (Region n) Unit := do
  let misaligned := Error.config (.recordMisaligned record)
  let _ ← Attempt.asks (·.aligned? 4 record) misaligned
  Attempt.changes (·.write? (record + rollbackField) (frame stride payload)) .channelFull
  Attempt.changes (·.write? record one) misaligned

/-- Commit a reserved record as rolled back. -/
def abandonIn (record : Nat) (r : Region n) : Region n :=
  match r.write? (record + rollbackField) one with
  | none => r
  | some r => if (r.aligned? 4 record).isSome then (r.write? record one).getD r else r

/-- Add a record. -/
def sendIn (recordSize : UInt64) (stride : Nat) (payload : Bytes) : Attempt (Region n) Unit := do
  if recordSize.toNat < payload.length then
    throw (.recordTooLarge payload.length recordSize.toNat)
  let record ← reserveIn stride
  (fillIn stride record payload).onError (abandonIn record)

/-! ## Through a window -/

/-- Open a bus for writing, keeping its records or not. -/
def openWriter (path : String) (fileSize recordSize : UInt64) (append : Bool) :
    Attempt Files Bus := do
  let b ← openFile path fileSize recordSize
  b.mapping.attempt (b.prepareIn append)
  return b

/-- Add a record to a bus. -/
def send (b : Bus) (payload : Bytes) : Attempt Files Unit :=
  b.mapping.attempt (sendIn b.recordSize b.stride payload)

end Columnlet.Bus

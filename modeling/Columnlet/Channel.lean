import Columnlet.Bus.Writer
import Columnlet.Key

/-!
Miss channels: where keys that a read did not find are reported. A channel is any way to send
bytes that acts on the files and on a state of its own, and that may fail. Three are at hand: one
that drops every report, a miss bus, and a bounded queue.
-/

namespace Columnlet

/-! ## Bounded queues -/

/-- A queue of reports with room for a fixed count of them. -/
structure Queue where
  capacity : Nat
  pending : List Bytes
  closed : Bool
  deriving DecidableEq, Repr

namespace Queue

/-- A queue without reports. -/
def empty (capacity : Nat) : Queue := ⟨capacity, [], false⟩

/-- Add a report at the end, unless nobody listens or there is no room. -/
def send (payload : Bytes) : Attempt Queue Unit := do
  let q ← get
  if q.closed then throw .channelClosed
  if q.capacity ≤ q.pending.length then throw .channelFull
  set { q with pending := q.pending ++ [payload] }

/-- Take the first report. -/
def receive (q : Queue) : Option Bytes × Queue :=
  match q.closed, q.pending with
  | false, payload :: rest => (some payload, { q with pending := rest })
  | _, _ => (none, q)

/-- Stop listening. -/
def close (q : Queue) : Queue := { q with closed := true }

end Queue

/-! ## Channels -/

/-- A way to send reports, acting on the files and on a state of its own. -/
structure MissChannel (σ : Type) where
  send : Bytes → Attempt (Files × σ) Unit

namespace MissChannel

variable {σ : Type}

/-- The channel that drops every report. -/
def discard : MissChannel σ where
  send _ := pure ()

/-- The channel that adds to a bus. -/
def bus (b : Bus) : MissChannel σ where
  send payload := fun (files, own) =>
    match b.send payload files with
    | .ok x files => .ok x (files, own)
    | .error e files => .error e (files, own)

/-- The channel that adds to one of several queues; a queue that is not there is closed. -/
def queue (i : Nat) : MissChannel (Array Queue) where
  send payload := fun (files, queues) =>
    match queues[i]? with
    | none => .error .channelClosed (files, queues)
    | some q =>
      match Queue.send payload q with
      | .ok x q => .ok x (files, queues.setIfInBounds i q)
      | .error e q => .error e (files, queues.setIfInBounds i q)

/-- Report a key that was not found. -/
def report (channel : MissChannel σ) (key : Key) : Attempt (Files × σ) Unit :=
  channel.send key.toBytes

end MissChannel

end Columnlet

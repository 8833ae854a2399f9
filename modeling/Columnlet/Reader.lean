import Columnlet.Bus.Writer
import Columnlet.Channel
import Columnlet.Config
import Columnlet.Content
import Columnlet.Coordinator
import Columnlet.Index.Lookup
import Columnlet.Metrics.Counters

/-!
Reading columnlets. A read is admitted by the coordinator, looks its key up in the index, and
copies the payload out of the content file; a key that is not found, or whose data cannot be
used, is reported to the miss channel. However a read ends, it leaves the coordinator.
-/

namespace Columnlet

/-- What a read comes to. -/
inductive Outcome where
  | hit (payload : Bytes)
  | miss
  | unavailable (reason : Refusal)
  deriving DecidableEq, Repr

namespace Outcome

/-- Whether a read was served. -/
def isHit : Outcome → Bool
  | hit _ => true
  | _ => false

/-- The payload of a read that was served, and nothing otherwise. -/
def payload : Outcome → Bytes
  | hit payload => payload
  | _ => []

end Outcome

/-- A reader of a cache: its index, its content file, and where it reports misses. -/
structure Reader (σ : Type) where
  index : Index
  content : Content
  channel : MissChannel σ

/-- What reads act on: the files, the counts, and the state of the miss channel. -/
structure ReadState (σ : Type) where
  files : Files
  counters : Counters
  own : σ

namespace Reader

variable {σ : Type}

/-- The coordinator at the start of the index. -/
def coordinator (reader : Reader σ) : Coordinator := ⟨reader.index.mapping⟩

/-! ## Opening -/

/-- A reader of parts that are open; the index has to hold the header of a coordinator. -/
def ofParts (index : Index) (content : Content) (channel : MissChannel σ) :
    Except Error (Reader σ) := do
  let _ ← Coordinator.ofMapping index.mapping
  return { index, content, channel }

/-- Where a reader reports misses: to a given channel, else to the bus of its settings, else
nowhere. -/
def openChannel (config : Config) (channel : Option (MissChannel σ)) :
    Attempt Files (MissChannel σ) :=
  match channel, config.missChannel with
  | some channel, _ => pure channel
  | none, some bus => do
    return .bus (← Bus.openWriter bus.path bus.fileSize bus.recordSize bus.append)
  | none, none => pure .discard

/-- Open everything that the settings name, once they are checked. -/
def openWith (config : Config) (channel : Option (MissChannel σ)) : Attempt Files (Reader σ) := do
  Attempt.ofExcept (config.validate.mapError .config)
  let channel ← openChannel config channel
  let content ← Files.openMapping config.content.path config.content.size.toNat
  let index ← Files.openMapping config.index.path config.index.size.toNat
  let index ← Attempt.ofExcept (Index.ofMapping index config.format)
  Attempt.ofExcept (ofParts index ⟨content, config.format⟩ channel)

/-- A reader in a line: the paths of its files, and their layout. -/
def describe (reader : Reader σ) : String :=
  "CacheReader \x7b index: " ++ Text.quote reader.index.mapping.path ++ ", content: " ++
    Text.quote reader.content.mapping.path ++ ", format: " ++ reader.index.format.label ++ " \x7d"

/-! ## Reading -/

/-- Count a miss and report its key; a report that fails is counted too. -/
def reportMiss (reader : Reader σ) (key : Key) (s : ReadState σ) : ReadState σ :=
  let counters := s.counters.miss
  match reader.channel.report key (s.files, s.own) with
  | .ok () (files, own) => { files, own, counters }
  | .error _ (files, own) => { files, own, counters := counters.reportFailure }

/-- Answer a read that has been admitted. -/
def answer (reader : Reader σ) (key : Key) (s : ReadState σ) : Outcome × ReadState σ :=
  match reader.index.tryLookup s.files key.toBytes with
  | .error _ => (.miss, reader.reportMiss key { s with counters := s.counters.malform })
  | .ok none => (.miss, reader.reportMiss key s)
  | .ok (some locator) =>
    match reader.content.read locator s.files with
    | .error _ files =>
      (.miss, reader.reportMiss key { s with files, counters := s.counters.malform })
    | .ok payload files =>
      let files := (reader.index.recordAccess locator files).2
      (.hit payload, { s with files, counters := s.counters.hit payload.length })

/-- Read a columnlet. -/
def read (reader : Reader σ) (key : Key) (s : ReadState σ) : Outcome × ReadState σ :=
  match reader.coordinator.enter s.files with
  | .error reason => (.unavailable reason, { s with counters := s.counters.refuse reason })
  | .ok files =>
    let (outcome, s) := reader.answer key { s with files }
    (outcome, { s with files := reader.coordinator.leave s.files })

end Reader

end Columnlet

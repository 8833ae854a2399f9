import Columnlet.Coordinator

/-!
Counts of what reads came to. Every count is a number of 64 bits and starts again at zero after
the last.
-/

namespace Columnlet

/-- What is counted. -/
inductive Counter where
  | hits
  | misses
  | unavailableWriter
  | unavailableSaturated
  | malformed
  | missReportFailures
  | bytesServed
  deriving DecidableEq, Repr

namespace Counter

/-- All counts, in the order in which they are announced to a registry. -/
def all : List Counter :=
  [hits, misses, unavailableWriter, unavailableSaturated, malformed, missReportFailures,
    bytesServed]

/-- The name of a count in an exposition. -/
def name : Counter → String
  | hits => "columnlet_cache_hits_total"
  | misses => "columnlet_cache_misses_total"
  | unavailableWriter => "columnlet_cache_unavailable_writer_total"
  | unavailableSaturated => "columnlet_cache_unavailable_saturated_total"
  | malformed => "columnlet_cache_malformed_total"
  | missReportFailures => "columnlet_cache_miss_report_failures_total"
  | bytesServed => "columnlet_cache_bytes_served_total"

/-- What a count is of, in a sentence. -/
def help : Counter → String
  | hits => "Reads served from the cache"
  | misses => "Reads not found in the index"
  | unavailableWriter => "Reads refused while a writer rebuilt the index"
  | unavailableSaturated => "Reads refused because the reader count was saturated"
  | malformed => "Lookups aborted on malformed index or content data"
  | missReportFailures => "Miss reports dropped by the miss channel"
  | bytesServed => "Payload bytes returned on hits"

end Counter

/-- The counts of a reader. -/
structure Counters where
  hits : UInt64 := 0
  misses : UInt64 := 0
  unavailableWriter : UInt64 := 0
  unavailableSaturated : UInt64 := 0
  malformed : UInt64 := 0
  missReportFailures : UInt64 := 0
  bytesServed : UInt64 := 0
  deriving DecidableEq, Repr

namespace Counters

/-- One of the counts. -/
def value (c : Counters) : Counter → UInt64
  | .hits => c.hits
  | .misses => c.misses
  | .unavailableWriter => c.unavailableWriter
  | .unavailableSaturated => c.unavailableSaturated
  | .malformed => c.malformed
  | .missReportFailures => c.missReportFailures
  | .bytesServed => c.bytesServed

/-- Count a read that was served with a payload of a length. -/
def hit (c : Counters) (length : Nat) : Counters :=
  { c with hits := c.hits + 1, bytesServed := c.bytesServed + .ofNat length }

/-- Count a read that found nothing. -/
def miss (c : Counters) : Counters := { c with misses := c.misses + 1 }

/-- Count a read that was not admitted. -/
def refuse (c : Counters) : Refusal → Counters
  | .writerActive => { c with unavailableWriter := c.unavailableWriter + 1 }
  | .saturated => { c with unavailableSaturated := c.unavailableSaturated + 1 }

/-- Count a read that met data it could not use. -/
def malform (c : Counters) : Counters := { c with malformed := c.malformed + 1 }

/-- Count a report that its channel refused. -/
def reportFailure (c : Counters) : Counters :=
  { c with missReportFailures := c.missReportFailures + 1 }

/-- The reads that were not admitted. -/
def unavailable (c : Counters) : UInt64 := c.unavailableWriter + c.unavailableSaturated

/-- The part of hits among reads that were admitted, zero if there were none. -/
def hitRatio (c : Counters) : Float :=
  let hits := c.hits.toFloat
  let total := hits + c.misses.toFloat
  if total == 0.0 then 0.0 else hits / total

end Counters

end Columnlet

import Columnlet.Attempt
import Columnlet.Decimal.Shortest
import Columnlet.Metrics.Counters

/-!
Registries of counts, and their text exposition: for each count its help, its type and its value,
in the order of names. A registry takes each name once.
-/

namespace Columnlet

/-- The counts announced so far, each with the number of the counters it is read from. -/
structure Registry where
  collectors : List (Counter × Nat) := []
  deriving DecidableEq, Repr

namespace Registry

/-- Announce one count. -/
def registerOne (source : Nat) (counter : Counter) : Attempt Registry Unit := do
  let registry ← get
  if registry.collectors.any (·.1 = counter) then throw .duplicateCollector
  set { registry with collectors := registry.collectors ++ [(counter, source)] }

/-- Announce all counts of some counters. -/
def register (source : Nat) : Attempt Registry Unit :=
  Counter.all.forM (registerOne source)

/-- The lines of a count. -/
def exposeOne (counter : Counter) (value : UInt64) : String :=
  "# HELP " ++ counter.name ++ " " ++ counter.help ++ "\n" ++
  "# TYPE " ++ counter.name ++ " counter\n" ++
  counter.name ++ " " ++ Decimal.shortest value.toNat ++ "\n"

/-- The text of all announced counts. -/
def expose (registry : Registry) (counters : Nat → Counters) : String :=
  let sorted := registry.collectors.mergeSort fun a b => a.1.name ≤ b.1.name
  String.join (sorted.map fun (counter, source) =>
    exposeOne counter ((counters source).value counter))

end Registry

end Columnlet

/-!
The two layouts of a deployment: where the count of accesses of an entry is kept, and how wide
the slots are in consequence. Nothing in the files names the layout; a configuration fixes it.
-/

namespace Columnlet

/-- Where an entry's access count is kept: in front of its payload, or in its index slot. -/
inductive Format where
  | current
  | legacy
  deriving DecidableEq, Repr

namespace Format

/-- The bytes of a value slot: offset and length, and for `legacy` also a time and a count. -/
def slotSize : Format → Nat
  | current => 12
  | legacy => 24

/-- The bytes of an access count in front of each payload. -/
def counterSize : Format → Nat
  | current => 4
  | legacy => 0

/-- The name of a layout in configurations and reports. -/
def name : Format → String
  | current => "current"
  | legacy => "legacy"

/-- The layout of a given name. -/
def ofName? : String → Option Format
  | "current" => some current
  | "legacy" => some legacy
  | _ => none

theorem ofName?_name (f : Format) : ofName? f.name = some f := by
  cases f <;> rfl

/-- The name of a layout as the constructor it is, for descriptions of values. -/
def label : Format → String
  | current => "Current"
  | legacy => "Legacy"

end Format

end Columnlet

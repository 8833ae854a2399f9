/-!
Numbers as they are spelled with digits, in any base up to 36. A spelling has at least one digit;
zeros in front of it count for nothing.
-/

namespace Columnlet.Text

/-- The value of a digit, letters of either case following the numerals. -/
def digit? (c : Char) : Option Nat :=
  if '0' ≤ c ∧ c ≤ '9' then some (c.toNat - 48)
  else if 'a' ≤ c ∧ c ≤ 'z' then some (c.toNat - 87)
  else if 'A' ≤ c ∧ c ≤ 'Z' then some (c.toNat - 55)
  else none

/-- The value of a digit of a base. -/
def digitOf? (base : Nat) (c : Char) : Option Nat := (digit? c).filter (· < base)

/-- The number that digits spell in a base. -/
def number? (base : Nat) (cs : List Char) : Option Nat :=
  if cs.isEmpty then none else cs.foldlM (fun n c => (digitOf? base c).map (n * base + ·)) 0

end Columnlet.Text

/-!
Whole numbers as a reader of binary floating point sees them: rounded to 53 significant bits, and
written with the fewest significant digits from which the rounded number can be told.
-/

namespace Columnlet.Decimal

/-- A whole number with a significand of at most 53 bits, times a power of two. -/
structure Rounded where
  significand : Nat
  exponent : Nat
  deriving DecidableEq, Repr

namespace Rounded

/-- The number. -/
def value (x : Rounded) : Nat := x.significand <<< x.exponent

/-- The nearest number of 53 significant bits; halfway, the one with an even significand. -/
def ofNat (n : Nat) : Rounded :=
  let exponent := n.log2 - 52
  let unit := 1 <<< exponent
  let quotient := n / unit
  let twice := 2 * (n % unit)
  let up := unit < twice ∨ (unit = twice ∧ quotient % 2 = 1)
  let significand := if up then quotient + 1 else quotient
  if significand = 1 <<< 53 then ⟨1 <<< 52, exponent + 1⟩ else ⟨significand, exponent⟩

/-- Whether a whole number is rounded to `x`. Four times the number is compared with the middles
between `x` and its neighbours; below a power of two the neighbour is half as far. -/
def reads (x : Rounded) (n : Nat) : Bool :=
  let unit := 1 <<< x.exponent
  let below := if x.significand = 1 <<< 52 ∧ 0 < x.exponent then unit else 2 * unit
  let low := 4 * x.value - below
  let high := 4 * x.value + 2 * unit
  if x.significand % 2 = 0 then low ≤ 4 * n && 4 * n ≤ high else low < 4 * n && 4 * n < high

/-- The multiple of a power of ten nearest to `x` among those rounded to `x`, if there is one;
halfway, the greater. -/
def onGrid? (x : Rounded) (zeros : Nat) : Option Nat :=
  let ten := Nat.pow 10 zeros
  let low := x.value / ten * ten
  let high := low + ten
  match x.reads low, x.reads high with
  | true, true => some (if x.value - low < high - x.value then low else high)
  | true, false => some low
  | false, true => some high
  | false, false => none

/-- The number with the fewest significant digits that is rounded to `x`: the first hit on grids
that get finer. -/
def shortestFrom (x : Rounded) : Nat → Nat
  | 0 => x.value
  | zeros + 1 => (x.onGrid? (zeros + 1)).getD (x.shortestFrom zeros)

end Rounded

/-- A whole number in the fewest significant digits that tell its rounding, filled up with zeros. -/
def shortest (n : Nat) : String :=
  toString ((Rounded.ofNat n).shortestFrom 20)

end Columnlet.Decimal

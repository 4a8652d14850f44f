import Bleu.Decimal.Binary
import Bleu.Decimal.Rounding

/-!
# The shortest decimal that reads back

Every real number nearer to a double than to its neighbours reads back as that double. `shortest` takes
from these numbers the one with the fewest digits, and of those the nearest to the double: it goes from
coarse decimal grids to fine ones and stops at the first that has a point among them. On each grid only the
two points around the double matter.
-/
namespace Bleu.Decimal

/-- The decimal `coefficient · 10 ^ exponent`. -/
structure Dec where
  coefficient : Nat
  exponent : Int
deriving DecidableEq, Repr

/-- A value and the bounds of the numbers that read back as it, all over one denominator; `closed` says
whether the bounds themselves belong. -/
structure Interval where
  low : Nat
  value : Nat
  high : Nat
  denominator : Nat
  closed : Bool
deriving DecidableEq, Repr

namespace Interval

/-- The numbers that read back as the double `mantissa · 2 ^ exponent`: half a unit to either side, and a
quarter below a power of two, where the units of the smaller doubles are half as wide. A number half-way
between two doubles reads back as the one with the even mantissa. -/
def around (mantissa : Nat) (exponent : Int) : Interval :=
  let scale := Nat.pow 2 exponent.toNat
  let below := if mantissa = Binary.hiddenBit ∧ Binary.leastExponent < exponent then 1 else 2
  { low := (4 * mantissa - below) * scale
    value := 4 * mantissa * scale
    high := (4 * mantissa + 2) * scale
    denominator := 4 * Nat.pow 2 (-exponent).toNat
    closed := mantissa % 2 = 0 }

/-- The interval with `10 ^ exponent` as the unit. -/
def inUnits (i : Interval) (exponent : Int) : Interval :=
  let finer := Nat.pow 10 (-exponent).toNat
  { i with
    low := i.low * finer
    value := i.value * finer
    high := i.high * finer
    denominator := i.denominator * Nat.pow 10 exponent.toNat }

/-- Whether a whole number of units lies in the interval. -/
def contains (i : Interval) (n : Nat) : Bool :=
  let point := n * i.denominator
  if i.closed then i.low ≤ point && point ≤ i.high else i.low < point && point < i.high

/-- The nearest whole number in the interval, if one of the value's two neighbours lies there. -/
def nearest? (i : Interval) (tie : Tie) : Option Nat :=
  let below := i.value / i.denominator
  match i.contains below, i.contains (below + 1) with
  | true, true => some (roundDiv i.value i.denominator tie)
  | true, false => some below
  | false, true => some (below + 1)
  | false, false => none

end Interval

/-- A decimal exponent above that of every number near `mantissa · 2 ^ exponent`; it exceeds the least such
by two at most. -/
def coarsest (mantissa : Nat) (exponent : Int) : Int :=
  ((mantissa.log2 : Int) + 1 + exponent) * 30103 / 100000 + 1

/-- How many grids are tried; seventeen digits always suffice, and the search starts two grids early. -/
def gridLimit : Nat := 20

/-- The search through `fuel` grids from `10 ^ exponent` on, each ten times finer. -/
def search (i : Interval) (tie : Tie) (exponent : Int) : Nat → Dec
  | 0 => ⟨roundDiv (i.inUnits exponent).value (i.inUnits exponent).denominator tie, exponent⟩
  | fuel + 1 =>
    match (i.inUnits exponent).nearest? tie with
    | some n => ⟨n, exponent⟩
    | none => search i tie (exponent - 1) fuel

/-- The shortest decimal that reads back as `mantissa · 2 ^ exponent`. -/
def shortest (mantissa : Nat) (exponent : Int) (tie : Tie) : Dec :=
  if mantissa = 0 then ⟨0, 0⟩
  else search (.around mantissa exponent) tie (coarsest mantissa exponent) gridLimit

example : shortest 1 (-1074) .even = ⟨5, -324⟩ := by decide +kernel
example : shortest (2 ^ 52) (-52) .even = ⟨1, 0⟩ := by decide +kernel
example : shortest 5404319552844595 (-53) .up = ⟨6, -1⟩ := by decide +kernel
example : (shortest (2 ^ 52) (-77) .up).coefficient = (shortest (2 ^ 52) (-77) .even).coefficient + 1 := by
  decide +kernel

end Bleu.Decimal

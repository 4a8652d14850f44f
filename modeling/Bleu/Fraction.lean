import Bleu.Fault

/-!
# Fractions of matches

A precision is kept as the unreduced fraction of matched among counted n-grams, so that no comparison depends
on rounding. The fraction `0/0` marks an order that the hypothesis is too short for; `Fraction.compare` puts it
below every other one and orders the others by value.
-/
namespace Bleu

/-- An unreduced fraction of natural numbers; over zero only as `0/0`. -/
structure Fraction where
  numerator : Nat
  denominator : Nat
  numerator_eq_zero : denominator = 0 → numerator = 0 := by omega
deriving DecidableEq, Repr

namespace Fraction

/-- The precision of an order that does not apply. -/
def notApplicable : Fraction where
  numerator := 0
  denominator := 0

def ofPos (numerator denominator : Nat) (pos : 0 < denominator) : Fraction where
  numerator := numerator
  denominator := denominator

def ofNats (numerator denominator : Nat) : Except Fault Fraction :=
  if pos : 0 < denominator then .ok (ofPos numerator denominator pos) else .error .zeroDenominator

/-- Whether the fraction is the precision of an order that applies. -/
def isApplicable (f : Fraction) : Bool := 0 < f.denominator

/-- Whether the fraction applies and is zero. -/
def isZero (f : Fraction) : Bool := f.isApplicable && f.numerator == 0

/-- Orders fractions by value, comparing the products across. -/
def compare (a b : Fraction) : Ordering :=
  match a.isApplicable, b.isApplicable with
  | false, false => .eq
  | false, true => .lt
  | true, false => .gt
  | true, true => Ord.compare (a.numerator * b.denominator) (b.numerator * a.denominator)

def same (a b : Fraction) : Bool := a.compare b == .eq

/-- The greater of two fractions, the second of two equal ones. -/
def max (a b : Fraction) : Fraction := if a.compare b = .gt then a else b

/-- The smaller of two fractions, the first of two equal ones. -/
def min (a b : Fraction) : Fraction := if a.compare b = .gt then b else a

/-- Fractions in ascending order; equal ones keep their places. -/
def sort (fs : List Fraction) : List Fraction := fs.mergeSort fun a b => a.compare b != .gt

/-- The quotient of numerator and denominator as doubles; not a number if the fraction does not apply. -/
def toFloat (f : Fraction) : Float := Float.ofNat f.numerator / Float.ofNat f.denominator

def text (f : Fraction) : String := s!"{f.numerator}/{f.denominator}"

end Fraction

end Bleu

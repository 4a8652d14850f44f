import Bleu.Decimal.Shortest

/-!
# Writing doubles

A `Notation` settles what the digits leave open: where the decimal point may stand, whether a whole number
gets a fraction, which of two equally near decimals is taken, and how values that are not numbers read.
`write` prints the shortest decimal in a notation, `writePlaces` a fixed number of decimal places.
-/
namespace Bleu.Decimal

structure Notation where
  /-- Whether a number is written without an exponent, by the place of its decimal point: the number of
  digits in front of the point, or minus the number of zeros after it. -/
  positional : Int → Bool
  /-- What follows the digits of a whole number that is written without an exponent. -/
  wholeSuffix : String
  /-- What stands in front of an exponent that is not negative. -/
  plusSign : String
  nan : String
  infinity : Bool → String
  tie : Tie

def digits (n : Nat) : List Char := Nat.toDigits 10 n

/-- A decimal number of digits in front of the point, then the point and the rest, with zeros where the
point lies outside the digits. -/
def placed (ds : List Char) (point : Int) (wholeSuffix : List Char) : List Char :=
  if point ≤ 0 then '0' :: '.' :: (List.replicate (-point).toNat '0' ++ ds)
  else if ds.length ≤ point.toNat then ds ++ List.replicate (point.toNat - ds.length) '0' ++ wholeSuffix
  else ds.take point.toNat ++ '.' :: ds.drop point.toNat

/-- One digit in front of the point, the rest after it, and the exponent. -/
def scientific (ds : List Char) (point : Int) (plusSign : List Char) : List Char :=
  let exponent := point - 1
  let sign := if exponent < 0 then ['-'] else plusSign
  let fraction := if ds.length ≤ 1 then [] else '.' :: ds.drop 1
  ds.take 1 ++ fraction ++ 'e' :: (sign ++ digits exponent.natAbs)

def Dec.write (d : Dec) (n : Notation) : List Char :=
  if d.coefficient = 0 then '0' :: n.wholeSuffix.toList
  else
    let ds := digits d.coefficient
    let point := ds.length + d.exponent
    if n.positional point then placed ds point n.wholeSuffix.toList else scientific ds point n.plusSign.toList

def signed (negative : Bool) (text : List Char) : String :=
  String.ofList (if negative then '-' :: text else text)

/-- A double in a notation, with the fewest digits that read back. -/
def write (n : Notation) (x : Float) : String :=
  match Binary.ofFloat x with
  | .nan => n.nan
  | .infinite negative => n.infinity negative
  | .finite negative mantissa exponent => signed negative ((shortest mantissa exponent n.tie).write n)

/-- The text of an infinity outside JSON. -/
def infinityText (negative : Bool) : String := if negative then "-inf" else "inf"

/-- Messages and reports write every number without an exponent. -/
def plainNotation : Notation where
  positional _ := true
  wholeSuffix := ""
  plusSign := ""
  nan := "NaN"
  infinity := infinityText
  tie := .up

/-- Listings of a scorer's settings mark doubles by a point or an exponent, the latter below 0.0001 and from
10^16 on. -/
def markedNotation : Notation where
  positional point := -3 ≤ point && point ≤ 16
  wholeSuffix := ".0"
  plusSign := ""
  nan := "NaN"
  infinity := infinityText
  tie := .up

/-- JSON marks doubles in the same way, with an exponent that has a sign, and below 0.00001 instead; it has no number
for the others. -/
def jsonNotation : Notation where
  positional point := -4 ≤ point && point ≤ 16
  wholeSuffix := ".0"
  plusSign := "+"
  nan := "null"
  infinity _ := "null"
  tie := .even

def plain (x : Float) : String := write plainNotation x

/-- A natural number of units with the last `places` digits after the point. -/
def withPlaces (units places : Nat) : List Char :=
  if places = 0 then digits units
  else
    let ds := digits units
    let padded := List.replicate (places + 1 - ds.length) '0' ++ ds
    let whole := padded.length - places
    padded.take whole ++ '.' :: padded.drop whole

/-- A double with a fixed number of decimal places: its exact value rounded, a half to the even digit. -/
def writePlaces (places : Nat) (x : Float) : String :=
  match Binary.ofFloat x with
  | .nan => plainNotation.nan
  | .infinite negative => infinityText negative
  | .finite negative mantissa exponent =>
    let scaled := mantissa * Nat.pow 2 exponent.toNat * Nat.pow 10 places
    signed negative (withPlaces (roundDiv scaled (Nat.pow 2 (-exponent).toNat) .even) places)

end Bleu.Decimal

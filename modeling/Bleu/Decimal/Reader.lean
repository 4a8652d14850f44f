import Bleu.Decimal.Binary

/-!
# Reading doubles

A number is an optional sign and then digits with at most one point, a digit on at least one side of it, and
an optional exponent; or `inf`, `infinity` or `nan` in any case. `readFloat` gives the double nearest to the
number, as `ofDecimal` does for any decimal.
-/
namespace Bleu.Decimal

inductive ReadFault
  | empty
  | invalid
deriving DecidableEq, Repr

def ReadFault.message : ReadFault → String
  | .empty => "cannot parse float from empty string"
  | .invalid => "invalid float literal"

/-- The value of a list of digits, after a number `start`. -/
def valueFrom (start : Nat) (ds : List Char) : Nat :=
  ds.foldl (fun n c => 10 * n + (c.toNat - '0'.toNat)) start

def valueOf (ds : List Char) : Nat := valueFrom 0 ds

/-- A power of ten above every double. -/
def infiniteExponent : Int := 400

/-- A power of ten so small that everything below it is nearest to zero. -/
def zeroExponent : Int := -400

/-- The double nearest to `± coefficient · 10 ^ exponent`, `width` being a number of digits that the
coefficient does not exceed. Exponents that settle the answer are not multiplied out. -/
def ofDecimal (negative : Bool) (coefficient width : Nat) (exponent : Int) : Float :=
  let magnitude : Float :=
    if coefficient = 0 ∨ width + exponent < zeroExponent then 0.0
    else if infiniteExponent < exponent then 1.0 / 0.0
    else OfScientific.ofScientific coefficient (exponent < 0) exponent.natAbs
  if negative then -magnitude else magnitude

/-- An optional sign: whether it is a minus, and what follows. -/
def takeSign : List Char → Bool × List Char
  | '-' :: rest => (true, rest)
  | '+' :: rest => (false, rest)
  | rest => (false, rest)

/-- An exponent mark with its number, at the end of the text; no text stands for exponent zero. -/
def readExponent? : List Char → Option Int
  | [] => some 0
  | mark :: rest =>
    let (negative, ds) := takeSign rest
    if (mark = 'e' ∨ mark = 'E') ∧ ds ≠ [] ∧ ds.all Char.isDigit then
      some (if negative then -(valueOf ds : Int) else valueOf ds)
    else none

/-- The number of a text without its sign. -/
def readMagnitude? (negative : Bool) (text : List Char) : Option Float :=
  let whole := text.takeWhile Char.isDigit
  let rest := text.dropWhile Char.isDigit
  let (fraction, rest) :=
    match rest with
    | '.' :: after => (after.takeWhile Char.isDigit, after.dropWhile Char.isDigit)
    | _ => ([], rest)
  let ds := whole ++ fraction
  if ds.isEmpty then none
  else (readExponent? rest).map fun exponent =>
    ofDecimal negative (valueOf ds) ds.length (exponent - fraction.length)

/-- The infinities and the value that is not a number, by name. -/
def readNamed? (negative : Bool) (text : List Char) : Option Float :=
  match String.ofList (text.map Char.toLower) with
  | "inf" | "infinity" => some (if negative then -1.0 / 0.0 else 1.0 / 0.0)
  | "nan" => some (0.0 / 0.0)
  | _ => none

/-- The double nearest to the number that a text spells. -/
def readFloat (text : List Char) : Except ReadFault Float :=
  if text.isEmpty then .error .empty
  else
    let (negative, rest) := takeSign text
    match (readNamed? negative rest).or (readMagnitude? negative rest) with
    | some x => .ok x
    | none => .error .invalid

end Bleu.Decimal

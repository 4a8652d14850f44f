import Bleu.Elementary
import Bleu.Fraction
import Bleu.Text.Blank

/-!
# Smoothing

One order without a match makes the geometric mean of the precisions zero. A smoothing method gives such orders a
substitute. Scoring takes any `Smoother`; `Smoothing` lists the methods that have a name.
-/
namespace Bleu

/-- A function from the precisions of the orders from one on, and the hypothesis's length, to the numbers whose
logarithms are averaged. -/
structure Smoother where
  name : String
  smooth : List Fraction → Nat → List Float

inductive Smoothing
  /-- Precisions as they are. -/
  | none
  /-- A fixed numerator in place of zero. -/
  | epsilon (epsilon : Float)
  /-- One more match and one more window in every order above the first. -/
  | addOne
  /-- Half, a quarter, an eighth … of a match in place of zero. -/
  | exponential
  /-- The same, times the logarithm of the hypothesis's length over `k`. -/
  | lengthScaled (k : Float)
deriving DecidableEq, BEq, Repr

namespace Smoothing
variable [Elementary]

/-- The numerator in place of zero unless another is set. -/
def defaultEpsilon : Float := 0.1

/-- The divisor of the length term unless another is set. -/
def defaultK : Float := 5

/-- The methods with their default parameters. -/
def all : List Smoothing := [none, epsilon defaultEpsilon, addOne, exponential, lengthScaled defaultK]

def name : Smoothing → String
  | none => "none"
  | epsilon _ => "epsilon"
  | addOne => "add-one"
  | exponential => "exponential"
  | lengthScaled _ => "length-scaled"

def numberedName : Smoothing → String
  | none => "method0"
  | epsilon _ => "method1"
  | addOne => "method2"
  | exponential => "method3"
  | lengthScaled _ => "method4"

def description : Smoothing → String
  | none => "no smoothing; any unmatched order scores 0"
  | epsilon _ => "replace zero match counts with epsilon"
  | addOne => "add one to counts of orders above unigrams"
  | exponential => "halve the substitute for each successive zero order"
  | lengthScaled _ => "exponential substitutes scaled by ln(hypothesis length) / k"

def text : Smoothing → String
  | epsilon value => s!"epsilon ({Decimal.plain value})"
  | lengthScaled k => s!"length-scaled (k = {Decimal.plain k})"
  | method => method.name

def isParameter (value : Float) : Bool := value.isFinite && 0 < value

def validate : Smoothing → Except Fault Unit
  | epsilon value => if isParameter value then .ok () else .error (.parameterNotPositive .epsilon value)
  | lengthScaled k => if isParameter k then .ok () else .error (.parameterNotPositive .k k)
  | _ => .ok ()

/-- The method with a name or numbered name, in any case and with blanks around it. -/
def ofName (text : String) : Except Fault Smoothing :=
  match all.find? fun method => [method.name, method.numberedName].contains (Text.normalName text) with
  | some method => .ok method
  | Option.none => .error (.unknownSmoothing text)

/-- The power of two with a natural exponent. -/
def powerOfTwo : Nat → Float
  | 0 => 1
  | n + 1 => 2 * powerOfTwo n

/-- Gives every order without matches the value of `substitute` at its place among these orders and at its number
of windows, and every other order its precision; `unmatched` orders have gone before. Their number
stays below `2 ^ 31`, as that of the precisions does. -/
def substituteFrom (substitute : Nat → Float → Float) (unmatched : Nat) : List Fraction → List Float
  | [] => []
  | p :: rest =>
    if p.numerator = 0 then
      substitute (unmatched + 1) (Float.ofNat p.denominator) :: substituteFrom substitute (unmatched + 1) rest
    else p.toFloat :: substituteFrom substitute unmatched rest

/-- One more than a count. Counts are words, and after the greatest one comes zero. -/
def nextCount (count : Nat) : Nat := (count + 1) % Decimal.wordSize

/-- The precision with one more match and one more window. -/
def plusOne (p : Fraction) : Float := Float.ofNat (nextCount p.numerator) / Float.ofNat (nextCount p.denominator)

/-- The smoothed precisions of a hypothesis of a given length. -/
def smooth (method : Smoothing) (precisions : List Fraction) (length : Nat) : List Float :=
  match method with
  | none => precisions.map Fraction.toFloat
  | epsilon value => substituteFrom (fun _ windows => value / windows) 0 precisions
  | addOne =>
    match precisions with
    | [] => []
    | unigrams :: others => unigrams.toFloat :: others.map plusOne
  | exponential => substituteFrom (fun z windows => 1 / (powerOfTwo z * windows)) 0 precisions
  | lengthScaled k =>
    if 1 < length then
      substituteFrom (fun z windows => Elementary.log (Float.ofNat length) / (powerOfTwo z * k) / windows) 0
        precisions
    else precisions.map Fraction.toFloat

def smoother (method : Smoothing) : Smoother where
  name := method.name
  smooth := method.smooth

end Smoothing

instance : Inhabited Smoothing := ⟨.none⟩

end Bleu

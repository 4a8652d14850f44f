import Bleu.Decimal.Notation
import Bleu.Decimal.Reader

/-!
# What can go wrong with a score

Misuse is reported at once, each cause with the values that show it. Degenerate inputs, an empty hypothesis
or one without any match, are no faults: they score 0.
-/
namespace Bleu

inductive OsFault
  | notFound
  | notFolder
  | isFolder
  | nameTooLong
  | nulInPath
  | notUtf8
  | other (words : String)
deriving DecidableEq, Repr

def OsFault.message : OsFault → String
  | .notFound => "No such file or directory (os error 2)"
  | .notFolder => "Not a directory (os error 20)"
  | .isFolder => "Is a directory (os error 21)"
  | .nameTooLong => "File name too long (os error 36)"
  | .nulInPath => "file name contained an unexpected NUL byte"
  | .notUtf8 => "stream did not contain valid UTF-8"
  | .other words => words

inductive SmoothingParameter
  | epsilon
  | k
deriving DecidableEq, Repr

def SmoothingParameter.name : SmoothingParameter → String
  | .epsilon => "epsilon"
  | .k => "k"

/-- Why a score, or what it is computed with, is refused. -/
inductive Fault
  | zeroDenominator
  | emptyReferences
  | invalidOrder (order : Nat)
  | emptyWeights
  | invalidWeight (index : Nat) (value : Float)
  /-- Weights of the usable orders that sum to zero. -/
  | unresolvableWeights (usable : Nat)
  /-- More orders than a list of weights has room for. -/
  | noRoomForWeights (orders : Nat)
  | parameterNotPositive (parameter : SmoothingParameter) (value : Float)
  /-- A smoothing function that does not give one value per order. -/
  | wrongValueCount (method : String) (returned usable : Nat)
  /-- Hypotheses and reference sets that do not pair up. -/
  | lengthMismatch (hypotheses references : Nat)
  | orderDisagrees (maxOrder weights : Nat)
  | unreadableWeight (text : String) (cause : Decimal.ReadFault)
  | unknownSmoothing (name : String)
  | unknownTokenizer (name : String)
  | unreadableSettings
  | unreadableFile (cause : OsFault)
deriving DecidableEq, Repr

def Fault.message : Fault → String
  | zeroDenominator => "rational number denominator must be positive"
  | emptyReferences => "at least one reference is required"
  | invalidOrder order => s!"invalid n-gram order {order}: orders start at 1"
  | emptyWeights => "weight vector must not be empty"
  | invalidWeight index value =>
    s!"invalid weight {Decimal.plain value} at index {index}: weights must be finite and non-negative"
  | unresolvableWeights usable => s!"weights for the first {usable} orders sum to zero"
  | noRoomForWeights _ => "capacity overflow"
  | parameterNotPositive parameter value =>
    s!"invalid smoothing parameter: {parameter.name} must be positive, got {Decimal.plain value}"
  | wrongValueCount method returned usable =>
    s!"invalid smoothing parameter: {method} returned {returned} values for {usable} orders"
  | lengthMismatch hypotheses references =>
    s!"corpus has {hypotheses} hypotheses but {references} reference sets"
  | orderDisagrees maxOrder weights =>
    s!"configuration error: max_order {maxOrder} disagrees with {weights} weights"
  | unreadableWeight text cause => s!"configuration error: invalid weight '{text}': {cause.message}"
  | unknownSmoothing name => s!"configuration error: unknown smoothing method '{name}'"
  | unknownTokenizer name => s!"configuration error: unknown tokenizer '{name}'"
  | unreadableSettings => "configuration error: failed to parse scorer config: "
  | unreadableFile cause => s!"I/O error: {cause.message}"

/-- Whether a fault is not reported to whoever called, but ends the program on the spot. -/
def Fault.isBreakdown : Fault → Bool
  | noRoomForWeights _ => true
  | _ => false

end Bleu

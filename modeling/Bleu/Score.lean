import Bleu.Brevity
import Bleu.Precision
import Bleu.Smoothing
import Bleu.Weights

/-!
# Scores

The score of a hypothesis is the weighted geometric mean of its smoothed precisions, times the brevity penalty.
`aggregate` computes it from the precisions, however these were counted; `Score.ofSentence` counts one hypothesis
against its references.
-/
namespace Bleu
variable [Elementary]

structure Score where
  score : Float
  /-- The precisions of the orders from one on. -/
  precisions : List Fraction
  /-- The smoothed precisions; none when the score was settled before. -/
  smoothed : List Float
  weights : List Float
  brevityPenalty : Float
  hypothesisLength : Nat
  referenceLength : Nat
deriving DecidableEq, Repr

/-- The highest order that was scored. -/
def Score.maxOrder (s : Score) : Nat := s.precisions.length

/-- Adds up the weighted logarithms of the precisions that have a positive weight; nothing as soon as a precision
is not positive, whatever its weight. -/
def weightedLog? (sum : Float) : List (Float × Float) → Option Float
  | [] => some sum
  | (weight, precision) :: rest =>
    if precision ≤ 0 || precision.isNaN then none
    else weightedLog? (if 0 < weight then sum + weight * Elementary.log precision else sum) rest

/-- The weights to apply to a number of orders: the given ones cut to these orders, or the same for each. The precisions
of these orders are there already and take more room, so that there is room for the weights. -/
def applicableWeights (weights : Option Weights) (usable : Nat) : Except Fault Weights :=
  match weights with
  | some weights => weights.restrict usable
  | none => Weights.even usable

/-- The score of precisions and lengths. Without precisions, or without matches in order one, it is zero before any
smoothing. -/
def aggregate (precisions : List Fraction) (hypothesisLength referenceLength : Nat) (weights : Option Weights)
    (smoother : Smoother) : Except Fault Score := do
  let penalty := brevityPenalty referenceLength hypothesisLength
  let zero : Score :=
    { score := 0, precisions, smoothed := [], weights := [], brevityPenalty := penalty, hypothesisLength,
      referenceLength }
  match precisions with
  | [] => return zero
  | unigrams :: _ =>
    let usable := precisions.length
    let applied ← applicableWeights weights usable
    let weighted := { zero with weights := applied.values }
    if unigrams.isZero then return weighted
    let smoothed := smoother.smooth precisions hypothesisLength
    if smoothed.length ≠ usable then throw (.wrongValueCount smoother.name smoothed.length usable)
    match weightedLog? 0 (applied.values.zip smoothed) with
    | none => return { weighted with smoothed }
    | some sum => return { weighted with smoothed, score := penalty * Elementary.exp sum }

/-- The highest order that weights ask for. -/
def scoredOrder (weights : Option Weights) : Nat := weights.elim Weights.defaultMaxOrder Weights.maxOrder

def Score.ofSentence {α : Type} [DecidableEq α] (references : List (List α)) (hypothesis : List α)
    (weights : Option Weights) (smoother : Smoother) : Except Fault Score := do
  let referenceLength ← closestLength hypothesis.length (references.map List.length)
  let precisions ← modifiedPrecisions references hypothesis (scoredOrder weights)
  aggregate precisions hypothesis.length referenceLength weights smoother

end Bleu

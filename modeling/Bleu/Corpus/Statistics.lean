import Bleu.Score

/-!
# Corpus statistics

A corpus is scored once, from the sums of what was counted in its pairs. The sums can be formed in any grouping:
`Statistics.combine` adds element by element, and `Statistics.identity` changes nothing.
-/
namespace Bleu
variable {α : Type} [DecidableEq α] [Elementary]

/-- Sums over sentence pairs: matches and windows of the orders from one on, lengths, and the number of pairs. -/
structure Statistics where
  matched : List Nat
  totals : List Nat
  hypothesisLength : Nat
  referenceLength : Nat
  sentences : Nat
deriving DecidableEq, Repr

/-- Adds the first `orders` entries of two lists; beyond its end a list counts zero. -/
def addPadded (orders : Nat) (xs ys : List Nat) : List Nat :=
  (List.range orders).map fun i => xs.getD i 0 + ys.getD i 0

namespace Statistics

def identity : Statistics where
  matched := []
  totals := []
  hypothesisLength := 0
  referenceLength := 0
  sentences := 0

def ofPair (references : List (List α)) (hypothesis : List α) (maxOrder : Nat) : Except Fault Statistics := do
  let referenceLength ← closestLength hypothesis.length (references.map List.length)
  let precisions ← modifiedPrecisions references hypothesis maxOrder
  return {
    matched := precisions.map Fraction.numerator
    totals := precisions.map Fraction.denominator
    hypothesisLength := hypothesis.length
    referenceLength
    sentences := 1 }

/-- The statistics of two groups of pairs together, up to the highest order that either has windows of. -/
def combine (a b : Statistics) : Statistics :=
  let orders := max a.totals.length b.totals.length
  { matched := addPadded orders a.matched b.matched
    totals := addPadded orders a.totals b.totals
    hypothesisLength := a.hypothesisLength + b.hypothesisLength
    referenceLength := a.referenceLength + b.referenceLength
    sentences := a.sentences + b.sentences }

/-- The quotients of matches and windows, up to the first order without windows. -/
def quotients (s : Statistics) : Except Fault (List Fraction) :=
  ((s.matched.zip s.totals).takeWhile fun counts => 0 < counts.2).mapM fun counts => Fraction.ofNats counts.1 counts.2

/-- The precisions of the orders that some hypothesis reaches; none if a quotient cannot be formed. -/
def precisions (s : Statistics) : List Fraction := s.quotients.toOption.getD []

def score (s : Statistics) (weights : Option Weights) (smoother : Smoother) : Except Fault Score := do
  aggregate (← s.quotients) s.hypothesisLength s.referenceLength weights smoother

/-- The statistics of pairs, added up from left to right. -/
def ofPairs (maxOrder : Nat) (pairs : List (List (List α) × List α)) : Except Fault Statistics :=
  pairs.foldlM (fun sum pair => do return sum.combine (← ofPair pair.1 pair.2 maxOrder)) identity

end Statistics

/-- Pairs every reference set with its hypothesis. -/
def alignPairs {ρ η : Type} (referenceSets : List ρ) (hypotheses : List η) : Except Fault (List (ρ × η)) :=
  if referenceSets.length = hypotheses.length then .ok (referenceSets.zip hypotheses)
  else .error (.lengthMismatch hypotheses.length referenceSets.length)

def Statistics.ofCorpus (referenceSets : List (List (List α))) (hypotheses : List (List α)) (maxOrder : Nat) :
    Except Fault Statistics := do
  Statistics.ofPairs maxOrder (← alignPairs referenceSets hypotheses)

def Score.ofCorpus (referenceSets : List (List (List α))) (hypotheses : List (List α)) (weights : Option Weights)
    (smoother : Smoother) : Except Fault Score := do
  (← Statistics.ofCorpus referenceSets hypotheses (scoredOrder weights)).score weights smoother

end Bleu

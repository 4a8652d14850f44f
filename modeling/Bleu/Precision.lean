import Bleu.Fraction
import Bleu.Ngram.Counts

/-!
# Modified precision

The modified precision of an order is the fraction of a hypothesis's n-grams that match the references, where
an n-gram matches no more often than it occurs in one of them.
-/
namespace Bleu
open Ngram
variable {α : Type} [DecidableEq α]

def modifiedPrecision (references : List (List α)) (hypothesis : List α) (order : Nat) : Except Fault Fraction := do
  if order = 0 then throw (.invalidOrder order)
  if references.isEmpty then throw .emptyReferences
  if pos : 0 < windowCount hypothesis.length order then
    let counts ← Counts.ofTokens hypothesis order
    let best ← Counts.ofReferences references order
    return .ofPos (best.clippedMatches counts) (windowCount hypothesis.length order) pos
  else return .notApplicable

/-- The modified precisions of the orders from one to `maxOrder` that the hypothesis is long enough for. -/
def modifiedPrecisions (references : List (List α)) (hypothesis : List α) (maxOrder : Nat) :
    Except Fault (List Fraction) := do
  if maxOrder = 0 then throw (.invalidOrder maxOrder)
  if references.isEmpty then throw .emptyReferences
  (List.range (min maxOrder hypothesis.length)).mapM fun i => modifiedPrecision references hypothesis (i + 1)

end Bleu

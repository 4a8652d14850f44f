import Bleu.Smoothing
import Bleu.Tokenizer
import Bleu.Weights

/-!
# Settings of a scorer

Settings say how far orders go, how they are weighted and smoothed, and how texts are cut into tokens. Weights fix
the number of orders; a highest order beside them must agree or be the standard one. `Settings.build` starts from
the standard settings and makes adjustments in turn.
-/
namespace Bleu

structure Settings where
  maxOrder : Nat := Weights.defaultMaxOrder
  tokenization : Tokenization := .simple
  weights : Option Weights := none
  smoothing : Smoothing := .none
deriving DecidableEq, BEq, Repr

namespace Settings

def standard : Settings := {}

def validate (s : Settings) : Except Fault Unit := do
  if s.maxOrder = 0 then throw (.invalidOrder 0)
  if let some weights := s.weights then
    if s.maxOrder ≠ Weights.defaultMaxOrder ∧ s.maxOrder ≠ weights.maxOrder then
      throw (.orderDisagrees s.maxOrder weights.maxOrder)
  s.smoothing.validate

/-- The weights of every score: the given ones, or uniform ones up to the highest order. -/
def effectiveWeights (s : Settings) : Except Fault Weights :=
  match s.weights with
  | some weights => .ok weights
  | none => Weights.uniform s.maxOrder

inductive Adjustment
  | maxOrder (order : Nat)
  | weights (weights : Weights)
  | smoothing (method : Smoothing)
  | tokenization (tokenization : Tokenization)
deriving DecidableEq, Repr

/-- The settings after a change. Weights bring the highest order with them. -/
def adjust (s : Settings) : Adjustment → Settings
  | .maxOrder order => { s with maxOrder := order }
  | .weights weights => { s with maxOrder := weights.maxOrder, weights := some weights }
  | .smoothing method => { s with smoothing := method }
  | .tokenization tokenization => { s with tokenization := tokenization }

/-- The standard settings after a list of changes, if they can be used together. -/
def build (changes : List Adjustment) : Except Fault Settings := do
  let settings := changes.foldl adjust standard
  settings.validate
  return settings

end Settings

end Bleu

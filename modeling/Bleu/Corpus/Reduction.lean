import Bleu.Corpus.Statistics

/-!
# Reductions

Statistics may be added up in any grouping. A `Reduction` is a grouping as a tree, with the pairs at its leaves and
leaves for nothing in between; `Reduction.run` adds up along it. `Reduction.balanced` is the tree of a divided
corpus, whose halves can be counted independently.
-/
namespace Bleu

/-- A grouping of pairs. -/
inductive Reduction (β : Type)
  | identity
  | leaf (pair : β)
  | node (left right : Reduction β)
deriving DecidableEq, Repr

namespace Reduction
variable {β : Type}

/-- The pairs of a grouping, from left to right. -/
def leaves : Reduction β → List β
  | identity => []
  | leaf pair => [pair]
  | node left right => left.leaves ++ right.leaves

/-- The sum along a grouping. Of two groups that both fail, the left one's fault is reported. -/
def run (count : β → Except Fault Statistics) : Reduction β → Except Fault Statistics
  | identity => .ok .identity
  | leaf pair => count pair
  | node left right => do return (← left.run count).combine (← right.run count)

/-- The grouping that halves a list again and again. -/
def balanced (pairs : List β) : Reduction β :=
  match pairs with
  | [] => identity
  | [pair] => leaf pair
  | first :: second :: rest =>
    let half := (first :: second :: rest).length / 2
    node (balanced ((first :: second :: rest).take half)) (balanced ((first :: second :: rest).drop half))
termination_by pairs.length
decreasing_by all_goals (simp; try omega)

end Reduction

variable {α : Type} [DecidableEq α] [Elementary]

/-- The statistics of a corpus, counted half by half. -/
def Statistics.ofCorpusByHalves (referenceSets : List (List (List α))) (hypotheses : List (List α))
    (maxOrder : Nat) : Except Fault Statistics := do
  let pairs ← alignPairs referenceSets hypotheses
  (Reduction.balanced pairs).run fun pair => Statistics.ofPair pair.1 pair.2 maxOrder

/-- The score of a corpus that is counted half by half. -/
def Score.ofCorpusByHalves (referenceSets : List (List (List α))) (hypotheses : List (List α))
    (weights : Option Weights) (smoother : Smoother) : Except Fault Score := do
  (← Statistics.ofCorpusByHalves referenceSets hypotheses (scoredOrder weights)).score weights smoother

end Bleu

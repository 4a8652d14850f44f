import Bleu.Ngram.Histogram
import Bleu.Ngram.Window

/-!
# Counts of n-grams

`Counts.ofTokens` counts the n-grams of one sequence. `Counts.ofReferences` takes for every n-gram the greatest
count in any one reference, so that `BestCounts.clippedMatches` credits a hypothesis with an n-gram no more often than
some single reference has it.
-/
namespace Bleu.Ngram
variable {α : Type} [DecidableEq α]

/-- The n-grams of a sequence, and how many there are with all repetitions. -/
structure Counts (α : Type) where
  order : Nat
  histogram : Histogram (List α)
  total : Nat

/-- For every n-gram the greatest of some counts. -/
structure BestCounts (α : Type) where
  order : Nat
  histogram : Histogram (List α)

namespace Counts

def empty (order : Nat) : Counts α where
  order
  histogram := .empty
  total := 0

def insert (c : Counts α) (ngram : List α) : Counts α :=
  { c with histogram := c.histogram.insert ngram, total := c.total + 1 }

def ofTokens (tokens : List α) (order : Nat) : Except Fault (Counts α) := do
  return (← ngrams tokens order).foldl insert (empty order)

/-- The greatest count in any of the references, n-gram by n-gram. -/
def ofReferences (references : List (List α)) (order : Nat) : Except Fault (BestCounts α) := do
  if references.isEmpty then throw .emptyReferences
  let counted ← references.mapM (ofTokens · order)
  return { order, histogram := counted.foldl (fun best reference => best.max reference.histogram) .empty }

def get (c : Counts α) (ngram : List α) : Nat := c.histogram.get ngram

def distinct (c : Counts α) : Nat := c.histogram.distinct

theorem foldl_insert (ngrams : List (List α)) (c : Counts α) :
    ngrams.foldl insert c =
      { c with histogram := ngrams.foldl Histogram.insert c.histogram, total := c.total + ngrams.length } := by
  induction ngrams generalizing c with
  | nil => rfl
  | cons ngram rest ih => simp [ih, insert, Nat.add_assoc, Nat.add_comm 1]

end Counts

namespace BestCounts

def get (c : BestCounts α) (ngram : List α) : Nat := c.histogram.get ngram

/-- The matches of a hypothesis: its counts, each cut to the greatest count in a reference. -/
def clippedMatches (best : BestCounts α) (hypothesis : Counts α) : Nat := hypothesis.histogram.overlap best.histogram

end BestCounts

end Bleu.Ngram

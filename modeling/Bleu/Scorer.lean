import Bleu.Corpus.Reduction
import Bleu.Settings

/-!
# Scorers

A scorer holds accepted settings, the weights that follow from them, and a tokenizer, which may be replaced by any
other. It scores tokens, texts and corpora.
-/
namespace Bleu
variable [Elementary]

structure Scorer where
  settings : Settings
  weights : Weights
  tokenizer : Tokenizer

namespace Scorer

def standard : Scorer where
  settings := .standard
  weights := .standard
  tokenizer := Settings.standard.tokenization.tokenizer

def ofSettings (settings : Settings) : Except Fault Scorer := do
  settings.validate
  let weights ← settings.effectiveWeights
  return { settings, weights, tokenizer := settings.tokenization.tokenizer }

/-- The scorer with another tokenizer; its settings stay. -/
def withTokenizer (s : Scorer) (tokenizer : Tokenizer) : Scorer := { s with tokenizer }

def tokenize (s : Scorer) (text : String) : List String := s.tokenizer.tokenize text

def smoother (s : Scorer) : Smoother := s.settings.smoothing.smoother

def scoreTokens {α : Type} [DecidableEq α] (s : Scorer) (references : List (List α)) (hypothesis : List α) :
    Except Fault Score :=
  Score.ofSentence references hypothesis (some s.weights) s.smoother

def scoreText (s : Scorer) (references : List String) (hypothesis : String) : Except Fault Score :=
  s.scoreTokens (references.map s.tokenize) (s.tokenize hypothesis)

def pairStatistics (s : Scorer) (references : List String) (hypothesis : String) : Except Fault Statistics :=
  Statistics.ofPair (references.map s.tokenize) (s.tokenize hypothesis) s.weights.maxOrder

def scoreStatistics (s : Scorer) (statistics : Statistics) : Except Fault Score :=
  statistics.score (some s.weights) s.smoother

/-- The score of a corpus, added up pair by pair. -/
def scoreCorpus (s : Scorer) (referenceSets : List (List String)) (hypotheses : List String) :
    Except Fault Score := do
  let pairs ← alignPairs referenceSets hypotheses
  let sum ← pairs.foldlM (fun sum pair => do return sum.combine (← s.pairStatistics pair.1 pair.2)) .identity
  s.scoreStatistics sum

/-- The score of a corpus, added up half by half. -/
def scoreCorpusByHalves (s : Scorer) (referenceSets : List (List String)) (hypotheses : List String) :
    Except Fault Score := do
  let pairs ← alignPairs referenceSets hypotheses
  s.scoreStatistics (← (Reduction.balanced pairs).run fun pair => s.pairStatistics pair.1 pair.2)

end Scorer

end Bleu

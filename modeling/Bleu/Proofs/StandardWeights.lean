import Bleu.Proofs.Faults
import Mathlib.Tactic.IntervalCases

/-!
# Standard weights and no weights

Without weights, orders one to four share one in equal parts. The standard weights do so, too: a quarter divided by the
sum of up to four quarters is rounded to the double that the same part of one is (`restrict_standard`). Choices of weights
that apply alike to all orders that are counted score alike (`Alike.score_eq`), whatever the smoothing.
-/
namespace Bleu
open Outcomes

/-- Choices of weights with the same highest order that apply alike to every number of orders up to it. -/
structure Alike (a b : Option Weights) : Prop where
  order : scoredOrder a = scoredOrder b
  applied : ∀ usable : Nat, 0 < usable → usable ≤ scoredOrder a → applicableWeights a usable = applicableWeights b usable

theorem Weights.restrict_standard {usable : Nat} (positive : 0 < usable) (few : usable ≤ Weights.defaultMaxOrder) :
    Weights.standard.restrict usable = Weights.even usable := by
  have bound : usable ≤ 4 := few
  interval_cases usable
  all_goals decide +kernel

theorem alike_standard : Alike (some .standard) none where
  order := rfl
  applied _ positive few := Weights.restrict_standard positive few

namespace Alike
variable [Elementary] {a b : Option Weights} (alike : Alike a b) (smoother : Smoother)
include alike

theorem aggregate_eq {precisions : List Fraction} (few : precisions.length ≤ scoredOrder a)
    (hypothesisLength referenceLength : Nat) :
    aggregate precisions hypothesisLength referenceLength a smoother =
      aggregate precisions hypothesisLength referenceLength b smoother := by
  cases precisions with
  | nil => rfl
  | cons unigrams others =>
    have applied := alike.applied (unigrams :: others).length (Nat.succ_pos _) few
    simp only [aggregate, applied]

theorem score_eq {t : Statistics} (regular : t.Regular) (few : t.totals.length ≤ scoredOrder a) :
    t.score a smoother = t.score b smoother := by
  have orders : t.precisions.length ≤ scoredOrder a := by
    rw [← List.length_map, regular.quotients_eq.2.2]
    exact few
  rw [Statistics.score, Statistics.score, regular.quotients_eq.1, ok_bind, ok_bind, alike.aggregate_eq smoother orders]

variable {α : Type} [DecidableEq α]

theorem score_ofPairs_eq (pairs : List (List (List α) × List α)) :
    (do (← Statistics.ofPairs (scoredOrder a) pairs).score a smoother) =
      (do (← Statistics.ofPairs (scoredOrder b) pairs).score b smoother) := by
  have positive := scoredOrder_pos a
  rw [← alike.order]
  cases summed : Statistics.ofPairs (scoredOrder a) pairs with
  | error fault => rfl
  | ok t =>
    have regular := (Statistics.reachable_of_ofPairs positive summed).regular
    exact alike.score_eq smoother regular (Statistics.length_totals_le positive summed)

theorem ofSentence_eq (references : List (List α)) (hypothesis : List α) :
    Score.ofSentence references hypothesis a smoother = Score.ofSentence references hypothesis b smoother := by
  rw [Score.ofSentence_eq, Score.ofSentence_eq, ← Statistics.ofPairs_singleton, ← Statistics.ofPairs_singleton]
  exact alike.score_ofPairs_eq smoother _

theorem ofCorpus_eq (referenceSets : List (List (List α))) (hypotheses : List (List α)) :
    Score.ofCorpus referenceSets hypotheses a smoother = Score.ofCorpus referenceSets hypotheses b smoother := by
  unfold Score.ofCorpus Statistics.ofCorpus
  cases alignPairs referenceSets hypotheses with
  | error fault => rfl
  | ok pairs => exact alike.score_ofPairs_eq smoother pairs

end Alike

/-- Texts score what their tokens score. -/
theorem Scorer.scoreCorpus_eq_ofCorpus [Elementary] (s : Scorer) (referenceSets : List (List String))
    (hypotheses : List String) :
    s.scoreCorpus referenceSets hypotheses =
      Score.ofCorpus (referenceSets.map (List.map s.tokenize)) (hypotheses.map s.tokenize) (some s.weights)
        s.smoother := by
  rw [Score.ofCorpus, Statistics.ofCorpus]
  by_cases aligned : referenceSets.length = hypotheses.length
  · have tokens : (referenceSets.map (List.map s.tokenize)).length = (hypotheses.map s.tokenize).length := by
      simpa using aligned
    rw [s.scoreCorpus_eq aligned, alignPairs_eq tokens, ok_bind, sumPairs_eq_ofPairs, List.zip_map]
    rfl
  · have tokens : (referenceSets.map (List.map s.tokenize)).length ≠ (hypotheses.map s.tokenize).length := by
      simpa using aligned
    rw [scoreCorpus, alignPairs_mismatch aligned, alignPairs_mismatch tokens]
    simp

/-- With the standard weights and without weights, sentences and corpora score the same in every field or are refused for
the same reason. So the standard scorer does what scoring without weights does. -/
theorem Score.standard_weights_eq [Elementary] :
    (∀ (α : Type) [DecidableEq α] (smoother : Smoother) (references : List (List α)) (hypothesis : List α),
      Score.ofSentence references hypothesis (some .standard) smoother =
        Score.ofSentence references hypothesis none smoother) ∧
    (∀ (α : Type) [DecidableEq α] (smoother : Smoother) (referenceSets : List (List (List α)))
        (hypotheses : List (List α)),
      Score.ofCorpus referenceSets hypotheses (some .standard) smoother =
        Score.ofCorpus referenceSets hypotheses none smoother) ∧
    (∀ (α : Type) [DecidableEq α] (references : List (List α)) (hypothesis : List α),
      Scorer.standard.scoreTokens references hypothesis =
        Score.ofSentence references hypothesis none Smoothing.none.smoother) ∧
    ∀ (referenceSets : List (List String)) (hypotheses : List String),
      Scorer.standard.scoreCorpus referenceSets hypotheses =
        Score.ofCorpus (referenceSets.map (List.map Scorer.standard.tokenize))
          (hypotheses.map Scorer.standard.tokenize) none Smoothing.none.smoother := by
  refine ⟨fun α _ smoother => ?_, fun α _ smoother => ?_, fun α _ references hypothesis => ?_,
    fun referenceSets hypotheses => ?_⟩
  · exact alike_standard.ofSentence_eq smoother
  · exact alike_standard.ofCorpus_eq smoother
  · exact alike_standard.ofSentence_eq Smoothing.none.smoother references hypothesis
  · rw [Scorer.scoreCorpus_eq_ofCorpus]
    exact alike_standard.ofCorpus_eq Smoothing.none.smoother _ _

end Bleu

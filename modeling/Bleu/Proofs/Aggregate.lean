import Bleu.Proofs.Outcomes
import Bleu.Score

/-!
# The outcomes of scoring precisions

`aggregate` checks one thing after the other. Each outcome has its equation here: weights that do not apply, no match in
order one, a smoothing that loses an order, and a mean of the smoothed precisions. `Scored` lists the outcomes that are
no refusal (`aggregate_eq_ok_iff`).
-/
namespace Bleu
open Outcomes
variable [Elementary]

/-- The weighted mean of smoothed precisions times the penalty; zero if one of them has no logarithm. -/
def penalizedMean (penalty : Float) (weights smoothed : List Float) : Float :=
  (weightedLog? 0 (weights.zip smoothed)).elim 0 fun sum => penalty * Elementary.exp sum

/-- What is reported of precisions, with what was computed from them. -/
def reportOn (precisions : List Fraction) (hypothesisLength referenceLength : Nat) (weights smoothed : List Float)
    (score : Float) : Score where
  score
  precisions
  smoothed
  weights
  brevityPenalty := brevityPenalty referenceLength hypothesisLength
  hypothesisLength
  referenceLength

/-- How precisions come to a score: without orders, without matches in order one, or as a mean. -/
inductive Scored (hypothesisLength referenceLength : Nat) (weights : Option Weights) (smoother : Smoother) :
    List Fraction → Score → Prop
  | empty : Scored hypothesisLength referenceLength weights smoother []
      (reportOn [] hypothesisLength referenceLength [] [] 0)
  | unmatched {unigrams : Fraction} {others : List Fraction} {applied : Weights} (zero : unigrams.isZero = true)
      (chosen : applicableWeights weights (unigrams :: others).length = .ok applied) :
      Scored hypothesisLength referenceLength weights smoother (unigrams :: others)
        (reportOn (unigrams :: others) hypothesisLength referenceLength applied.values [] 0)
  | matched {unigrams : Fraction} {others : List Fraction} {applied : Weights} (given : unigrams.isZero = false)
      (chosen : applicableWeights weights (unigrams :: others).length = .ok applied)
      (count : (smoother.smooth (unigrams :: others) hypothesisLength).length = (unigrams :: others).length) :
      Scored hypothesisLength referenceLength weights smoother (unigrams :: others)
        (reportOn (unigrams :: others) hypothesisLength referenceLength applied.values
          (smoother.smooth (unigrams :: others) hypothesisLength)
          (penalizedMean (brevityPenalty referenceLength hypothesisLength) applied.values
            (smoother.smooth (unigrams :: others) hypothesisLength)))

theorem aggregate_refused {unigrams : Fraction} {others : List Fraction} {weights : Option Weights} {fault : Fault}
    (refused : applicableWeights weights (unigrams :: others).length = .error fault)
    (hypothesisLength referenceLength : Nat) (smoother : Smoother) :
    aggregate (unigrams :: others) hypothesisLength referenceLength weights smoother = .error fault := by
  simp only [aggregate, refused, error_bind]

/-- Without matches in order one nothing is smoothed, but the weights must apply. -/
theorem aggregate_unmatched {unigrams : Fraction} (zero : unigrams.isZero = true) (others : List Fraction)
    (hypothesisLength referenceLength : Nat) (weights : Option Weights) (smoother : Smoother) :
    aggregate (unigrams :: others) hypothesisLength referenceLength weights smoother = do
      let applied ← applicableWeights weights (unigrams :: others).length
      return reportOn (unigrams :: others) hypothesisLength referenceLength applied.values [] 0 := by
  unfold aggregate reportOn
  simp only [zero, if_true]

section
variable {unigrams : Fraction} (given : unigrams.isZero = false) {others : List Fraction} {weights : Option Weights}
  {applied : Weights} (chosen : applicableWeights weights (unigrams :: others).length = .ok applied)
  (hypothesisLength referenceLength : Nat) {smoother : Smoother}
include given chosen

theorem aggregate_miscounted
    (count : (smoother.smooth (unigrams :: others) hypothesisLength).length ≠ (unigrams :: others).length) :
    aggregate (unigrams :: others) hypothesisLength referenceLength weights smoother =
      .error (.wrongValueCount smoother.name (smoother.smooth (unigrams :: others) hypothesisLength).length
        (unigrams :: others).length) := by
  simp only [aggregate, chosen, ok_bind, given, if_pos count]
  rfl

theorem aggregate_matched
    (count : (smoother.smooth (unigrams :: others) hypothesisLength).length = (unigrams :: others).length) :
    aggregate (unigrams :: others) hypothesisLength referenceLength weights smoother =
      .ok (reportOn (unigrams :: others) hypothesisLength referenceLength applied.values
        (smoother.smooth (unigrams :: others) hypothesisLength)
        (penalizedMean (brevityPenalty referenceLength hypothesisLength) applied.values
          (smoother.smooth (unigrams :: others) hypothesisLength))) := by
  have counted : ¬ (smoother.smooth (unigrams :: others) hypothesisLength).length ≠ (unigrams :: others).length :=
    fun differ => differ count
  unfold aggregate reportOn penalizedMean
  simp only [chosen, ok_bind, given, if_neg counted]
  cases weightedLog? 0 (applied.values.zip (smoother.smooth (unigrams :: others) hypothesisLength)) with
  | none => rfl
  | some sum => rfl

end

theorem aggregate_eq_ok_iff {precisions : List Fraction} {hypothesisLength referenceLength : Nat}
    {weights : Option Weights} {smoother : Smoother} {score : Score} :
    aggregate precisions hypothesisLength referenceLength weights smoother = .ok score ↔
      Scored hypothesisLength referenceLength weights smoother precisions score := by
  constructor
  · intro scored
    cases precisions with
    | nil =>
      cases scored
      exact .empty
    | cons unigrams others =>
      cases chosen : applicableWeights weights (unigrams :: others).length with
      | error fault =>
        rw [aggregate_refused chosen] at scored
        cases scored
      | ok applied =>
        cases zero : unigrams.isZero with
        | true =>
          rw [aggregate_unmatched zero, chosen] at scored
          cases scored
          exact .unmatched zero chosen
        | false =>
          by_cases count : (smoother.smooth (unigrams :: others) hypothesisLength).length = (unigrams :: others).length
          · rw [aggregate_matched zero chosen _ _ count] at scored
            cases scored
            exact .matched zero chosen count
          · rw [aggregate_miscounted zero chosen _ _ count] at scored
            cases scored
  · intro scored
    cases scored with
    | empty => rfl
    | unmatched zero chosen =>
      rw [aggregate_unmatched zero, chosen]
      rfl
    | matched nonzero chosen count => exact aggregate_matched nonzero chosen _ _ count

/-! ## The lists of a report -/

namespace Scored
variable {hypothesisLength referenceLength : Nat} {weights : Option Weights} {smoother : Smoother}
  {precisions : List Fraction} {score : Score}

theorem precisions_eq (scored : Scored hypothesisLength referenceLength weights smoother precisions score) :
    score.precisions = precisions := by
  cases scored with
  | empty => rfl
  | unmatched zero chosen => rfl
  | matched nonzero chosen count => rfl

theorem smoothed_cases (scored : Scored hypothesisLength referenceLength weights smoother precisions score) :
    score.smoothed = [] ∨ score.smoothed.length = precisions.length := by
  cases scored with
  | empty => exact .inl rfl
  | unmatched zero chosen => exact .inl rfl
  | matched nonzero chosen count => exact .inr count

theorem exists_applied (scored : Scored hypothesisLength referenceLength weights smoother precisions score)
    (given : precisions ≠ []) :
    ∃ applied, applicableWeights weights precisions.length = .ok applied ∧ score.weights = applied.values := by
  cases scored with
  | empty => exact absurd rfl given
  | unmatched zero chosen => exact ⟨_, chosen, rfl⟩
  | matched nonzero chosen count => exact ⟨_, chosen, rfl⟩

end Scored

end Bleu

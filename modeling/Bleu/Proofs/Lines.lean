import Bleu.Command.Scoring
import Bleu.Proofs.Aggregate
import Bleu.Proofs.Readings
import Bleu.Proofs.Smoothing
import Bleu.Proofs.Statistics
import Bleu.Proofs.Weights

/-!
# Scoring line by line

The lines of a corpus are counted one by one, whoever does it (`mapShared_eq`, `countPairs_eq_ok`), and what was counted
of a line scores what its texts score (`Scorer.scoreStatistics_eq`). With the smoothing of a scorer's settings, a line
is refused only if the weights of its orders have no sum to divide by (`Scorer.scoreText_cases`).
-/
namespace Bleu
open Outcomes

/-! ## Scores of lines -/

theorem Scorer.references_ne_nil {s : Scorer} {references : List String} {hypothesis : String} {pair : Statistics}
    (counted : s.pairStatistics references hypothesis = .ok pair) : references ≠ [] := by
  rintro rfl
  rw [Scorer.pairStatistics, List.map_nil, Statistics.ofPair_nil] at counted
  cases counted

section
variable [Elementary]

/-- With the smoothing of a method, precisions are refused only if the weights cannot be applied. -/
theorem aggregate_method (method : Smoothing) (precisions : List Fraction) (hypothesisLength referenceLength : Nat)
    (weights : Option Weights) :
    (precisions = [] ∨ (∃ applied, applicableWeights weights precisions.length = .ok applied) →
      ∃ score, aggregate precisions hypothesisLength referenceLength weights method.smoother = .ok score) ∧
    (∀ fault, precisions ≠ [] → applicableWeights weights precisions.length = .error fault →
      aggregate precisions hypothesisLength referenceLength weights method.smoother = .error fault) := by
  cases precisions with
  | nil => exact ⟨fun _ => ⟨_, rfl⟩, fun _ given => absurd rfl given⟩
  | cons unigrams others =>
    refine ⟨fun applies => ?_, fun fault _ refused => aggregate_refused refused _ _ _⟩
    obtain ⟨applied, chosen⟩ := applies.resolve_left (List.cons_ne_nil _ _)
    cases zero : unigrams.isZero with
    | true => exact ⟨_, aggregate_eq_ok_iff.mpr (.unmatched zero chosen)⟩
    | false => exact ⟨_, aggregate_eq_ok_iff.mpr (.matched zero chosen (Smoothing.length_smooth method _ _))⟩

/-- With the smoothing of a method, precisions are scored just when the weights can be applied to them. -/
theorem aggregate_scored_iff (method : Smoothing) {precisions : List Fraction} (nonempty : precisions ≠ [])
    (hypothesisLength referenceLength : Nat) (weights : Option Weights) :
    (∃ score, aggregate precisions hypothesisLength referenceLength weights method.smoother = .ok score) ↔
      ∃ applied, applicableWeights weights precisions.length = .ok applied := by
  constructor
  · rintro ⟨score, scored⟩
    obtain ⟨applied, chosen, _⟩ := (aggregate_eq_ok_iff.mp scored).exists_applied nonempty
    exact ⟨applied, chosen⟩
  · intro applies
    exact (aggregate_method method precisions hypothesisLength referenceLength weights).1 (.inr applies)

namespace Scorer

/-- Whether a hypothesis has no tokens, or the weights of its orders have a sum to divide by. -/
def Reaches (s : Scorer) (hypothesis : String) : Prop :=
  s.tokenize hypothesis = [] ∨ ¬ Weights.sum (s.weights.values.take (s.tokenize hypothesis).length) ≤ 0

/-- What was counted of a line scores what its texts score. -/
theorem scoreStatistics_eq {s : Scorer} {references : List String} {hypothesis : String} {pair : Statistics}
    (counted : s.pairStatistics references hypothesis = .ok pair) :
    s.scoreStatistics pair = s.scoreText references hypothesis := by
  have given : Statistics.ofPair (references.map s.tokenize) (s.tokenize hypothesis) (scoredOrder (some s.weights)) =
      .ok pair := counted
  rw [scoreText, scoreTokens, Score.ofSentence_eq, given, ok_bind, scoreStatistics]

/-- What was counted of lines scores, one by one, what the lines score. -/
theorem mapM_scoreStatistics_eq {s : Scorer} {lines : List (List String × String)} {counted : List Statistics}
    (counts : (lines.mapM fun line => s.pairStatistics line.1 line.2) = .ok counted) :
    counted.mapM s.scoreStatistics = lines.mapM fun line => s.scoreText line.1 line.2 := by
  induction lines generalizing counted with
  | nil =>
    cases counts
    rfl
  | cons line rest ih =>
    obtain ⟨pair, others, one, later, rfl⟩ := mapM_cons_eq_ok.mp counts
    rw [List.mapM_cons, List.mapM_cons, scoreStatistics_eq one, ih later]

theorem scoreText_eq {s : Scorer} {references : List String} (given : references ≠ []) (hypothesis : String) :
    ∃ precisions referenceLength, precisions.length = min s.weights.maxOrder (s.tokenize hypothesis).length ∧
      s.scoreText references hypothesis = aggregate precisions (s.tokenize hypothesis).length referenceLength
        (some s.weights) s.settings.smoothing.smoother := by
  have tokenized : references.map s.tokenize ≠ [] := by simpa using given
  obtain ⟨length, same⟩ :=
    Score.ofSentence_eq_aggregate tokenized (s.tokenize hypothesis) (some s.weights) s.settings.smoothing.smoother
  exact ⟨_, length, by simp [scoredOrder], same⟩

/-- A line that reaches its weights is scored. Any other is refused, for the number of its orders. -/
theorem scoreText_cases {s : Scorer} {references : List String} (given : references ≠ []) (hypothesis : String) :
    (s.Reaches hypothesis → ∃ score, s.scoreText references hypothesis = .ok score) ∧
      (¬ s.Reaches hypothesis → s.scoreText references hypothesis =
        .error (.unresolvableWeights (min s.weights.maxOrder (s.tokenize hypothesis).length))) := by
  obtain ⟨precisions, length, orders, same⟩ := scoreText_eq (s := s) given hypothesis
  obtain ⟨scored, refused⟩ := aggregate_method s.settings.smoothing precisions (s.tokenize hypothesis).length length
    (some s.weights)
  rw [same]
  constructor
  · rintro (empty | positive)
    · rw [empty, List.length_nil, Nat.min_zero] at orders
      exact scored (.inl (List.length_eq_zero_iff.mp orders))
    · rw [← Weights.take_min, ← orders] at positive
      exact scored (.inr (Weights.exists_restrict positive))
  · intro short
    obtain ⟨nonempty, nonpos⟩ := not_or.mp short
    rw [not_not, ← Weights.take_min, ← orders] at nonpos
    rw [← orders]
    refine refused _ ?_ (Weights.restrict_of_sum_nonpos nonpos)
    have reached : 0 < precisions.length := by
      rw [orders]
      exact Nat.lt_min.mpr ⟨scoredOrder_pos (some s.weights), List.length_pos_iff.mpr nonempty⟩
    exact List.length_pos_iff.mp reached

end Scorer

end

/-! ## Counts of lines -/

/-- Workers do not show in what is mapped. -/
theorem mapShared_eq {β γ ε : Type} (workers : Nat) (f : β → Except ε γ) (items : List β) :
    mapShared workers f items = items.mapM f := by
  unfold mapShared
  split
  · rfl
  · dsimp only
    rw [List.mapM_map]
    refine Eq.trans (mapM_flatten f (shares ((items.length - 1) / workers) items)) ?_
    rw [flatten_shares]

namespace Command

/-- Steps over numbered lines succeed where the steps over the lines do. -/
theorem mapM_lines_eq_ok {β γ : Type} {f : β → Except Fault γ} {lines : List β} {first : Nat} {results : List γ} :
    ((lines.zipIdx first).mapM fun entry => inContext (.line entry.2) (orFault (f entry.1))) = .ok results ↔
      lines.mapM f = .ok results := by
  induction lines generalizing first results with
  | nil => simp [pure, Except.pure]
  | cons line rest ih =>
    simp only [List.zipIdx_cons, List.mapM_cons, bind_eq_ok, inContext_eq_ok, orFault_eq_ok, ih]
    simp only [pure, Except.pure, Except.ok.injEq]

/-- The references of every line with its hypothesis. -/
def AlignedCorpus.lines (corpus : AlignedCorpus) : List (List String × String) :=
  corpus.referenceSets.zip corpus.hypotheses

theorem countPairs_eq_ok [Elementary] {scorer : Scorer} {workers : Nat} {corpus : AlignedCorpus}
    {counted : List Statistics} :
    countPairs scorer workers corpus = .ok counted ↔
      (corpus.lines.mapM fun line => scorer.pairStatistics line.1 line.2) = .ok counted := by
  rw [countPairs, mapShared_eq, AlignedCorpus.lines]
  exact mapM_lines_eq_ok (f := fun line : List String × String => scorer.pairStatistics line.1 line.2)

end Command

end Bleu

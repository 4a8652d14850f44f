import Bleu.Proofs.Aggregate
import Bleu.Proofs.Invariant
import Bleu.Proofs.Reduction
import Bleu.Proofs.Restriction
import Bleu.Proofs.Smoothing

/-!
# Orders beyond the weights

Pairs can be counted to a higher order than the weights have entries. The orders in excess change nothing below them:
cut to the lower order (`Statistics.upTo`), the statistics are those counted to it (`ofCorpus_upTo`), every smoothing
method is blind to higher orders, and the weights are restricted to the same entries. So the score is the same, but for
the listed precisions (`score_upTo`). Only weights without a sum to divide by tell the difference, as their refusal names
the number of orders (`score_of_sum_nonpos`). No weights can be given that lack a sum, but restriction can lose it.
-/
namespace Bleu
open Outcomes
variable {α : Type} [DecidableEq α]

/-! ## Counts up to an order -/

theorem take_addPadded (orders cut : Nat) (xs ys : List Nat) :
    (addPadded orders xs ys).take cut = addPadded (min cut orders) (xs.take cut) (ys.take cut) := by
  rw [addPadded, addPadded, ← List.map_take, List.take_range]
  refine List.map_congr_left fun i listed => ?_
  have below : i < cut := by
    rw [List.mem_range] at listed
    omega
  simp [List.getD_eq_getElem?_getD, below]

namespace Statistics

/-- The counts of the orders up to a highest one. -/
def upTo (orders : Nat) (s : Statistics) : Statistics :=
  { s with matched := s.matched.take orders, totals := s.totals.take orders }

theorem upTo_combine (orders : Nat) (a b : Statistics) :
    (a.combine b).upTo orders = (a.upTo orders).combine (b.upTo orders) := by
  simp [upTo, combine, take_addPadded, Nat.min_max_distrib_left]

section
variable {narrow wide : Nat} (positive : 0 < narrow) (le : narrow ≤ wide)
include positive le

theorem modifiedPrecisions_take {references : List (List α)} (given : references ≠ []) (hypothesis : List α) :
    modifiedPrecisions references hypothesis narrow =
      (modifiedPrecisions references hypothesis wide).map (List.take narrow) := by
  have reached : min narrow (min wide hypothesis.length) = min narrow hypothesis.length := by omega
  rw [modifiedPrecisions_eq positive given, modifiedPrecisions_eq (Nat.lt_of_lt_of_le positive le) given]
  simp only [Except.map, ← List.map_take, List.take_range, reached]

theorem ofPair_upTo (references : List (List α)) (hypothesis : List α) :
    ofPair references hypothesis narrow = (ofPair references hypothesis wide).map (upTo narrow) := by
  by_cases given : references = []
  · subst given
    rfl
  · have counted := modifiedPrecisions_eq (Nat.lt_of_lt_of_le positive le) given hypothesis
    unfold ofPair
    rw [modifiedPrecisions_take positive le given, counted]
    cases closestLength hypothesis.length (references.map List.length) with
    | error fault => rfl
    | ok length => simp [Except.map, upTo, List.map_take, pure, Except.pure]

theorem ofPairs_upTo (pairs : List (List (List α) × List α)) :
    ofPairs narrow pairs = (ofPairs wide pairs).map (upTo narrow) := by
  induction pairs with
  | nil => simp [ofPairs, pure, Except.pure, Except.map, upTo, identity]
  | cons pair rest ih =>
    rw [← List.singleton_append, ofPairs_append, ofPairs_append, ofPairs_singleton, ofPairs_singleton, ih,
      ofPair_upTo positive le]
    cases ofPair pair.1 pair.2 wide with
    | error fault => rfl
    | ok first =>
      cases ofPairs wide rest with
      | error fault => rfl
      | ok others => exact congrArg Except.ok (upTo_combine narrow first others).symm

/-- Counting to a lower order is counting to a higher one and leaving the orders between out. -/
theorem ofCorpus_upTo (referenceSets : List (List (List α))) (hypotheses : List (List α)) :
    ofCorpus referenceSets hypotheses narrow = (ofCorpus referenceSets hypotheses wide).map (upTo narrow) := by
  unfold ofCorpus
  cases alignPairs referenceSets hypotheses with
  | error fault => rfl
  | ok pairs => exact ofPairs_upTo positive le pairs

end

theorem Regular.quotients_upTo {s : Statistics} (regular : s.Regular) (orders : Nat) :
    (s.upTo orders).quotients = .ok (s.precisions.take orders) := by
  obtain ⟨_, matched, totals⟩ := regular.quotients_eq
  refine quotients_eq_ok ?_ ?_ fun p member => (regular.of_mem_precisions (List.mem_of_mem_take member)).1
  · rw [List.map_take, matched]
    rfl
  · rw [List.map_take, totals]
    rfl

end Statistics

/-! ## Scores up to an order -/

/-- The score with the precisions of the orders up to a highest one. -/
def Score.upTo (orders : Nat) (r : Score) : Score :=
  { r with precisions := r.precisions.take orders, smoothed := r.smoothed.take orders }

theorem Score.upTo_eq_self {orders : Nat} {r : Score} (listed : r.precisions.length ≤ orders)
    (smoothed : r.smoothed.length ≤ orders) : r.upTo orders = r := by
  rw [Score.upTo, List.take_of_length_le listed, List.take_of_length_le smoothed]

theorem Weights.length_restrict_le {w applied : Weights} {usable : Nat} (done : w.restrict usable = .ok applied) :
    applied.values.length ≤ w.maxOrder := by
  obtain ⟨_, _, same⟩ := restrict_eq_ok_iff.mp done
  rw [same, List.length_map]
  exact List.length_take_le' usable w.values

section
variable [Elementary]

/-- Smoothed precisions without weight do not matter to the mean. -/
theorem penalizedMean_take {weights : List Float} {orders : Nat} (short : weights.length ≤ orders) (penalty : Float)
    (smoothed : List Float) :
    penalizedMean penalty weights (smoothed.take orders) = penalizedMean penalty weights smoothed := by
  have weighted : (weights.zip smoothed).take orders = weights.zip smoothed := by
    refine List.take_of_length_le ?_
    rw [List.length_zip]
    omega
  have same : weights.zip (smoothed.take orders) = weights.zip smoothed := calc
    weights.zip (smoothed.take orders) = (weights.take orders).zip (smoothed.take orders) := by
      rw [List.take_of_length_le short]
    _ = (weights.zip smoothed).take orders := List.take_zipWith.symm
    _ = weights.zip smoothed := weighted
  rw [penalizedMean, penalizedMean, same]

variable (method : Smoothing) {w : Weights}

/-- Precisions of orders without weight change nothing but the lists of precisions. -/
theorem aggregate_upTo (positive : ¬ Weights.sum w.values ≤ 0) (precisions : List Fraction)
    (hypothesisLength referenceLength : Nat) :
    aggregate (precisions.take w.maxOrder) hypothesisLength referenceLength (some w) method.smoother =
      (aggregate precisions hypothesisLength referenceLength (some w) method.smoother).map (Score.upTo w.maxOrder) := by
  cases precisions with
  | nil =>
    rw [List.take_nil]
    exact congrArg Except.ok (Score.upTo_eq_self (Nat.zero_le _) (Nat.zero_le _)).symm
  | cons unigrams others =>
    obtain ⟨below, order⟩ : ∃ below, w.maxOrder = below + 1 :=
      Nat.exists_eq_succ_of_ne_zero (scoredOrder_pos (some w)).ne'
    have listed : (unigrams :: others).take w.maxOrder = unigrams :: others.take below := by
      rw [order, List.take_succ_cons]
    have same : applicableWeights (some w) (unigrams :: others.take below).length =
        applicableWeights (some w) (unigrams :: others).length := by
      rw [← listed, List.length_take]
      exact Weights.restrict_min positive _
    have smoothed : method.smooth (unigrams :: others.take below) hypothesisLength =
        (method.smooth (unigrams :: others) hypothesisLength).take w.maxOrder := by
      rw [← listed, Smoothing.smooth_take]
    rw [listed]
    cases chosen : applicableWeights (some w) (unigrams :: others).length with
    | error fault =>
      rw [aggregate_refused chosen, aggregate_refused (same.trans chosen)]
      rfl
    | ok applied =>
      cases zero : unigrams.isZero with
      | true =>
        rw [aggregate_unmatched zero, aggregate_unmatched zero, same, chosen]
        simp [Except.map, pure, Except.pure, Score.upTo, reportOn, listed]
      | false =>
        rw [aggregate_matched zero chosen _ _ (Smoothing.length_smooth method _ _),
          aggregate_matched zero (same.trans chosen) _ _ (Smoothing.length_smooth method _ _)]
        simp only [Except.map, Score.upTo, reportOn, listed, Smoothing.smoother, smoothed,
          penalizedMean_take (Weights.length_restrict_le chosen)]

/-- Where no order is in excess, nothing is cut. -/
theorem map_upTo_aggregate {precisions : List Fraction} {orders : Nat} (short : precisions.length ≤ orders)
    (hypothesisLength referenceLength : Nat) (weights : Option Weights) (smoother : Smoother) :
    (aggregate precisions hypothesisLength referenceLength weights smoother).map (Score.upTo orders) =
      aggregate precisions hypothesisLength referenceLength weights smoother := by
  cases outcome : aggregate precisions hypothesisLength referenceLength weights smoother with
  | error fault => rfl
  | ok score =>
    have scored := aggregate_eq_ok_iff.mp outcome
    refine congrArg Except.ok (Score.upTo_eq_self ?_ ?_)
    · rw [scored.precisions_eq]
      exact short
    · rcases scored.smoothed_cases with unscored | count
      · simp [unscored]
      · omega

/-- Weights without a sum to divide by are refused with the number of orders. -/
theorem aggregate_of_sum_nonpos (nonpos : Weights.sum w.values ≤ 0) {precisions : List Fraction}
    (reached : w.maxOrder ≤ precisions.length) (hypothesisLength referenceLength : Nat) (smoother : Smoother) :
    aggregate precisions hypothesisLength referenceLength (some w) smoother =
      .error (.unresolvableWeights precisions.length) := by
  obtain ⟨unigrams, others, rfl⟩ :=
    List.exists_cons_of_length_pos (Nat.lt_of_lt_of_le (scoredOrder_pos (some w)) reached)
  have refused : applicableWeights (some w) (unigrams :: others).length =
      .error (.unresolvableWeights (unigrams :: others).length) := by
    refine Weights.restrict_of_sum_nonpos ?_
    rwa [List.take_of_length_le reached]
  exact aggregate_refused refused _ _ _

section Regular
variable {s : Statistics} (regular : s.Regular)
include regular

/-- Cut to the orders of the weights, statistics score the same as before, if the weights have a sum to divide by or there
are no orders in excess. -/
theorem Statistics.Regular.score_upTo
    (scores : ¬ Weights.sum w.values ≤ 0 ∨ s.totals.length ≤ w.maxOrder) :
    (s.upTo w.maxOrder).score (some w) method.smoother =
      (s.score (some w) method.smoother).map (Score.upTo w.maxOrder) := by
  have orders : s.precisions.length = s.totals.length := by rw [← regular.quotients_eq.2.2, List.length_map]
  rw [score, score, regular.quotients_upTo, regular.quotients_eq.1, ok_bind, ok_bind]
  rcases scores with positive | short
  · exact aggregate_upTo method positive _ _ _
  · rw [← orders] at short
    rw [List.take_of_length_le short, map_upTo_aggregate short]
    rfl

/-- Otherwise both are refused, each with its own number of orders. -/
theorem Statistics.Regular.score_of_sum_nonpos (nonpos : Weights.sum w.values ≤ 0)
    (exceeds : w.maxOrder < s.totals.length) (smoother : Smoother) :
    s.score (some w) smoother = .error (.unresolvableWeights s.totals.length) ∧
      (s.upTo w.maxOrder).score (some w) smoother = .error (.unresolvableWeights w.maxOrder) := by
  have orders : s.precisions.length = s.totals.length := by rw [← regular.quotients_eq.2.2, List.length_map]
  rw [← orders] at exceeds ⊢
  have cut : (s.precisions.take w.maxOrder).length = w.maxOrder := List.length_take_of_le exceeds.le
  rw [score, score, regular.quotients_upTo, regular.quotients_eq.1, ok_bind, ok_bind]
  constructor
  · exact aggregate_of_sum_nonpos nonpos exceeds.le _ _ _
  · rw [aggregate_of_sum_nonpos nonpos cut.ge, cut]

end Regular

/-- Counted to a higher order than the weights have entries, a corpus scores the same in every field but the precisions,
which are listed for all orders; or it is refused for the same reason. This holds unless the weights have no sum to divide
by and some order in excess is counted. Then both are refused, but each names its own number of orders. Weights that can
be made have no sum to divide by just when they overflowed in a restriction. -/
theorem Score.ofCorpus_more_orders {referenceSets : List (List (List α))} {hypotheses : List (List α)}
    (aligned : referenceSets.length = hypotheses.length) (given : ∀ references ∈ referenceSets, references ≠ [])
    (w : Weights) {orders : Nat} (more : w.maxOrder ≤ orders) :
    ∃ wide narrow, Statistics.ofCorpus referenceSets hypotheses orders = .ok wide ∧
      Statistics.ofCorpus referenceSets hypotheses w.maxOrder = .ok narrow ∧
      (¬ Weights.sum w.values ≤ 0 ∨ wide.totals.length ≤ w.maxOrder →
        narrow.score (some w) method.smoother = (wide.score (some w) method.smoother).map (Score.upTo w.maxOrder)) ∧
      (Weights.sum w.values ≤ 0 → w.maxOrder < wide.totals.length →
        wide.score (some w) method.smoother = .error (.unresolvableWeights wide.totals.length) ∧
        narrow.score (some w) method.smoother = .error (.unresolvableWeights w.maxOrder)) ∧
      (w.Reachable → (Weights.sum w.values ≤ 0 ↔ w.Overflown)) := by
  have positive : 0 < w.maxOrder := scoredOrder_pos (some w)
  have cut := Statistics.ofCorpus_upTo positive more referenceSets hypotheses
  cases counted : Statistics.ofCorpus referenceSets hypotheses orders with
  | error fault =>
    -- Nothing but an empty set of references could be refused here.
    rw [ofCorpus_eq_error (positive.trans_le more), if_neg (not_not.mpr aligned)] at counted
    exact absurd rfl (given [] counted.2)
  | ok wide =>
    rw [counted] at cut
    have regular : wide.Regular := by
      rw [Statistics.ofCorpus, alignPairs_eq aligned, ok_bind] at counted
      exact (Statistics.reachable_of_ofPairs (positive.trans_le more) counted).regular
    exact ⟨wide, wide.upTo w.maxOrder, rfl, cut, regular.score_upTo method,
      fun nonpos exceeds => regular.score_of_sum_nonpos nonpos exceeds _, Weights.Reachable.sum_nonpos_iff⟩

end

/-- Two pairs, counted to order four and to the two orders that have weights; and a pair of three tokens with two weights
that overflowed when they were restricted. -/
theorem ofCorpus_more_orders_two_pairs :
    Statistics.score ⟨[3, 1], [4, 2], 4, 4, 2⟩ (some ⟨[0.5, 0.5], by simp⟩) Smoothing.exponential.smoother =
        (Statistics.score ⟨[3, 1, 0], [4, 2, 1], 4, 4, 2⟩ (some ⟨[0.5, 0.5], by simp⟩)
          Smoothing.exponential.smoother).map (Score.upTo 2) ∧
      Weights.Reachable ⟨[0, 0], by simp⟩ ∧
      Statistics.score ⟨[3, 2, 1], [3, 2, 1], 3, 3, 1⟩ (some ⟨[0, 0], by simp⟩) Smoothing.none.smoother =
        .error (.unresolvableWeights 3) ∧
      Statistics.score ⟨[3, 2], [3, 2], 3, 3, 1⟩ (some ⟨[0, 0], by simp⟩) Smoothing.none.smoother =
        .error (.unresolvableWeights 2) := by
  have positive : ¬ Weights.sum [0.5, 0.5] ≤ 0 := by decide +kernel
  have aligned : [[["a", "b", "c"]], [["d"]]].length = [["a", "b", "d"], ["d"]].length := rfl
  obtain ⟨wide, narrow, counted, few, same, _⟩ := Score.ofCorpus_more_orders .exponential aligned (by simp)
    ⟨[0.5, 0.5], by simp⟩ (show 2 ≤ 4 by decide)
  cases counted
  cases few
  have three : [[["a", "b", "c"]]].length = [["a", "b", "c"]].length := rfl
  obtain ⟨all, two, counted, few, _, refused, overflows⟩ := Score.ofCorpus_more_orders .none three (by simp)
    ⟨[0, 0], by simp⟩ (show 2 ≤ 3 by decide)
  cases counted
  cases few
  have vanish : Weights.restrict ⟨[1e308, 1e308], by simp⟩ 2 = .ok ⟨[0, 0], by simp⟩ := by decide +kernel
  have large : Weights.ofList [1e308, 1e308] = .ok ⟨[1e308, 1e308], by simp⟩ := by decide +kernel
  have reachable : Weights.Reachable ⟨[0, 0], by simp⟩ := .restrict (.made (.list large)) vanish
  have overflown : Weights.Overflown ⟨[0, 0], by simp⟩ := ⟨_, 2, .list large, vanish, by decide +kernel⟩
  obtain ⟨first, second⟩ := refused ((overflows reachable).mpr overflown) (by decide)
  exact ⟨same (.inl positive), reachable, first, second⟩

end Bleu

import Bleu.Proofs.Orders

/-!
# The lists of a report

A score lists precisions, smoothed precisions and weights. They belong together order by order (`Score.Aligned`), so that
the highest order listed is the highest one with a weight. The scores of sentences and of corpora are always aligned,
since these are counted up to the weights. Statistics may have been counted further: all their orders are then listed
and said to be scored, though the weights end before. `aligned_iff` says that nothing else goes wrong.
-/
namespace Bleu
open Outcomes

/-- Every order that is listed has a weight, and a smoothed precision unless the score was settled before. -/
structure Score.Aligned (r : Score) : Prop where
  weighted : r.precisions ≠ [] → r.weights.length = r.precisions.length
  smoothed : r.precisions ≠ [] → r.smoothed = [] ∨ r.smoothed.length = r.precisions.length

/-- The number of weights that apply to a number of orders. -/
def weightedOrders (weights : Option Weights) (usable : Nat) : Nat :=
  weights.elim usable fun w => min usable w.maxOrder

theorem weightedOrders_eq_iff (weights : Option Weights) (usable : Nat) :
    weightedOrders weights usable = usable ↔ ∀ w ∈ weights, usable ≤ w.maxOrder := by
  cases weights with
  | none => simp [weightedOrders]
  | some w => simp [weightedOrders]

theorem length_applicableWeights {weights : Option Weights} {usable : Nat} {applied : Weights}
    (chosen : applicableWeights weights usable = .ok applied) :
    applied.values.length = weightedOrders weights usable := by
  cases weights with
  | none =>
    rw [(Weights.even_eq_ok_iff.mp chosen).2]
    exact List.length_replicate
  | some w =>
    obtain ⟨_, _, same⟩ := Weights.restrict_eq_ok_iff.mp chosen
    rw [same, List.length_map, List.length_take]
    rfl

section
variable [Elementary] {weights : Option Weights} {smoother : Smoother}

/-- The lists of a scored report: all counted orders, the weights that apply to them, and as many smoothed precisions,
or none. -/
theorem Statistics.Regular.score_lists {s : Statistics} (regular : s.Regular) {score : Score}
    (scored : s.score weights smoother = .ok score) :
    score.precisions = s.precisions ∧ (score.smoothed = [] ∨ score.smoothed.length = score.precisions.length) ∧
      (score.precisions ≠ [] → score.weights.length = weightedOrders weights score.precisions.length) := by
  rw [Statistics.score, regular.quotients_eq.1, ok_bind, aggregate_eq_ok_iff] at scored
  rw [scored.precisions_eq]
  refine ⟨rfl, scored.smoothed_cases, fun given => ?_⟩
  obtain ⟨applied, chosen, same⟩ := scored.exists_applied given
  rw [same, length_applicableWeights chosen]

theorem Statistics.Regular.aligned_score_iff {s : Statistics} (regular : s.Regular) {score : Score}
    (scored : s.score weights smoother = .ok score) :
    score.Aligned ↔ ∀ w ∈ weights, s.totals.length ≤ w.maxOrder := by
  obtain ⟨listed, smoothed, weighted⟩ := regular.score_lists scored
  have orders : score.precisions.length = s.totals.length := by
    rw [listed, ← regular.quotients_eq.2.2, List.length_map]
  rw [← orders, ← weightedOrders_eq_iff]
  constructor
  · intro aligned
    -- Without orders nothing is demanded of the weights, and any weights cover them.
    by_cases empty : score.precisions = []
    · rw [empty, weightedOrders_eq_iff]
      exact fun w _ => Nat.zero_le _
    · rw [← weighted empty, aligned.weighted empty]
  · intro covered
    exact ⟨fun given => (weighted given).trans covered, fun _ => smoothed⟩

/-- The statistics of pairs that are counted up to the weights have aligned scores. -/
theorem aligned_of_ofPairs {α : Type} [DecidableEq α] {pairs : List (List (List α) × List α)} {s : Statistics}
    (summed : Statistics.ofPairs (scoredOrder weights) pairs = .ok s) {score : Score}
    (scored : s.score weights smoother = .ok score) : score.Aligned := by
  have positive := scoredOrder_pos weights
  refine ((Statistics.reachable_of_ofPairs positive summed).regular.aligned_score_iff scored).mpr ?_
  rintro w rfl
  exact Statistics.length_totals_le positive summed

/-- Sentences and corpora have aligned scores. Statistics have one just when they were counted to no higher order than
the weights have entries; a score that is not aligned lists all counted orders, and fewer weights. -/
theorem Score.aligned_iff (weights : Option Weights) (smoother : Smoother) :
    (∀ (α : Type) [DecidableEq α] (references : List (List α)) (hypothesis : List α) (score : Score),
      Score.ofSentence references hypothesis weights smoother = .ok score → score.Aligned) ∧
    (∀ (α : Type) [DecidableEq α] (referenceSets : List (List (List α))) (hypotheses : List (List α)) (score : Score),
      Score.ofCorpus referenceSets hypotheses weights smoother = .ok score → score.Aligned) ∧
    ∀ (s : Statistics) (score : Score), s.Reachable → s.score weights smoother = .ok score →
      score.maxOrder = s.totals.length ∧
        (score.precisions ≠ [] → score.weights.length = weightedOrders weights score.maxOrder) ∧
        (score.Aligned ↔ ∀ w ∈ weights, s.totals.length ≤ w.maxOrder) := by
  refine ⟨fun α _ references hypothesis score scored => ?_, fun α _ referenceSets hypotheses score scored => ?_,
    fun s score reachable scored => ?_⟩
  · rw [Score.ofSentence_eq, ← Statistics.ofPairs_singleton] at scored
    obtain ⟨s, summed, scored⟩ := bind_eq_ok.mp scored
    exact aligned_of_ofPairs summed scored
  · obtain ⟨s, counted, scored⟩ := bind_eq_ok.mp scored
    obtain ⟨pairs, _, summed⟩ := bind_eq_ok.mp counted
    exact aligned_of_ofPairs summed scored
  · obtain ⟨listed, _, weighted⟩ := reachable.regular.score_lists scored
    refine ⟨?_, weighted, reachable.regular.aligned_score_iff scored⟩
    rw [Score.maxOrder, listed, ← reachable.regular.quotients_eq.2.2, List.length_map]

end

/-- Four tokens, with weights for two orders: the score of the sentence lists two orders, that of statistics counted to
order three lists three. -/
theorem aligned_iff_four_tokens :
    Score.Aligned ⟨0, [⟨2, 4, by decide⟩, ⟨0, 3, by decide⟩], [0.5, 0], [0.5, 0.5], 1, 4, 2⟩ ∧
      ¬ Score.Aligned
        ⟨0, [⟨2, 4, by decide⟩, ⟨0, 3, by decide⟩, ⟨0, 2, by decide⟩], [0.5, 0, 0], [0.5, 0.5], 1, 4, 2⟩ := by
  obtain ⟨sentences, _, statistics⟩ := Score.aligned_iff (some ⟨[0.5, 0.5], by simp⟩) Smoothing.none.smoother
  have counted : Statistics.ofPair [["a", "b"]] ["a", "c", "b", "d"] 3 = .ok ⟨[2, 0, 0], [4, 3, 2], 4, 2, 1⟩ := rfl
  constructor
  · exact sentences String [["a", "b"]] ["a", "c", "b", "d"] _ (by decide +kernel)
  · rw [(statistics _ _ (.ofPair (by simp) (by decide) counted) (by decide +kernel)).2.2]
    simp [Weights.maxOrder]

end Bleu

import Bleu.Proofs.Lines
import Bleu.Proofs.Reduction

/-!
# Order and batches

The pairs of a corpus can come in any order and in batches, each summed by itself, and the sums of the batches can be
added up in any grouping. Whatever is chosen, one and the same statistics result, and their score is that of the corpus
(`Scorer.scoreCorpus_batches`). Commands use this: they count line by line, and add up what was counted at the end.
-/
namespace Bleu
open Outcomes

namespace Scorer

/-- The sum of pairs of texts, added up from left to right. -/
def sumPairs (s : Scorer) (pairs : List (List String × String)) : Except Fault Statistics :=
  pairs.foldlM (fun sum pair => do return sum.combine (← s.pairStatistics pair.1 pair.2)) .identity

/-- The tokens of a pair of texts. -/
def tokenizePair (s : Scorer) (pair : List String × String) : List (List String) × List String :=
  (pair.1.map s.tokenize, s.tokenize pair.2)

variable (s : Scorer)

theorem maxOrder_pos : 0 < s.weights.maxOrder := scoredOrder_pos (some s.weights)

/-- Texts are summed as their tokens are. -/
theorem sumPairs_eq_ofPairs (pairs : List (List String × String)) :
    s.sumPairs pairs = Statistics.ofPairs s.weights.maxOrder (pairs.map s.tokenizePair) := by
  rw [Statistics.ofPairs, List.foldlM_map]
  rfl

theorem sumPairs_append (pairs others : List (List String × String)) :
    s.sumPairs (pairs ++ others) = (do return (← s.sumPairs pairs).combine (← s.sumPairs others)) := by
  simp only [sumPairs_eq_ofPairs, List.map_append, Statistics.ofPairs_append]

theorem sumPairs_perm {pairs others : List (List String × String)} (perm : pairs.Perm others) :
    s.sumPairs pairs = s.sumPairs others := by
  rw [sumPairs_eq_ofPairs, sumPairs_eq_ofPairs, Statistics.ofPairs_perm s.maxOrder_pos (perm.map _)]

/-- Pairs with references can be summed. -/
theorem exists_sumPairs {pairs : List (List String × String)} (given : ∀ pair ∈ pairs, pair.1 ≠ []) :
    ∃ whole, s.sumPairs pairs = .ok whole := by
  cases summed : s.sumPairs pairs with
  | ok whole => exact ⟨whole, rfl⟩
  | error fault =>
    rw [sumPairs_eq_ofPairs, Statistics.ofPairs_eq_error s.maxOrder_pos] at summed
    obtain ⟨_, tokens, listed, empty⟩ := summed
    obtain ⟨pair, member, rfl⟩ := List.mem_map.mp listed
    exact absurd (List.map_eq_nil_iff.mp empty) (given pair member)

/-- Sums of batches, added up along a grouping, are the sum of all pairs of the batches. -/
theorem run_sumPairs (batches : Reduction (List (List String × String))) :
    batches.run s.sumPairs = s.sumPairs batches.leaves.flatten := by
  induction batches with
  | identity => rfl
  | leaf batch => rw [Reduction.leaves, List.flatten_singleton, Reduction.run]
  | node left right first second =>
    rw [Reduction.leaves, List.flatten_append, sumPairs_append, Reduction.run, first, second]

/-- Pairs that are counted first are added up afterwards. -/
theorem foldlM_pairStatistics {pairs : List (List String × String)} {counted : List Statistics}
    (counts : (pairs.mapM fun pair => s.pairStatistics pair.1 pair.2) = .ok counted) (start : Statistics) :
    pairs.foldlM (fun sum pair => do return sum.combine (← s.pairStatistics pair.1 pair.2)) start =
      .ok (counted.foldl Statistics.combine start) := by
  induction pairs generalizing counted start with
  | nil =>
    cases counts
    rfl
  | cons pair rest ih =>
    obtain ⟨one, others, first, later, rfl⟩ := mapM_cons_eq_ok.mp counts
    rw [List.foldlM_cons, first]
    exact ih later _

theorem exists_mapM_pairStatistics {pairs : List (List String × String)} (given : ∀ pair ∈ pairs, pair.1 ≠ []) :
    ∃ counted, (pairs.mapM fun pair => s.pairStatistics pair.1 pair.2) = .ok counted := by
  rcases mapM_cases (fun pair => s.pairStatistics pair.1 pair.2) pairs with
    counted | ⟨before, pair, after, _, fault, rfl, _, refused⟩
  · exact counted
  · have nonempty : (pair.1.map s.tokenize) ≠ [] := by simpa using given pair (by simp)
    obtain ⟨one, counts, _⟩ := Statistics.ofPair_eq s.maxOrder_pos nonempty (s.tokenize pair.2)
    rw [pairStatistics, counts] at refused
    cases refused

variable [Elementary]

theorem scoreCorpus_eq {referenceSets : List (List String)} {hypotheses : List String}
    (aligned : referenceSets.length = hypotheses.length) :
    s.scoreCorpus referenceSets hypotheses =
      (do s.scoreStatistics (← s.sumPairs (referenceSets.zip hypotheses))) := by
  rw [scoreCorpus, alignPairs_eq aligned, ok_bind]
  rfl

/-- The pairs of a corpus come to the same statistics in any order, in any batches and in any grouping of the batches,
and also when every pair is counted before any is added. The score of the corpus is the score of these statistics. -/
theorem scoreCorpus_batches {referenceSets : List (List String)} {hypotheses : List String}
    (aligned : referenceSets.length = hypotheses.length) (given : ∀ references ∈ referenceSets, references ≠ []) :
    ∃ whole : Statistics,
      (∀ batches : Reduction (List (List String × String)),
        batches.leaves.flatten.Perm (referenceSets.zip hypotheses) → batches.run s.sumPairs = .ok whole) ∧
      (∀ workers : Nat, ∃ counted, Command.countPairs s workers { hypotheses, referenceSets } = .ok counted ∧
        Command.total counted = whole) ∧
      s.scoreStatistics whole = s.scoreCorpus referenceSets hypotheses := by
  have paired : ∀ pair ∈ referenceSets.zip hypotheses, pair.1 ≠ [] :=
    fun pair member => given pair.1 (List.of_mem_zip member).1
  obtain ⟨whole, summed⟩ := s.exists_sumPairs paired
  refine ⟨whole, fun batches perm => ?_, fun workers => ?_, ?_⟩
  · rw [run_sumPairs, s.sumPairs_perm perm, summed]
  · obtain ⟨counted, counts⟩ := s.exists_mapM_pairStatistics paired
    refine ⟨counted, Command.countPairs_eq_ok.mpr counts, ?_⟩
    have added := s.foldlM_pairStatistics counts .identity
    exact Except.ok.inj (added.symm.trans summed)
  · rw [s.scoreCorpus_eq aligned, summed, ok_bind]

end Scorer

/-- Three pairs, in another order and in two batches. -/
theorem scoreCorpus_batches_three_pairs :
    (Reduction.node (.leaf [(["c"], "c d"), (["a b"], "a")]) (.leaf [(["b", "b c"], "b c")])).run
        Scorer.standard.sumPairs = .ok ⟨[4, 1], [5, 2], 5, 5, 3⟩ ∧
      Scorer.standard.scoreStatistics ⟨[4, 1], [5, 2], 5, 5, 3⟩ =
        Scorer.standard.scoreCorpus [["a b"], ["b", "b c"], ["c"]] ["a", "b c", "c d"] := by
  obtain ⟨whole, sums, _, scored⟩ := Scorer.standard.scoreCorpus_batches
    (show [["a b"], ["b", "b c"], ["c"]].length = ["a", "b c", "c d"].length from rfl) (by simp)
  have first : (Reduction.leaf [(["a b"], "a"), (["b", "b c"], "b c"), (["c"], "c d")]).run
      Scorer.standard.sumPairs = .ok ⟨[4, 1], [5, 2], 5, 5, 3⟩ := by decide +kernel
  cases first.symm.trans (sums _ (by decide))
  exact ⟨sums _ (by decide +kernel), scored⟩

end Bleu

import Bleu.Proofs.Brevity
import Bleu.Proofs.Statistics

/-!
# The references as a set

References can be given in any order and repeatedly. Of their counts only the greatest one matters, n-gram by n-gram
(`matchCount_congr`), and of their lengths only the closest one. So references with the same members give the same
statistics and the same scores, refusals included (`scored_eq_of_mem_iff`). Adding references adds matches, but no more
than they match by themselves (`modifiedPrecision_append`).
-/
namespace Bleu
open Ngram Outcomes
variable {α : Type} [DecidableEq α] {references others : List (List α)}

theorem greatestCount_congr (same : ∀ reference, reference ∈ references ↔ reference ∈ others) (n : Nat)
    (g : List α) : greatestCount references n g = greatestCount others n g := by
  apply eq_of_forall_ge_iff
  intro bound
  simp only [greatestCount_le_iff, same]

theorem matchCount_congr (same : ∀ reference, reference ∈ references ↔ reference ∈ others) (hypothesis : List α)
    (n : Nat) : matchCount references hypothesis n = matchCount others hypothesis n := by
  unfold matchCount
  refine Finset.sum_congr rfl fun g _ => ?_
  rw [greatestCount_congr same]

theorem modifiedPrecisions_congr (same : ∀ reference, reference ∈ references ↔ reference ∈ others)
    (given : references ≠ []) (hypothesis : List α) (maxOrder : Nat) :
    modifiedPrecisions references hypothesis maxOrder = modifiedPrecisions others hypothesis maxOrder := by
  rcases Nat.eq_zero_or_pos maxOrder with rfl | positive
  · rfl
  · have listed : others ≠ [] := by
      obtain ⟨first, member⟩ := List.exists_mem_of_ne_nil references given
      exact List.ne_nil_of_mem ((same first).mp member)
    rw [modifiedPrecisions_eq positive given, modifiedPrecisions_eq positive listed]
    refine congrArg Except.ok (List.map_congr_left fun i _ => ?_)
    simp only [reachedPrecision, matchCount_congr same]

theorem Statistics.ofPair_congr (same : ∀ reference, reference ∈ references ↔ reference ∈ others)
    (hypothesis : List α) (maxOrder : Nat) :
    ofPair references hypothesis maxOrder = ofPair others hypothesis maxOrder := by
  by_cases given : references = []
  · have alone : others = [] := by
      apply List.eq_nil_iff_forall_not_mem.mpr
      intro reference listed
      simpa [given] using (same reference).mpr listed
    rw [given, alone]
  · have lengths : ∀ l, l ∈ references.map List.length ↔ l ∈ others.map List.length := by
      intro l
      simp only [List.mem_map, same]
    unfold ofPair
    rw [closestLength_congr lengths, modifiedPrecisions_congr same given]

/-- References with the same members, in whatever order and however often, give the same scores in every field and the
same statistics, or are refused for the same reason. -/
theorem scored_eq_of_mem_iff [Elementary] (same : ∀ reference, reference ∈ references ↔ reference ∈ others)
    (hypothesis : List α) :
    (∀ (weights : Option Weights) (smoother : Smoother),
      Score.ofSentence references hypothesis weights smoother =
        Score.ofSentence others hypothesis weights smoother) ∧
      ∀ maxOrder : Nat, Statistics.ofPair references hypothesis maxOrder =
        Statistics.ofPair others hypothesis maxOrder := by
  constructor
  · intro weights smoother
    rw [Score.ofSentence_eq, Score.ofSentence_eq, Statistics.ofPair_congr same]
  · exact Statistics.ofPair_congr same hypothesis

/-- Two references, in the other order and one of them twice. -/
theorem scored_eq_two_references :
    (∀ reference : List String, reference ∈ [["a", "b"], ["b", "a", "c"]] ↔
        reference ∈ [["b", "a", "c"], ["a", "b"], ["b", "a", "c"]]) ∧
      (∀ (weights : Option Weights) (smoother : Smoother),
        Score.ofSentence [["a", "b"], ["b", "a", "c"]] ["a", "b", "a"] weights smoother =
          Score.ofSentence [["b", "a", "c"], ["a", "b"], ["b", "a", "c"]] ["a", "b", "a"] weights smoother) ∧
      Statistics.ofPair [["b", "a", "c"], ["a", "b"], ["b", "a", "c"]] ["a", "b", "a"] 4 =
        .ok ⟨[2, 2, 0], [3, 2, 1], 3, 3, 1⟩ := by
  have same : ∀ reference : List String, reference ∈ [["a", "b"], ["b", "a", "c"]] ↔
      reference ∈ [["b", "a", "c"], ["a", "b"], ["b", "a", "c"]] := by
    intro reference
    simp only [List.mem_cons, List.not_mem_nil, or_false]
    tauto
  have equal := scored_eq_of_mem_iff same ["a", "b", "a"]
  exact ⟨same, equal.1, (equal.2 4).symm⟩

/-! ## More references -/

theorem greatestCount_append (first second : List (List α)) (n : Nat) (g : List α) :
    greatestCount (first ++ second) n g = max (greatestCount first n g) (greatestCount second n g) := by
  apply eq_of_forall_ge_iff
  intro bound
  simp only [max_le_iff, greatestCount_le_iff, List.mem_append, or_imp, forall_and]

/-- More references never match less. -/
theorem matchCount_mono (included : references ⊆ others) (hypothesis : List α) (n : Nat) :
    matchCount references hypothesis n ≤ matchCount others hypothesis n := by
  refine Finset.sum_le_sum fun g _ => min_le_min_left _ ?_
  rw [greatestCount_le_iff]
  intro reference listed
  exact (greatestCount_le_iff others n g _).mp le_rfl reference (included listed)

/-- Two groups of references together match no more than one after the other. -/
theorem matchCount_append_le (first second : List (List α)) (hypothesis : List α) (n : Nat) :
    matchCount (first ++ second) hypothesis n ≤ matchCount first hypothesis n + matchCount second hypothesis n := by
  unfold matchCount
  rw [← Finset.sum_add_distrib]
  refine Finset.sum_le_sum fun g _ => ?_
  rw [greatestCount_append]
  omega

/-- Two groups of references together match at least what either of them matches, and no more than both of them do. The
windows of the hypothesis stay the same. -/
theorem modifiedPrecision_append {first second : List (List α)} (left : first ≠ []) (right : second ≠ [])
    {hypothesis : List α} {n : Nat} (positive : 0 < n) (fits : n ≤ hypothesis.length) :
    ∃ p q both, modifiedPrecision first hypothesis n = .ok p ∧ modifiedPrecision second hypothesis n = .ok q ∧
      modifiedPrecision (first ++ second) hypothesis n = .ok both ∧
      max p.numerator q.numerator ≤ both.numerator ∧ both.numerator ≤ p.numerator + q.numerator ∧
      p.denominator = both.denominator ∧ q.denominator = both.denominator := by
  have given : first ++ second ≠ [] := by simp [left]
  refine ⟨_, _, _, modifiedPrecision_eq positive left fits, modifiedPrecision_eq positive right fits,
    modifiedPrecision_eq positive given fits, ?_, matchCount_append_le first second hypothesis n, rfl, rfl⟩
  exact max_le (matchCount_mono (List.subset_append_left first second) hypothesis n)
    (matchCount_mono (List.subset_append_right first second) hypothesis n)

/-- One of the references has the first token once and the second one too, the other has the first token twice. -/
theorem modifiedPrecision_append_three_tokens :
    ∃ p q both, modifiedPrecision [["a", "b"]] ["a", "a", "b"] 1 = .ok p ∧ p.numerator = 2 ∧
      modifiedPrecision [["a", "a"]] ["a", "a", "b"] 1 = .ok q ∧ q.numerator = 2 ∧
      modifiedPrecision ([["a", "b"]] ++ [["a", "a"]]) ["a", "a", "b"] 1 = .ok both ∧
      2 ≤ both.numerator ∧ both.numerator ≤ 4 ∧ both.denominator = 3 := by
  have left : [["a", "b"]] ≠ [] := by simp
  have right : [["a", "a"]] ≠ [] := by simp
  have fits : 1 ≤ ["a", "a", "b"].length := by decide
  obtain ⟨p, q, both, one, other, together, least, most, windows, _⟩ :=
    modifiedPrecision_append left right Nat.one_pos fits
  have first : modifiedPrecision [["a", "b"]] ["a", "a", "b"] 1 = .ok (.ofPos 2 3 (by decide)) := by decide
  have second : modifiedPrecision [["a", "a"]] ["a", "a", "b"] 1 = .ok (.ofPos 2 3 (by decide)) := by decide
  cases first.symm.trans one
  cases second.symm.trans other
  exact ⟨_, _, both, one, rfl, other, rfl, together, least, most, windows.symm⟩

end Bleu

import Bleu.Proofs.Aggregate
import Bleu.Proofs.Statistics
import Bleu.Proofs.Weights

/-!
# Hypotheses without overlap

A hypothesis that shares no token with a reference has no match in order one, so that its score is zero whatever the
smoothing. But weights are cut to the orders of the hypothesis before matches are looked at. A hypothesis all of whose
orders have weight zero is refused, even where its score would be zero without them; `Score.ofSentence_apart` says that
this is the only refusal.
-/
namespace Bleu
open Ngram Outcomes

/-- No token of the hypothesis occurs in a reference. -/
def Apart {α : Type} (references : List (List α)) (hypothesis : List α) : Prop :=
  ∀ token ∈ hypothesis, ∀ reference ∈ references, token ∉ reference

theorem singleton_mem_windows {α : Type} (token : α) (tokens : List α) :
    [token] ∈ windows 1 tokens ↔ token ∈ tokens := by
  rw [mem_windows Nat.one_pos]
  simp [List.singleton_infix_iff]

/-- Order one has no match just when no token is shared. -/
theorem matchCount_one_eq_zero_iff {α : Type} [DecidableEq α] (references : List (List α)) (hypothesis : List α) :
    matchCount references hypothesis 1 = 0 ↔ Apart references hypothesis := by
  rw [matchCount_eq_zero_iff]
  constructor
  · intro unmatched token member reference listed shared
    exact unmatched [token] ((singleton_mem_windows token hypothesis).mpr member) reference listed
      ((singleton_mem_windows token reference).mpr shared)
  · intro apart g member reference listed shared
    obtain ⟨token, rfl⟩ := List.length_eq_one_iff.mp ((mem_windows Nat.one_pos g hypothesis).mp member).1
    exact apart token ((singleton_mem_windows token hypothesis).mp member) reference listed
      ((singleton_mem_windows token reference).mp shared)

theorem isZero_reachedPrecision {α : Type} [DecidableEq α] {references : List (List α)} {hypothesis : List α}
    (apart : Apart references hypothesis) : (reachedPrecision references hypothesis 1).isZero = true := by
  have unmatched := (matchCount_one_eq_zero_iff references hypothesis).mpr apart
  simp [Fraction.isZero, Fraction.isApplicable, reachedPrecision, unmatched]

namespace Weights

theorem forall_weighs_min (weights : Option Weights) (usable : Nat) :
    (∀ w ∈ weights, w.Weighs (min (scoredOrder weights) usable)) ↔ ∀ w ∈ weights, w.Weighs usable := by
  cases weights with
  | none => simp
  | some w => simp [scoredOrder, Weighs, take_min]

/-- Weights apply to orders of which one counts; without weights all orders count. -/
theorem applicable {weights : Option Weights} (accepted : ∀ w ∈ weights, w.Accepted) {usable : Nat}
    (positive : 0 < usable) :
    ((∀ w ∈ weights, w.Weighs usable) → ∃ applied, applicableWeights weights usable = .ok applied) ∧
      ((¬ ∀ w ∈ weights, w.Weighs usable) →
        applicableWeights weights usable = .error (.unresolvableWeights usable)) := by
  cases weights with
  | none =>
    have given : usable ≠ 0 := by omega
    simp [applicableWeights, even, given]
  | some w => simpa [applicableWeights] using (accepted w rfl).restrict usable

end Weights

section
variable [Elementary]

/-- A hypothesis without overlap scores zero if it is empty or one of its orders counts. Otherwise it is refused. -/
theorem Score.ofSentence_apart {α : Type} [DecidableEq α] {references : List (List α)} (given : references ≠ [])
    {hypothesis : List α} (apart : Apart references hypothesis) {weights : Option Weights}
    (accepted : ∀ w ∈ weights, w.Accepted) (smoother : Smoother) :
    ((hypothesis = [] ∨ ∀ w ∈ weights, w.Weighs hypothesis.length) →
      ∃ score, Score.ofSentence references hypothesis weights smoother = .ok score ∧ score.score = 0) ∧
      (¬ (hypothesis = [] ∨ ∀ w ∈ weights, w.Weighs hypothesis.length) →
        Score.ofSentence references hypothesis weights smoother =
          .error (.unresolvableWeights (min (scoredOrder weights) hypothesis.length))) := by
  obtain ⟨length, same⟩ := Score.ofSentence_eq_aggregate given hypothesis weights smoother
  rw [same]
  by_cases empty : hypothesis = []
  · subst empty
    rw [List.length_nil, Nat.min_zero, List.range_zero, List.map_nil]
    constructor
    · intro _
      exact ⟨_, rfl, rfl⟩
    · intro weighed
      exact absurd (.inl rfl) weighed
  · have reached : 0 < min (scoredOrder weights) hypothesis.length :=
      Nat.lt_min.mpr ⟨scoredOrder_pos weights, List.length_pos_iff.mpr empty⟩
    obtain ⟨applies, refused⟩ := Weights.applicable accepted reached
    rw [Weights.forall_weighs_min] at applies refused
    obtain ⟨orders, count⟩ := Nat.exists_eq_add_of_lt reached
    rw [Nat.zero_add] at count
    rw [count] at applies refused ⊢
    simp only [empty, false_or]
    rw [List.range_succ_eq_map, List.map_cons, aggregate_unmatched (isZero_reachedPrecision apart)]
    simp only [List.length_cons, List.length_map, List.length_range]
    constructor
    · intro counts
      obtain ⟨applied, chosen⟩ := applies counts
      rw [chosen]
      exact ⟨_, rfl, rfl⟩
    · intro unmatched
      rw [refused unmatched]
      rfl

end

/-- With a weight for order two only, one token without overlap is refused, and two tokens score zero. -/
theorem ofSentence_apart_weights :
    Score.ofSentence [["a"]] ["b"] (some ⟨[0, 1], by simp⟩) Smoothing.none.smoother =
        .error (.unresolvableWeights 1) ∧
      ∃ score, Score.ofSentence [["a"]] ["b", "c"] (some ⟨[0, 1], by simp⟩) Smoothing.none.smoother = .ok score ∧
        score.score = 0 := by
  have accepted : ∀ w ∈ some (⟨[0, 1], by simp⟩ : Weights), w.Accepted := by
    intro w given
    cases given
    rfl
  have one := Score.ofSentence_apart (by simp) (show Apart [["a"]] ["b"] by simp [Apart]) accepted
    Smoothing.none.smoother
  have two := Score.ofSentence_apart (by simp) (show Apart [["a"]] ["b", "c"] by simp [Apart]) accepted
    Smoothing.none.smoother
  refine ⟨one.2 ?_, two.1 ?_⟩
  · have zero : ¬ (0 : Float) < 0 := by decide
    simp [Weights.Weighs, zero]
  · have positive : (0 : Float) < 1 := by decide
    simp [Weights.Weighs, positive]

end Bleu

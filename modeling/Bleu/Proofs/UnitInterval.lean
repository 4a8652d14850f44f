import Bleu.Proofs.Brevity
import Bleu.Proofs.ClosedForm
import Bleu.Proofs.Invariant
import Bleu.Proofs.Smoothing

/-!
# Scores between zero and one

A score is a weighted mean of smoothed precisions times a penalty, and lies between zero and one if these do. A
method's substitutes need not: nothing bounds the parameter `epsilon` from above or the parameter `k` from below.
`inUnit_iff` gives the exact condition, for every hypothesis length, under which no score leaves the unit interval.
It relies on the exponential and the logarithm only for their sign and for what they do around one
(`Elementary.Laws`). The default `epsilon` always meets the condition; the default `k` meets it up to the length whose
logarithm is ten.
-/
namespace Bleu
open Double Ngram Outcomes

/-- What is relied on of the exponential and the logarithm. -/
structure Elementary.Laws [Elementary] : Prop where
  exp_unit : ∀ x : Float, x ≤ 0 → 0 ≤ Elementary.exp x ∧ Elementary.exp x ≤ 1
  log_nonpos : ∀ x : Float, 0 < x → x ≤ 1 → Elementary.log x ≤ 0
  log_pos : ∀ x : Float, 1 < x → 0 < Elementary.log x
  one_lt_exp_log : ∀ x : Float, 1 < x → 1 < Elementary.exp (Elementary.log x)

/-- Step functions with the values of the exponential at zero and of both functions at one half, one and four. -/
@[reducible] def Elementary.steps : Elementary where
  exp x := if x < 0 then 0.5 else if 0 < x then 4 else 1
  log x := if x < 1 then -0.6931471805599453 else if 1 < x then 1.3862943611198906 else 0

theorem Elementary.exp_steps (x : Float) : @exp .steps x = if x < 0 then 0.5 else if 0 < x then 4 else 1 := rfl

theorem Elementary.log_steps (x : Float) :
    @log .steps x = if x < 1 then -0.6931471805599453 else if 1 < x then 1.3862943611198906 else 0 := rfl

theorem Elementary.steps_laws : @Elementary.Laws .steps := by
  refine @Elementary.Laws.mk .steps (fun x nonpos => ?_) (fun x _ le => ?_) (fun x large => ?_) fun x large => ?_
  · rw [exp_steps, if_neg (not_lt_of_le nonpos)]
    split_ifs
    · decide
    · decide
  · rw [log_steps, if_neg (not_lt_of_le le)]
    split_ifs
    · decide
    · decide
  · rw [log_steps, if_neg (not_lt_of_le (le_of_lt large)), if_pos large]
    decide
  · rw [log_steps, if_neg (not_lt_of_le (le_of_lt large)), if_pos large]
    decide

/-- Whether a double is a finite number from zero to one. -/
def InUnit (x : Float) : Prop := x.isFinite = true ∧ 0 ≤ x ∧ x ≤ 1

theorem inUnit_of_le {x : Float} (bounds : 0 ≤ x ∧ x ≤ 1) : InUnit x := ⟨isFinite_of_unit bounds, bounds⟩

/-! ## A repeated token -/

theorem replicate_mem_windows {α : Type} (token : α) {n m : Nat} (positive : 0 < n) (le : n ≤ m) :
    List.replicate n token ∈ windows n (List.replicate m token) := by
  refine (mem_windows positive _ _).mpr ⟨List.length_replicate, ?_⟩
  refine ⟨[], List.replicate (m - n) token, ?_⟩
  rw [List.nil_append, ← List.replicate_add]
  congr 1
  omega

/-- A repeated token matches a shorter repetition of it in all orders but the highest. -/
theorem matchCount_replicate {α : Type} [DecidableEq α] (token : α) (below : Nat) {n : Nat} (positive : 0 < n) :
    matchCount [List.replicate below token] (List.replicate (below + 1) token) n = 0 ↔ below < n := by
  rw [matchCount_eq_zero_iff]
  constructor
  · intro apart
    by_contra fits
    exact apart _ (replicate_mem_windows token positive (by omega)) _ (List.mem_singleton_self _)
      (replicate_mem_windows token positive (by omega))
  · intro long g _ reference listed shared
    rw [List.mem_singleton.mp listed] at shared
    obtain ⟨length, segment⟩ := (mem_windows positive g _).mp shared
    have fits := segment.length_le
    rw [length, List.length_replicate] at fits
    omega

/-- Against a repetition shorter by one token only the highest order is unmatched, and it has a single window. -/
theorem modifiedPrecisions_replicate {α : Type} [DecidableEq α] (token : α) (below : Nat) :
    ∃ matched last, modifiedPrecisions [List.replicate below token] (List.replicate (below + 1) token) (below + 1) =
        .ok (matched ++ [last]) ∧ matched.length = below ∧
      (∀ p ∈ matched, 0 < p.numerator ∧ 0 < p.denominator ∧ p.denominator ≤ below + 1) ∧
      last.numerator = 0 ∧ last.denominator = 1 := by
  have counted := modifiedPrecisions_eq (Nat.succ_pos below) (List.cons_ne_nil (List.replicate below token) [])
    (List.replicate (below + 1) token)
  rw [List.length_replicate, min_self, List.range_succ, List.map_append, List.map_singleton] at counted
  refine ⟨_, _, counted, by simp, fun p member => ?_, ?_, ?_⟩
  · obtain ⟨i, reached, rfl⟩ := List.mem_map.mp member
    rw [List.mem_range] at reached
    have found := (matchCount_replicate token below (Nat.succ_pos i)).not.mpr (by omega)
    refine ⟨Nat.pos_of_ne_zero found, Nat.succ_pos _, ?_⟩
    simp only [reachedPrecision, List.length_replicate]
    omega
  · exact (matchCount_replicate token below (Nat.succ_pos below)).mpr (Nat.lt_succ_self below)
  · simp [reachedPrecision]

section
variable [Elementary]

/-! ## The two factors -/

/-- The brevity penalty is between zero and one. -/
theorem brevityPenalty_unit (laws : Elementary.Laws) (reference : Nat) {hypothesis : Nat}
    (small : hypothesis < 2 ^ 64) :
    0 ≤ brevityPenalty reference hypothesis ∧ brevityPenalty reference hypothesis ≤ 1 := by
  unfold brevityPenalty
  split_ifs with zero long
  · decide
  · decide
  · exact laws.exp_unit _ (one_sub_nonpos (one_le_ofNat_div (Nat.pos_of_ne_zero zero) (by omega) small.le))

/-- Shares of logarithms of numbers up to one do not add up to more than zero. -/
theorem weightedLog?_nonpos (laws : Elementary.Laws) {pairs : List (Float × Float)}
    (shares : ∀ pair ∈ pairs, ¬ 1 < pair.1) (bounded : ∀ pair ∈ pairs, ¬ 1 < pair.2) {start sum : Float}
    (nonpos : start ≤ 0) (summed : weightedLog? start pairs = some sum) : sum ≤ 0 := by
  induction pairs generalizing start with
  | nil =>
    cases summed
    exact nonpos
  | cons pair rest ih =>
    obtain ⟨weight, precision⟩ := pair
    have later : ∀ {start : Float}, start ≤ 0 → weightedLog? start rest = some sum → sum ≤ 0 :=
      ih (fun p member => shares p (by simp [member])) fun p member => bounded p (by simp [member])
    rw [weightedLog?] at summed
    by_cases collapsed : (precision ≤ 0 || precision.isNaN) = true
    · rw [if_pos collapsed] at summed
      cases summed
    · rw [if_neg collapsed] at summed
      have positive := (kept_iff precision).mp collapsed
      have small : precision ≤ 1 :=
        (not_lt_iff number_one ((pos_iff _).mp positive).1).mp (bounded (weight, precision) (by simp))
      by_cases counts : 0 < weight
      · rw [if_pos counts] at summed
        have share : weight ≤ 1 :=
          (not_lt_iff number_one ((pos_iff _).mp counts).1).mp (shares (weight, precision) (by simp))
        have term := mul_nonpos counts share (laws.log_nonpos precision positive small)
        exact later (add_nonpos nonpos term) summed
      · rw [if_neg counts] at summed
        exact later nonpos summed

/-! ## The score of precisions -/

/-- A score is zero, unless the precisions were smoothed and have logarithms. -/
theorem aggregate_score {precisions : List Fraction} {hypothesisLength referenceLength : Nat}
    {weights : Option Weights} {smoother : Smoother} {score : Score}
    (scored : aggregate precisions hypothesisLength referenceLength weights smoother = .ok score) :
    score.score = 0 ∨ ∃ unigrams others applied sum, precisions = unigrams :: others ∧ unigrams.isZero = false ∧
      applicableWeights weights precisions.length = .ok applied ∧
      weightedLog? 0 (applied.values.zip (smoother.smooth precisions hypothesisLength)) = some sum ∧
      score.score = brevityPenalty referenceLength hypothesisLength * Elementary.exp sum := by
  cases aggregate_eq_ok_iff.mp scored with
  | empty => exact .inl rfl
  | unmatched zero chosen => exact .inl rfl
  | @matched unigrams others applied nonzero chosen count =>
    cases summed : weightedLog? 0 (applied.values.zip (smoother.smooth (unigrams :: others) hypothesisLength)) with
    | none => exact .inl (by simp [reportOn, penalizedMean, summed])
    | some sum =>
      exact .inr ⟨unigrams, others, applied, sum, rfl, nonzero, chosen, summed, by simp [reportOn, penalizedMean, summed]⟩

/-- Smoothed precisions that have logarithms are scored. -/
theorem aggregate_eq_ok {unigrams : Fraction} {others : List Fraction} (matched : unigrams.isZero = false)
    {hypothesisLength : Nat} (referenceLength : Nat) {weights : Option Weights} {applied : Weights}
    (chosen : applicableWeights weights (unigrams :: others).length = .ok applied) (smoother : Smoother)
    (count : (smoother.smooth (unigrams :: others) hypothesisLength).length = (unigrams :: others).length)
    {sum : Float}
    (summed : weightedLog? 0 (applied.values.zip (smoother.smooth (unigrams :: others) hypothesisLength)) = some sum) :
    ∃ score, aggregate (unigrams :: others) hypothesisLength referenceLength weights smoother = .ok score ∧
      score.score = brevityPenalty referenceLength hypothesisLength * Elementary.exp sum := by
  exact ⟨_, aggregate_matched matched chosen _ _ count, by simp [reportOn, penalizedMean, summed]⟩

/-- Precisions that are smoothed to numbers up to one score between zero and one. -/
theorem aggregate_inUnit (laws : Elementary.Laws) {precisions : List Fraction}
    {hypothesisLength referenceLength : Nat} (small : hypothesisLength < 2 ^ 64) {weights : Option Weights}
    (accepted : ∀ w ∈ weights, w.Accepted) {smoother : Smoother}
    (bounded : ∀ unigrams others, precisions = unigrams :: others → unigrams.isZero = false →
      ∀ s ∈ smoother.smooth precisions hypothesisLength, ¬ 1 < s) {score : Score}
    (scored : aggregate precisions hypothesisLength referenceLength weights smoother = .ok score) :
    InUnit score.score := by
  rcases aggregate_score scored with zero | ⟨unigrams, others, applied, sum, listed, matched, chosen, summed, same⟩
  · rw [zero]
    exact inUnit_of_le (by decide)
  · have nonpos : sum ≤ 0 := by
      refine weightedLog?_nonpos laws (fun pair member => ?_) (fun pair member => ?_) (by decide) summed
      · exact Weights.applicable_le_one accepted chosen pair.1 (List.of_mem_zip member).1
      · exact bounded unigrams others listed matched pair.2 (List.of_mem_zip member).2
    rw [same]
    exact inUnit_of_le (mul_unit (brevityPenalty_unit laws referenceLength small) (laws.exp_unit sum nonpos))

/-- Statistics of a method with bounded substitutes, or of one token, score between zero and one. -/
theorem Statistics.Regular.score_inUnit (laws : Elementary.Laws) {method : Smoothing}
    (valid : method.validate = .ok ()) {s : Statistics} (regular : s.Regular) (small : s.hypothesisLength < 2 ^ 64)
    (bounded : s.hypothesisLength ≤ 1 ∨ method.Bounded s.hypothesisLength) {weights : Option Weights}
    (accepted : ∀ w ∈ weights, w.Accepted) {score : Score}
    (scored : s.score weights method.smoother = .ok score) : InUnit score.score := by
  rw [Statistics.score, regular.quotients_eq.1, ok_bind] at scored
  have counted : ∀ p ∈ s.precisions, 0 < p.denominator := fun p member => (regular.of_mem_precisions member).1
  have le : ∀ p ∈ s.precisions, p.numerator ≤ p.denominator := fun p member => (regular.of_mem_precisions member).2
  refine aggregate_inUnit laws small accepted (fun unigrams others listed matched => ?_) scored
  rcases bounded with short | bounded
  · have single : others = [] := by
      have length := regular.length_precisions_le short
      rw [listed, List.length_cons] at length
      exact List.eq_nil_of_length_eq_zero (by omega)
    subst single
    have first := regular.of_mem_precisions (p := unigrams) (by simp [listed])
    have given : unigrams.numerator ≠ 0 := by
      simpa [Fraction.isZero, Fraction.isApplicable, first.1] using matched
    intro t member
    rw [listed] at member
    change t ∈ method.smooth [unigrams] s.hypothesisLength at member
    rw [Smoothing.smooth_single method given, List.mem_singleton] at member
    rw [member]
    exact Fraction.toFloat_le_one first.1 first.2
  · refine Smoothing.smooth_le_one valid bounded counted le fun p above => ?_
    have fewer := regular.denominator_lt above
    omega

/-! ## Scores above one -/

/-- With the weight on the last precision only, its logarithm is all that counts. -/
theorem weightedLog?_only {precisions : List Float} (positive : ∀ x ∈ precisions, 0 < x) {s : Float} (last : 0 < s) :
    weightedLog? 0 ((Weights.only precisions.length).values.zip (precisions ++ [s])) =
      some (0 + 1 * Elementary.log s) := by
  unfold Weights.only
  dsimp only
  induction precisions with
  | nil =>
    simp only [List.length_nil, List.replicate_zero, List.nil_append, List.zip_cons_cons, List.zip_nil_left,
      weightedLog?]
    rw [if_neg ((kept_iff s).mpr last), if_pos (by decide)]
  | cons x rest ih =>
    simp only [List.length_cons, List.replicate_succ, List.cons_append, List.zip_cons_cons, weightedLog?]
    rw [if_neg ((kept_iff x).mpr (positive x (by simp))), if_neg (by decide)]
    exact ih fun y member => positive y (by simp [member])

/-- A method whose substitutes exceed one makes scores of that length that do. -/
theorem one_lt_score (laws : Elementary.Laws) {α : Type} [DecidableEq α] (token : α) {below : Nat}
    (positive : 0 < below) (small : below + 1 < 2 ^ 64) {method : Smoothing}
    (unbounded : ¬ method.Bounded (below + 1)) :
    ∃ score, Score.ofSentence [List.replicate below token] (List.replicate (below + 1) token)
        (some (Weights.only below)) method.smoother = .ok score ∧ 1 < score.score := by
  obtain ⟨matched, last, counted, length, found, zero, single⟩ := modifiedPrecisions_replicate token below
  obtain ⟨s, large, smoothed⟩ := Smoothing.smooth_unmatched_last (by omega) unbounded
    (fun p member => (found p member).1.ne') zero single
  have scaled : ∀ x ∈ matched.map Fraction.toFloat, 0 < x := by
    intro x member
    obtain ⟨p, listed, rfl⟩ := List.mem_map.mp member
    obtain ⟨numerator, denominator, le⟩ := found p listed
    exact Fraction.toFloat_pos numerator denominator (by omega)
  -- All the weight is on the one order without a match, so that its substitute is the whole mean.
  have logarithm : 0 < Elementary.log s := laws.log_pos s large
  have summed := weightedLog?_only scaled (lt_of_lt_of_le (by decide) (le_of_lt large))
  rw [List.length_map, length, one_mul_of_pos logarithm, zero_add_of_pos logarithm, ← smoothed] at summed
  have total : (matched ++ [last]).length = below + 1 := by rw [List.length_append, length, List.length_singleton]
  have chosen : applicableWeights (some (Weights.only below)) (matched ++ [last]).length =
      .ok (Weights.only below) := by
    rw [total]
    exact Weights.restrict_only below
  obtain ⟨unigrams, others, rfl⟩ := List.exists_cons_of_length_pos (length ▸ positive)
  have matching : unigrams.isZero = false := by
    simp [Fraction.isZero, (found unigrams (by simp)).1.ne']
  obtain ⟨score, scored, same⟩ := aggregate_eq_ok matching below chosen method.smoother
    (Smoothing.length_smooth method _ (below + 1)) summed
  have order : scoredOrder (some (Weights.only below)) = below + 1 := by
    simp [scoredOrder, Weights.maxOrder, Weights.only]
  refine ⟨score, ?_, ?_⟩
  · rw [Score.ofSentence, order, counted, List.map_singleton, List.length_replicate, closestLength, ok_bind]
    simpa using scored
  · have exceeds := laws.one_lt_exp_log s large
    have whole : brevityPenalty below (below + 1) = 1 := brevityPenalty_of_le (Nat.succ_pos below) (Nat.le_succ below)
    rw [same, whole, one_mul_of_pos (lt_of_lt_of_le (by decide) (le_of_lt exceeds))]
    exact exceeds

/-! ## The condition -/

/-- Whether all hypotheses of a length score between zero and one. -/
def SentencesInUnit (method : Smoothing) (length : Nat) : Prop :=
  ∀ (α : Type) [DecidableEq α] (references : List (List α)) (hypothesis : List α) (weights : Option Weights)
    (score : Score), hypothesis.length = length → (∀ w ∈ weights, w.Accepted) →
    Score.ofSentence references hypothesis weights method.smoother = .ok score → InUnit score.score

/-- Whether all statistics with that many tokens in their hypotheses score between zero and one. -/
def StatisticsInUnit (method : Smoothing) (length : Nat) : Prop :=
  ∀ (s : Statistics) (weights : Option Weights) (score : Score), s.Reachable → s.hypothesisLength = length →
    (∀ w ∈ weights, w.Accepted) → s.score weights method.smoother = .ok score → InUnit score.score

/-- A sentence is scored by the statistics of its pair. -/
theorem StatisticsInUnit.sentences {method : Smoothing} {length : Nat} (bounded : StatisticsInUnit method length) :
    SentencesInUnit method length := by
  intro α _ references hypothesis weights score reached accepted scored
  rw [Score.ofSentence_eq, bind_eq_ok] at scored
  obtain ⟨s, counted, scored⟩ := scored
  have given : references ≠ [] := by
    rintro rfl
    rw [Statistics.ofPair_nil] at counted
    cases counted
  have same : s.hypothesisLength = hypothesis.length := by
    obtain ⟨_, found, _, _, kept⟩ := Statistics.ofPair_eq (scoredOrder_pos weights) given hypothesis
    cases counted.symm.trans found
    exact kept
  exact bounded s weights score (.ofPair given (scoredOrder_pos weights) counted) (same.trans reached) accepted scored

theorem SentencesInUnit.bounded (laws : Elementary.Laws) {method : Smoothing} {length : Nat} (small : length < 2 ^ 64)
    (inside : SentencesInUnit method length) : length ≤ 1 ∨ method.Bounded length := by
  by_contra exceeds
  rw [not_or, not_le] at exceeds
  obtain ⟨below, rfl⟩ := Nat.exists_eq_add_of_lt exceeds.1
  rw [Nat.add_comm 1 below] at *
  obtain ⟨score, scored, large⟩ := one_lt_score laws () (Nat.succ_pos below) small exceeds.2
  have unit := inside Unit _ _ _ score (by simp) (by simpa using Weights.accepted_only (below + 1)) scored
  obtain ⟨number, above⟩ := (one_lt_iff _).mp large
  exact absurd ((le_one_iff _).mp unit.2.2).2 (not_le.mpr above)

/-- The scores of a method with accepted parameters stay between zero and one just for hypotheses of at most one
token and for those whose length keeps its substitutes at most one. -/
theorem inUnit_iff (laws : Elementary.Laws) {method : Smoothing} (valid : method.validate = .ok ()) {length : Nat}
    (small : length < 2 ^ 64) :
    ((length ≤ 1 ∨ method.Bounded length) ↔ SentencesInUnit method length) ∧
      ((length ≤ 1 ∨ method.Bounded length) ↔ StatisticsInUnit method length) := by
  have inside : length ≤ 1 ∨ method.Bounded length → StatisticsInUnit method length := by
    rintro bounded s weights score reachable rfl accepted scored
    exact reachable.regular.score_inUnit laws valid small bounded accepted scored
  refine ⟨⟨fun bounded => ?_, fun scores => ?_⟩, inside, fun scores => ?_⟩
  · exact (inside bounded).sentences
  · exact scores.bounded laws small
  · exact scores.sentences.bounded laws small

end

/-- For four tokens the default divisor is large enough, and the numerator one hundred is not small enough. -/
theorem inUnit_four_tokens :
    @SentencesInUnit .steps (.lengthScaled 5) 4 ∧ @StatisticsInUnit .steps (.lengthScaled 5) 4 ∧
      ¬ @SentencesInUnit .steps (.epsilon 100) 4 ∧ ¬ @StatisticsInUnit .steps (.epsilon 100) 4 := by
  have scaled := @inUnit_iff .steps Elementary.steps_laws (.lengthScaled 5) (by rfl) 4 (by decide)
  have replaced := @inUnit_iff .steps Elementary.steps_laws (.epsilon 100) (by rfl) 4 (by decide)
  have within : @Smoothing.Bounded .steps (.lengthScaled 5) 4 := by
    intro _
    decide
  have beyond : ¬ (4 ≤ 1 ∨ @Smoothing.Bounded .steps (.epsilon 100) 4) := by
    rintro (few | bounded)
    · exact absurd few (by decide)
    · exact bounded (by decide)
  exact ⟨scaled.1.mp (.inr within), scaled.2.mp (.inr within), fun inside => beyond (replaced.1.mpr inside),
    fun inside => beyond (replaced.2.mpr inside)⟩

end Bleu

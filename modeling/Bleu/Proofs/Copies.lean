import Bleu.Proofs.Lines
import Bleu.Proofs.References
import Bleu.Proofs.Restriction
import Bleu.Proofs.UnitInterval

/-!
# Copied text

A hypothesis that is a segment of a reference finds each of its windows there, as often as it has it: all its windows
match, in every order (`matchCount_segment`). No method of smoothing changes such precisions, their logarithms vanish,
and so does any weighted sum of them. So the copy of a whole reference, which is also the closest in length, scores
exactly one (`Score.ofSentence_copy`).
-/
namespace Bleu
open Double Ngram Outcomes

/-- What is relied on of the exponential and the logarithm at zero and one. -/
structure Elementary.Neutral [Elementary] : Prop where
  exp_zero : Elementary.exp 0 = 1
  log_one : Elementary.log 1 = 0

theorem Elementary.steps_neutral : @Elementary.Neutral .steps := by
  refine @Elementary.Neutral.mk .steps ?_ ?_
  · rw [exp_steps, if_neg (by decide), if_neg (by decide)]
  · rw [log_steps, if_neg (by decide), if_neg (by decide)]

/-! ## Windows of a segment -/

section
variable {α : Type}

theorem windows_eq_nil {n : Nat} {xs : List α} (short : xs.length < n) : windows n xs = [] := by
  cases xs with
  | nil => rfl
  | cons x rest =>
    rw [List.length_cons] at short
    rw [windows, if_neg (by omega)]

theorem windows_sublist_append_left (n : Nat) (before xs : List α) :
    (windows n xs).Sublist (windows n (before ++ xs)) := by
  induction before with
  | nil => exact List.Sublist.refl _
  | cons x rest ih =>
    rw [List.cons_append, windows]
    split_ifs with fits
    · exact ih.cons _
    · have short : xs.length < n := by
        rw [List.length_append] at fits
        omega
      rw [windows_eq_nil short]

theorem windows_sublist_append_right (n : Nat) (xs after : List α) :
    (windows n xs).Sublist (windows n (xs ++ after)) := by
  induction xs with
  | nil => exact List.nil_sublist _
  | cons x rest ih =>
    by_cases fits : n ≤ rest.length + 1
    · have reached : n ≤ (rest ++ after).length + 1 := by
        rw [List.length_append]
        omega
      have same : (x :: rest ++ after).take n = (x :: rest).take n := List.take_append_of_le_length fits
      rw [List.cons_append] at same
      rw [List.cons_append, windows, if_pos fits, windows, if_pos reached, same]
      exact ih.cons_cons _
    · rw [windows, if_neg fits]
      exact List.nil_sublist _

/-- The windows of a segment are among those of the whole. -/
theorem windows_sublist (n : Nat) {xs ys : List α} (segment : xs <:+: ys) :
    (windows n xs).Sublist (windows n ys) := by
  obtain ⟨before, after, rfl⟩ := segment
  exact (windows_sublist_append_left n before xs).trans (windows_sublist_append_right n (before ++ xs) after)

end

/-! ## Full precisions -/

/-- A precision with windows that all match. -/
structure Fraction.Full (p : Fraction) : Prop where
  matched : p.numerator = p.denominator
  counted : 0 < p.denominator

namespace Fraction.Full
variable {p : Fraction}

theorem numerator_ne_zero (full : p.Full) : p.numerator ≠ 0 := by
  rw [full.matched]
  exact full.counted.ne'

theorem isZero (full : p.Full) : p.isZero = false := by
  simp [Fraction.isZero, full.numerator_ne_zero]

theorem toFloat_eq (full : p.Full) (small : p.denominator < 2 ^ 64) : p.toFloat = 1 := by
  rw [toFloat, full.matched]
  exact ofNat_div_self full.counted small.le

theorem plusOne_eq (full : p.Full) (word : p.denominator + 1 < 2 ^ 64) : Smoothing.plusOne p = 1 := by
  have addable : p.Addable := ⟨full.matched ▸ word, word⟩
  rw [Smoothing.plusOne_of_addable addable, full.matched]
  exact ofNat_div_self (Nat.succ_pos _) word.le

end Fraction.Full

section
variable {α : Type} [DecidableEq α] {references : List (List α)} {hypothesis : List α}

/-- All windows of a segment of a reference match. -/
theorem matchCount_segment {n : Nat} (positive : 0 < n) {reference : List α} (listed : reference ∈ references)
    (segment : hypothesis <:+: reference) :
    matchCount references hypothesis n = windowCount hypothesis.length n := by
  rw [← length_windows positive, ← Histogram.sum_count (windows n hypothesis)]
  refine Finset.sum_congr rfl fun g _ => min_eq_left ?_
  calc (windows n hypothesis).count g ≤ (windows n reference).count g := (windows_sublist n segment).count_le g
    _ ≤ greatestCount references n g := (greatestCount_le_iff references n g _).mp le_rfl reference listed

/-- The precisions of a copy are full, over at most as many windows as it has tokens. -/
theorem full_reachedPrecision (copied : ∃ reference ∈ references, hypothesis <:+: reference) (maxOrder : Nat) :
    ∀ p ∈ (List.range (min maxOrder hypothesis.length)).map fun i => reachedPrecision references hypothesis (i + 1),
      p.Full ∧ p.denominator ≤ hypothesis.length := by
  obtain ⟨reference, listed, segment⟩ := copied
  intro p member
  obtain ⟨i, reached, rfl⟩ := List.mem_map.mp member
  rw [List.mem_range] at reached
  have order : 0 < i + 1 := Nat.succ_pos i
  have windows := windowCount_eq order (show i + 1 ≤ hypothesis.length by omega)
  refine ⟨⟨(matchCount_segment order listed segment).trans windows, Nat.succ_pos _⟩, ?_⟩
  change hypothesis.length - (i + 1) + 1 ≤ hypothesis.length
  omega

/-- Above order one there are fewer windows than tokens. -/
theorem denominator_reachedPrecision_lt (references : List (List α)) {orders : Nat}
    (reached : orders ≤ hypothesis.length) :
    ∀ p ∈ ((List.range orders).map fun i => reachedPrecision references hypothesis (i + 1)).tail,
      p.denominator < hypothesis.length := by
  intro p above
  obtain ⟨j, listed⟩ := List.mem_iff_getElem?.mp above
  rw [List.getElem?_tail, List.getElem?_map, Option.map_eq_some_iff] at listed
  obtain ⟨i, place, rfl⟩ := listed
  obtain ⟨inside, same⟩ := List.getElem?_eq_some_iff.mp place
  rw [List.length_range] at inside
  rw [List.getElem_range] at same
  change hypothesis.length - (i + 1) + 1 < hypothesis.length
  omega

end

section
variable [Elementary]

/-! ## Full scores -/

/-- No method of smoothing changes full precisions. -/
theorem Smoothing.smooth_full (method : Smoothing) {precisions : List Fraction} (full : ∀ p ∈ precisions, p.Full)
    (small : ∀ p ∈ precisions, p.denominator < 2 ^ 64) (words : ∀ p ∈ precisions.tail, p.denominator + 1 < 2 ^ 64)
    (length : Nat) : ∀ s ∈ method.smooth precisions length, s = 1 := by
  have kept : ∀ s ∈ precisions.map Fraction.toFloat, s = 1 := by
    intro s member
    obtain ⟨p, listed, rfl⟩ := List.mem_map.mp member
    exact (full p listed).toFloat_eq (small p listed)
  have matched : ∀ p ∈ precisions, p.numerator ≠ 0 := fun p listed => (full p listed).numerator_ne_zero
  cases method with
  | none => exact kept
  | epsilon value => rwa [smooth, substituteFrom_matched _ 0 matched]
  | addOne =>
    cases precisions with
    | nil => exact kept
    | cons unigrams others =>
      intro s member
      rcases List.mem_cons.mp member with rfl | above
      · exact (full unigrams (by simp)).toFloat_eq (small unigrams (by simp))
      · obtain ⟨p, listed, rfl⟩ := List.mem_map.mp above
        exact (full p (by simp [listed])).plusOne_eq (words p listed)
  | exponential => rwa [smooth, substituteFrom_matched _ 0 matched]
  | lengthScaled k =>
    rw [smooth]
    split_ifs
    · rwa [substituteFrom_matched _ 0 matched]
    · exact kept

/-- Shares of the logarithm of one add up to zero. -/
theorem weightedLog?_ones (neutral : Elementary.Neutral) {pairs : List (Float × Float)}
    (shares : ∀ pair ∈ pairs, pair.1 ≤ 1) (ones : ∀ pair ∈ pairs, pair.2 = 1) :
    weightedLog? 0 pairs = some 0 := by
  induction pairs with
  | nil => rfl
  | cons pair rest ih =>
    obtain ⟨weight, precision⟩ := pair
    obtain rfl : precision = 1 := ones (weight, precision) (by simp)
    have share : weight ≤ 1 := shares (weight, 1) (by simp)
    have later := ih (fun p member => shares p (by simp [member])) fun p member => ones p (by simp [member])
    have zero : (0 : Float) + 0 = 0 := by decide
    rw [weightedLog?, if_neg (by decide), neutral.log_one]
    by_cases counts : 0 < weight
    · have positive := ((pos_iff weight).mp counts).2
      have term : weight * 0 = 0 := mul_zero_of_value_pos positive (finite_of_unit (le_of_lt counts) share).1
      rwa [if_pos counts, term, zero]
    · rwa [if_neg counts]

/-- Full precisions of a hypothesis as long as the closest reference score one. -/
theorem aggregate_full (neutral : Elementary.Neutral) {precisions : List Fraction} (nonempty : precisions ≠ [])
    (full : ∀ p ∈ precisions, p.Full) (small : ∀ p ∈ precisions, p.denominator < 2 ^ 64)
    (words : ∀ p ∈ precisions.tail, p.denominator + 1 < 2 ^ 64) {length : Nat} (positive : 0 < length)
    {weights : Option Weights} (reachable : ∀ w ∈ weights, w.Reachable) (method : Smoothing) {score : Score}
    (scored : aggregate precisions length length weights method.smoother = .ok score) :
    score.score = 1 ∧ score.referenceLength = length ∧ score.brevityPenalty = 1 := by
  have whole : brevityPenalty length length = 1 := brevityPenalty_of_le positive le_rfl
  cases aggregate_eq_ok_iff.mp scored with
  | empty => exact absurd rfl nonempty
  | @unmatched unigrams others applied zero chosen =>
    rw [(full unigrams (by simp)).isZero] at zero
    cases zero
  | @matched unigrams others applied _ chosen count =>
    refine ⟨?_, rfl, whole⟩
    have shares := Weights.applicable_shares reachable chosen
    have ones := method.smooth_full full small words length
    have summed : weightedLog? 0 (applied.values.zip (method.smooth (unigrams :: others) length)) = some 0 :=
      weightedLog?_ones neutral (fun pair member => (shares _ (List.of_mem_zip member).1).2)
        fun pair member => ones _ (List.of_mem_zip member).2
    have one : (1 : Float) * 1 = 1 := by decide
    change penalizedMean (brevityPenalty length length) applied.values (method.smooth (unigrams :: others) length) = 1
    rw [penalizedMean, summed, Option.elim_some, neutral.exp_zero, whole, one]

/-- All windows of a segment of a reference match, in every order. The copy of a whole reference is measured against its
own length and scores exactly one, with every method of smoothing, without weights and with all weights that have a sum
to divide by. -/
theorem Score.ofSentence_copy (neutral : Elementary.Neutral) {α : Type} [DecidableEq α] {references : List (List α)}
    {hypothesis : List α} (nonempty : hypothesis ≠ []) (copied : ∃ reference ∈ references, hypothesis <:+: reference) :
    (∀ maxOrder : Nat, 0 < maxOrder → ∃ ps, modifiedPrecisions references hypothesis maxOrder = .ok ps ∧
      ps.length = min maxOrder hypothesis.length ∧ ∀ p ∈ ps, p.numerator = p.denominator ∧ 0 < p.denominator) ∧
    (hypothesis ∈ references → hypothesis.length < 2 ^ 64 →
      ∀ (method : Smoothing) (weights : Option Weights), (∀ w ∈ weights, w.Reachable) →
        ((∃ score, Score.ofSentence references hypothesis weights method.smoother = .ok score) ↔
          ∀ w ∈ weights, ¬ Weights.sum (w.values.take hypothesis.length) ≤ 0) ∧
        ∀ score, Score.ofSentence references hypothesis weights method.smoother = .ok score →
          score.score = 1 ∧ score.referenceLength = hypothesis.length ∧ score.brevityPenalty = 1) := by
  have given : references ≠ [] := by
    obtain ⟨reference, listed, _⟩ := copied
    exact List.ne_nil_of_mem listed
  have positive : 0 < hypothesis.length := List.length_pos_iff.mpr nonempty
  constructor
  · intro maxOrder orders
    refine ⟨_, modifiedPrecisions_eq orders given hypothesis, by simp, fun p member => ?_⟩
    obtain ⟨full, _⟩ := full_reachedPrecision copied maxOrder p member
    exact ⟨full.matched, full.counted⟩
  · intro whole small method weights reachable
    have full := full_reachedPrecision copied (scoredOrder weights)
    have fewer := denominator_reachedPrecision_lt references (Nat.min_le_right (scoredOrder weights) hypothesis.length)
    have applies : (∃ applied, applicableWeights weights (min (scoredOrder weights) hypothesis.length) = .ok applied) ↔
        ∀ w ∈ weights, ¬ Weights.sum (w.values.take hypothesis.length) ≤ 0 := Weights.exists_applicable_iff positive
    have closest : closestLength hypothesis.length (references.map List.length) = .ok hypothesis.length :=
      closestLength_of_mem (List.mem_map_of_mem whole)
    rw [Score.ofSentence_of_closest closest, ← applies]
    generalize listed : (List.range (min (scoredOrder weights) hypothesis.length)).map (fun i =>
      reachedPrecision references hypothesis (i + 1)) = precisions at full fewer ⊢
    have length : precisions.length = min (scoredOrder weights) hypothesis.length := by simp [← listed]
    have orders : precisions ≠ [] := by
      rw [← List.length_pos_iff, length]
      exact Nat.lt_min.mpr ⟨scoredOrder_pos weights, positive⟩
    rw [← length]
    refine ⟨aggregate_scored_iff method orders _ _ weights, fun score scored => ?_⟩
    exact aggregate_full neutral orders (fun p member => (full p member).1)
      (fun p member => (full p member).2.trans_lt small)
      (fun p above => (Nat.succ_le_of_lt (fewer p above)).trans_lt small) positive reachable method scored

end

/-- Three of four tokens of a reference, and the whole of another one, with weights for two orders. -/
theorem ofSentence_copy_three_tokens :
    (∃ ps, modifiedPrecisions [["a", "b", "a", "b"], ["a", "b", "a"]] ["a", "b", "a"] 9 = .ok ps ∧ ps.length = 3 ∧
      ∀ p ∈ ps, p.numerator = p.denominator ∧ 0 < p.denominator) ∧
    ∃ score, @Score.ofSentence .steps String _ [["a", "b", "a", "b"], ["a", "b", "a"]] ["a", "b", "a"]
        (some ⟨[0.75, 0.5], by simp⟩) (@Smoothing.smoother .steps .addOne) = .ok score ∧
      score.score = 1 ∧ score.referenceLength = 3 ∧ score.brevityPenalty = 1 := by
  have nonempty : ["a", "b", "a"] ≠ [] := by simp
  have segment : ["a", "b", "a"] <:+: ["a", "b", "a", "b"] := ⟨[], ["b"], rfl⟩
  have copied : ∃ reference ∈ [["a", "b", "a", "b"], ["a", "b", "a"]], ["a", "b", "a"] <:+: reference :=
    ⟨_, List.mem_cons_self, segment⟩
  obtain ⟨precisions, scores⟩ := @Score.ofSentence_copy .steps Elementary.steps_neutral String _ _ _ nonempty copied
  have made : Weights.ofList [0.75, 0.5] = .ok ⟨[0.75, 0.5], by simp⟩ := by decide +kernel
  have positive : ¬ Weights.sum [0.75, 0.5] ≤ 0 := by decide +kernel
  obtain ⟨scored, one⟩ := scores (by simp) (by decide) .addOne (some ⟨[0.75, 0.5], by simp⟩)
    fun w given => by
      cases given
      exact .made (.list made)
  obtain ⟨score, found⟩ := scored.mpr fun w given => by
    cases given
    exact positive
  exact ⟨precisions 9 (by decide), score, found, one score found⟩

end Bleu

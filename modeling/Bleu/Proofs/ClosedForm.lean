import Bleu.Proofs.Aggregate
import Bleu.Proofs.Weights

/-!
# The score as a formula

Scoring adds up weighted logarithms one order after the other and stops at the first precision that has none. The result
does not depend on where it stops: `weightedLog?_eq_none_iff` says when there is no sum, and `weightedLog?_eq_some` that
otherwise it is the sum of the weighted logarithms (`logSum`). `ClosedForm` says what a score of precisions holds, field
by field, and `Refused` when there is none; `aggregate_closedForm` proves that the two are all there is.
-/
namespace Bleu
open Double Outcomes

/-- Whether a smoothed precision has no logarithm. -/
def LacksLog (x : Float) : Prop := x ≤ 0 ∨ x.isNaN = true

/-- Whether one of the orders that have a weight, be it zero, has no logarithm. -/
def Collapses (weights smoothed : List Float) : Prop := ∃ x ∈ smoothed.take weights.length, LacksLog x

/-- When precisions are refused: given weights cannot be cut to their orders, or smoothing does not give one number per
order. -/
def Refused (hypothesisLength : Nat) (weights : Option Weights) (smoother : Smoother) : List Fraction → Prop
  | [] => False
  | unigrams :: others =>
    (∃ w ∈ weights, ∃ fault, w.restrict (unigrams :: others).length = .error fault) ∨
      unigrams.isZero = false ∧
        (smoother.smooth (unigrams :: others) hypothesisLength).length ≠ (unigrams :: others).length

/-! ## The loop -/

theorem lacksLog_iff (x : Float) : (x ≤ 0 || x.isNaN) = true ↔ LacksLog x := by
  rw [Bool.or_eq_true, decide_eq_true_eq]
  rfl

/-- The precisions that do not settle the score are the positive ones. -/
theorem kept_iff (x : Float) : ¬ (x ≤ 0 || x.isNaN) = true ↔ 0 < x := by
  rw [Bool.or_eq_true, decide_eq_true_eq, not_or, Bool.not_eq_true]
  constructor
  · rintro ⟨above, number⟩
    exact pos_of_not_le number above
  · intro positive
    exact ⟨fun nonpos => not_lt_of_le nonpos positive, ((pos_iff x).mp positive).1⟩

theorem not_lacksLog_iff (x : Float) : ¬ LacksLog x ↔ 0 < x := by rw [← lacksLog_iff, kept_iff]

theorem map_snd_zip (weights smoothed : List Float) :
    (weights.zip smoothed).map Prod.snd = smoothed.take weights.length := by
  induction weights generalizing smoothed with
  | nil => simp
  | cons w rest ih =>
    cases smoothed with
    | nil => rfl
    | cons s others => simp [ih]

theorem collapses_iff (weights smoothed : List Float) :
    Collapses weights smoothed ↔ ∃ pair ∈ weights.zip smoothed, LacksLog pair.2 := by
  simp only [Collapses, ← map_snd_zip, List.mem_map, exists_exists_and_eq_and]

variable [Elementary]

/-- The sum of the weighted logarithms, from order one on, of the orders with a positive weight. -/
def logSum (weights smoothed : List Float) : Float :=
  Weights.sum (((weights.zip smoothed).filter fun pair => 0 < pair.1).map fun pair =>
    pair.1 * Elementary.log pair.2)

/-- There is no sum as soon as one precision has no logarithm, whatever its weight. -/
theorem weightedLog?_eq_none_iff (start : Float) (pairs : List (Float × Float)) :
    weightedLog? start pairs = none ↔ ∃ pair ∈ pairs, LacksLog pair.2 := by
  induction pairs generalizing start with
  | nil => simp [weightedLog?]
  | cons pair rest ih =>
    obtain ⟨weight, precision⟩ := pair
    rw [weightedLog?]
    by_cases lacks : LacksLog precision
    · rw [if_pos ((lacksLog_iff precision).mpr lacks)]
      simp [lacks]
    · rw [if_neg (mt (lacksLog_iff precision).mp lacks), ih]
      simp [lacks]

/-- Otherwise the sum is that of the terms with a positive weight, in their order. -/
theorem weightedLog?_eq_some (start : Float) {pairs : List (Float × Float)}
    (defined : ∀ pair ∈ pairs, ¬ LacksLog pair.2) :
    weightedLog? start pairs = some (((pairs.filter fun pair => 0 < pair.1).map fun pair =>
      pair.1 * Elementary.log pair.2).foldl (· + ·) start) := by
  induction pairs generalizing start with
  | nil => rfl
  | cons pair rest ih =>
    obtain ⟨weight, precision⟩ := pair
    have first : ¬ LacksLog precision := defined (weight, precision) List.mem_cons_self
    have later := fun start => ih start fun pair member => defined pair (List.mem_cons_of_mem _ member)
    rw [weightedLog?, if_neg (mt (lacksLog_iff precision).mp first)]
    by_cases counts : 0 < weight
    · rw [if_pos counts, later, List.filter_cons_of_pos (by simpa using counts), List.map_cons, List.foldl_cons]
    · rw [if_neg counts, later, List.filter_cons_of_neg (by simpa using counts)]

theorem penalizedMean_of_collapses {weights smoothed : List Float} (collapses : Collapses weights smoothed)
    (penalty : Float) : penalizedMean penalty weights smoothed = 0 := by
  rw [penalizedMean, (weightedLog?_eq_none_iff 0 _).mpr ((collapses_iff weights smoothed).mp collapses), Option.elim_none]

theorem penalizedMean_of_not_collapses {weights smoothed : List Float} (defined : ¬ Collapses weights smoothed)
    (penalty : Float) :
    penalizedMean penalty weights smoothed = penalty * Elementary.exp (logSum weights smoothed) := by
  rw [collapses_iff] at defined
  rw [penalizedMean, weightedLog?_eq_some 0 fun pair member lacks => defined ⟨pair, member, lacks⟩, Option.elim_some]
  rfl

/-! ## The fields of a score -/

/-- What is reported of the orders of precisions. -/
def OrdersForm (hypothesisLength : Nat) (weights : Option Weights) (smoother : Smoother) (s : Score) :
    List Fraction → Prop
  | [] => s.weights = [] ∧ s.smoothed = [] ∧ s.score = 0
  | unigrams :: others =>
    ∃ w, applicableWeights weights (unigrams :: others).length = .ok w ∧ s.weights = w.values ∧
      (unigrams.isZero = true → s.smoothed = [] ∧ s.score = 0) ∧
      (unigrams.isZero = false → s.smoothed = smoother.smooth (unigrams :: others) hypothesisLength ∧
        (Collapses s.weights s.smoothed → s.score = 0) ∧
        (¬ Collapses s.weights s.smoothed → s.score = s.brevityPenalty * Elementary.exp (logSum s.weights s.smoothed)))

/-- What the score of precisions is. -/
structure ClosedForm (precisions : List Fraction) (hypothesisLength referenceLength : Nat) (weights : Option Weights)
    (smoother : Smoother) (s : Score) : Prop where
  listed : s.precisions = precisions
  hypothesis : s.hypothesisLength = hypothesisLength
  reference : s.referenceLength = referenceLength
  penalty : s.brevityPenalty = brevityPenalty referenceLength hypothesisLength
  orders : OrdersForm hypothesisLength weights smoother s precisions

section
variable {precisions : List Fraction} {hypothesisLength referenceLength : Nat} {weights : Option Weights}
  {smoother : Smoother} {score other : Score}

theorem Scored.closedForm (scored : Scored hypothesisLength referenceLength weights smoother precisions score) :
    ClosedForm precisions hypothesisLength referenceLength weights smoother score := by
  cases scored with
  | empty => exact ⟨rfl, rfl, rfl, rfl, rfl, rfl, rfl⟩
  | unmatched zero chosen =>
    refine ⟨rfl, rfl, rfl, rfl, _, chosen, rfl, fun _ => ⟨rfl, rfl⟩, fun given => ?_⟩
    rw [zero] at given
    cases given
  | matched given chosen count =>
    refine ⟨rfl, rfl, rfl, rfl, _, chosen, rfl, fun zero => ?_, fun _ => ⟨rfl, fun collapses => ?_, fun defined => ?_⟩⟩
    · rw [given] at zero
      cases zero
    · exact penalizedMean_of_collapses collapses _
    · exact penalizedMean_of_not_collapses defined _

/-- Two reports of the same orders with the same penalty agree in all that is computed. -/
theorem OrdersForm.eq (penalty : score.brevityPenalty = other.brevityPenalty)
    (first : OrdersForm hypothesisLength weights smoother score precisions)
    (second : OrdersForm hypothesisLength weights smoother other precisions) :
    score.weights = other.weights ∧ score.smoothed = other.smoothed ∧ score.score = other.score := by
  cases precisions with
  | nil =>
    obtain ⟨left, absent, zero⟩ := first
    obtain ⟨right, nothing, naught⟩ := second
    exact ⟨left.trans right.symm, absent.trans nothing.symm, zero.trans naught.symm⟩
  | cons unigrams others =>
    obtain ⟨w, chosen, left, unmatched, matched⟩ := first
    obtain ⟨v, found, right, lacking, having⟩ := second
    rw [chosen] at found
    cases found
    have same : score.weights = other.weights := left.trans right.symm
    cases zero : unigrams.isZero with
    | true =>
      obtain ⟨absent, naught⟩ := unmatched zero
      obtain ⟨nothing, vanished⟩ := lacking zero
      exact ⟨same, absent.trans nothing.symm, naught.trans vanished.symm⟩
    | false =>
      obtain ⟨smoothed, collapsed, mean⟩ := matched zero
      obtain ⟨computed, settled, average⟩ := having zero
      have alike : score.smoothed = other.smoothed := smoothed.trans computed.symm
      rw [← same, ← alike] at settled average
      refine ⟨same, alike, ?_⟩
      by_cases collapses : Collapses score.weights score.smoothed
      · exact (collapsed collapses).trans (settled collapses).symm
      · rw [mean collapses, average collapses, penalty]

/-- The form leaves nothing open. -/
theorem ClosedForm.eq (first : ClosedForm precisions hypothesisLength referenceLength weights smoother score)
    (second : ClosedForm precisions hypothesisLength referenceLength weights smoother other) : score = other := by
  have penalty := first.penalty.trans second.penalty.symm
  have listed := first.listed.trans second.listed.symm
  have hypothesis := first.hypothesis.trans second.hypothesis.symm
  have reference := first.reference.trans second.reference.symm
  obtain ⟨same, smoothed, scored⟩ := first.orders.eq penalty second.orders
  cases score
  cases other
  simp_all only

/-! ## Refusals -/

omit [Elementary] in
/-- Some orders get weights, unless weights are given that cannot be cut to them. -/
theorem applicableWeights_eq_error_iff (weights : Option Weights) {usable : Nat} (positive : 0 < usable) (fault : Fault) :
    applicableWeights weights usable = .error fault ↔ ∃ w ∈ weights, w.restrict usable = .error fault := by
  cases weights with
  | none => simp [applicableWeights, Weights.even, positive.ne']
  | some w => simp [applicableWeights]

theorem exists_error_iff :
    (∃ fault, aggregate precisions hypothesisLength referenceLength weights smoother = .error fault) ↔
      Refused hypothesisLength weights smoother precisions := by
  cases precisions with
  | nil => simp [aggregate, Refused, pure, Except.pure]
  | cons unigrams others =>
    have applies : ∀ fault, applicableWeights weights (unigrams :: others).length = .error fault ↔
        ∃ w ∈ weights, w.restrict (unigrams :: others).length = .error fault :=
      applicableWeights_eq_error_iff weights (Nat.succ_pos _)
    rw [Refused]
    cases chosen : applicableWeights weights (unigrams :: others).length with
    | error fault =>
      obtain ⟨w, given, cause⟩ := (applies fault).mp chosen
      rw [aggregate_refused chosen]
      exact ⟨fun _ => .inl ⟨w, given, fault, cause⟩, fun _ => ⟨fault, rfl⟩⟩
    | ok applied =>
      have accepted : ¬ ∃ w ∈ weights, ∃ fault, w.restrict (unigrams :: others).length = .error fault := by
        rintro ⟨w, given, fault, cause⟩
        cases chosen.symm.trans ((applies fault).mpr ⟨w, given, cause⟩)
      rw [or_iff_right accepted]
      cases zero : unigrams.isZero with
      | true =>
        rw [aggregate_unmatched zero, chosen]
        simp [pure, Except.pure]
      | false =>
        by_cases count : (smoother.smooth (unigrams :: others) hypothesisLength).length = (unigrams :: others).length
        · rw [aggregate_matched zero chosen _ _ count]
          simp [count]
        · rw [aggregate_miscounted zero chosen _ _ count]
          simpa using count

end

/-- Precisions have a score just when they are not refused, and the score is what the closed form says. -/
theorem aggregate_closedForm (precisions : List Fraction) (hypothesisLength referenceLength : Nat)
    (weights : Option Weights) (smoother : Smoother) :
    (∀ score, aggregate precisions hypothesisLength referenceLength weights smoother = .ok score ↔
      ¬ Refused hypothesisLength weights smoother precisions ∧
        ClosedForm precisions hypothesisLength referenceLength weights smoother score) ∧
    ((∃ fault, aggregate precisions hypothesisLength referenceLength weights smoother = .error fault) ↔
      Refused hypothesisLength weights smoother precisions) := by
  have refused : (∃ fault, aggregate precisions hypothesisLength referenceLength weights smoother = .error fault) ↔
      Refused hypothesisLength weights smoother precisions := exists_error_iff
  refine ⟨fun score => ?_, refused⟩
  rw [← refused]
  cases outcome : aggregate precisions hypothesisLength referenceLength weights smoother with
  | error fault => simp
  | ok found =>
    have form := (aggregate_eq_ok_iff.mp outcome).closedForm
    have given : ¬ ∃ fault, Except.ok found = (.error fault : Except Fault Score) := by simp
    rw [and_iff_right given, Except.ok.injEq]
    constructor
    · rintro rfl
      exact form
    · exact form.eq

end Bleu

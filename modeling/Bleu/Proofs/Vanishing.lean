import Bleu.Proofs.Double.Range
import Bleu.Proofs.UnitInterval

/-!
# Substitutes that vanish

A substitute is a quotient of doubles, and its exact value can be too small or too large for one. Powers of two are exact
until they are infinite (`value_powerOfTwo`), and so are their products (`Fits`), but they grow with the number of orders
without a match, and nothing but positive and finite is asked of a parameter. `Vanishes` is the exact condition under
which a substitute is zero, `Overflows` that under which it is infinite. Orders without a match make the score of a valid
method zero only by a substitute that vanishes (`smooth_unmatched`).
-/
namespace Bleu
open Double Outcomes

namespace Smoothing

/-! ## Powers of two -/

theorem powerOfTwo_pos (z : ℕ) : 0 < powerOfTwo z := lt_of_lt_of_le (by decide) (one_le_powerOfTwo z)

theorem finitePos_one : FinitePos 1 ∧ real 1 = 1 := finitePos_of_value number_one one_pos value_one

theorem value_two : value 2 = ((2 : ℝ) : EReal) := by
  have same := (value_ofNat_of_lt (n := 2) (by norm_num)).2
  rw [Nat.cast_ofNat] at same
  exact same.trans (by exact_mod_cast rounded_natCast (n := 2) (by norm_num))

theorem doubled_one_lt_iff (z : ℕ) : doubled z 1 < overflow ↔ z < 1024 := by
  rw [doubled, mul_one]
  constructor
  · intro small
    exact (pow_lt_pow_iff_right₀ one_lt_two).mp (small.trans overflow_lt)
  · intro below
    exact (pow_le_pow_right₀ one_le_two (by omega)).trans_lt lt_overflow

/-- Powers of two are exact as long as they are finite. -/
theorem value_powerOfTwo (z : ℕ) : value (powerOfTwo z) = if z < 1024 then (doubled z 1 : EReal) else ⊤ := by
  induction z with
  | zero => simp [powerOfTwo, doubled]
  | succ z ih =>
    have twice : value (powerOfTwo (z + 1)) = rounded (value 2 * value (powerOfTwo z)) :=
      value_mul (isNumber_mul_of_pos (by decide) (powerOfTwo_pos z))
    have power := finitePos_one.1.rounded_doubled (z + 1)
    simp only [finitePos_one.2, doubled_one_lt_iff] at power
    rw [twice, ih, value_two, ← power]
    split_ifs with below
    · rw [← EReal.coe_mul, doubled, doubled, pow_succ', mul_assoc]
    · rw [EReal.coe_mul_top_of_pos (by norm_num), power, if_neg (by omega), rounded_top]

/-- Whether a power of two and its product with a number are finite. -/
def Fits (z : ℕ) (x : ℝ) : Prop := z < 1024 ∧ doubled z x < overflow

section
variable {x : Float} (proper : FinitePos x) {z : ℕ}
include proper

theorem isNumber_powerOfTwo_mul (z : ℕ) : IsNumber (powerOfTwo z * x) :=
  isNumber_mul_of_pos (powerOfTwo_pos z) proper.pos

theorem value_powerOfTwo_mul (below : z < 1024) :
    value (powerOfTwo z * x) = if doubled z (real x) < overflow then (doubled z (real x) : EReal) else ⊤ := by
  rw [value_mul (isNumber_powerOfTwo_mul proper z), value_powerOfTwo, if_pos below, value_eq_real proper.finite,
    ← EReal.coe_mul, ← proper.rounded_doubled, doubled, mul_one, doubled]

theorem finitePos_powerOfTwo_mul (fits : Fits z (real x)) :
    FinitePos (powerOfTwo z * x) ∧ real (powerOfTwo z * x) = doubled z (real x) := by
  refine finitePos_of_value (isNumber_powerOfTwo_mul proper z) (mul_pos (by positivity) proper.real_pos) ?_
  rw [value_powerOfTwo_mul proper fits.1, if_pos fits.2]

theorem value_powerOfTwo_mul_of_not_fits (beyond : ¬ Fits z (real x)) : value (powerOfTwo z * x) = ⊤ := by
  by_cases below : z < 1024
  · rw [value_powerOfTwo_mul proper below, if_neg fun small => beyond ⟨below, small⟩]
  · rw [value_mul (isNumber_powerOfTwo_mul proper z), value_powerOfTwo, if_neg below, value_eq_real proper.finite,
      EReal.top_mul_coe_of_pos proper.real_pos, rounded_top]

theorem powerOfTwo_mul_pos (z : ℕ) : 0 < powerOfTwo z * x := by
  refine (pos_iff _).mpr ⟨isNumber_powerOfTwo_mul proper z, ?_⟩
  by_cases fits : Fits z (real x)
  · exact ((pos_iff _).mp (finitePos_powerOfTwo_mul proper fits).1.pos).2
  · rw [value_powerOfTwo_mul_of_not_fits proper fits]
    exact EReal.zero_lt_top

end

/-! ## The substitutes -/

theorem finitePos_parameter {x : Float} (parameter : isParameter x = true) : FinitePos x :=
  ⟨parameter_pos parameter, (Bool.and_eq_true_iff.mp parameter).1⟩

section
variable {w : Float} (windows : FinitePos w)
include windows

theorem zero_div_unsafe {x : Float} (number : IsNumber x) (zero : value x = 0) :
    ¬ 0 < x / w ∧ (x / w).isFinite = true := by
  obtain ⟨quotient, same⟩ := windows.value_div_right number
  rw [zero, EReal.zero_div, rounded_zero] at same
  exact not_pos_of_value_eq_zero quotient same

variable (large : 1 ≤ real w)
include large

/-- A numerator in place of zero can be too small, but not too large. -/
theorem numerator_safe_iff {x : Float} (parameter : FinitePos x) :
    (0 < x / w ↔ ¬ real x / real w ≤ underflow) ∧ (x / w).isFinite = true := by
  rw [parameter.zero_lt_div_iff windows, not_le]
  exact ⟨Iff.rfl, windows.isFinite_div_of_finite large parameter.nonneg parameter.finite⟩

/-- The inverse of a finite divisor is large enough, and that of an infinite one is zero. -/
theorem halved_safe_iff (z : ℕ) :
    (0 < 1 / (powerOfTwo z * w) ↔ Fits z (real w)) ∧ (1 / (powerOfTwo z * w)).isFinite = true := by
  obtain ⟨one, unit⟩ := finitePos_one
  by_cases fits : Fits z (real w)
  · obtain ⟨proper, same⟩ := finitePos_powerOfTwo_mul windows fits
    have above : 1 ≤ real (powerOfTwo z * w) := by
      rw [same]
      exact one_le_mul_of_one_le_of_one_le (one_le_pow₀ one_le_two) large
    refine ⟨iff_of_true ?_ fits, proper.isFinite_div_of_finite above one.nonneg one.finite⟩
    rw [one.zero_lt_div_iff proper, unit]
    exact underflow_lt_one_div proper.real_pos (same ▸ fits.2)
  · obtain ⟨number, zero⟩ := value_div_infinity one.nonneg one.ne_top (powerOfTwo_mul_pos windows z)
      (value_powerOfTwo_mul_of_not_fits windows fits)
    obtain ⟨vanished, finite⟩ := not_pos_of_value_eq_zero number zero
    exact ⟨iff_of_false vanished fits, finite⟩

/-- A length term over an infinite divisor is zero; over a finite one it can be too small or too large. -/
theorem scaled_safe_iff {x k : Float} (term : FinitePos x) (parameter : FinitePos k) (z : ℕ) :
    (0 < x / (powerOfTwo z * k) / w ↔
      Fits z (real k) ∧ underflow < nearest (real x / doubled z (real k)) / real w) ∧
    ((x / (powerOfTwo z * k) / w).isFinite = true ↔ ¬ (Fits z (real k) ∧ overflow ≤ real x / doubled z (real k))) := by
  by_cases fits : Fits z (real k)
  · obtain ⟨proper, same⟩ := finitePos_powerOfTwo_mul parameter fits
    rw [term.zero_lt_div_div_iff proper windows, term.isFinite_div_div_iff proper windows large, same,
      and_iff_right fits, and_iff_right fits, not_le]
    exact ⟨Iff.rfl, Iff.rfl⟩
  · obtain ⟨number, zero⟩ := value_div_infinity term.nonneg term.ne_top (powerOfTwo_mul_pos parameter z)
      (value_powerOfTwo_mul_of_not_fits parameter fits)
    obtain ⟨vanished, finite⟩ := zero_div_unsafe windows number zero
    exact ⟨iff_of_false vanished fun both => fits both.1, iff_of_true finite fun both => fits both.1⟩

end

/-! ## When a substitute vanishes -/

section
variable [Elementary]

/-- Whether the substitute of an order is zero. Of the orders without a match it is the one at place `z`, counted from
one, and it has a positive number of windows. -/
def Vanishes (method : Smoothing) (length z windows : ℕ) : Prop :=
  let d := real (Float.ofNat windows)
  match method with
  | none => True
  | epsilon value => real value / d ≤ underflow
  | addOne => False
  | exponential => ¬ Fits z d
  | lengthScaled k =>
    ¬ Fits z (real k) ∨ nearest (real (Elementary.log (Float.ofNat length)) / doubled z (real k)) / d ≤ underflow

/-- Whether that substitute is infinite. -/
def Overflows (method : Smoothing) (length z : ℕ) : Prop :=
  match method with
  | lengthScaled k => Fits z (real k) ∧ overflow ≤ real (Elementary.log (Float.ofNat length)) / doubled z (real k)
  | _ => False

/-- What precisions have: every order has windows, and words count both these and the orders without a match. Where one
is added to the counts of an order, words still do. -/
structure Counted (method : Smoothing) (precisions : List Fraction) : Prop where
  few : precisions.length < 2 ^ 31
  windows : ∀ p ∈ precisions, 0 < p.denominator ∧ p.denominator < 2 ^ 64
  addable : method = addOne → ∀ p ∈ precisions.tail, p.Addable

/-- Whether one of the first orders has no match and a substitute that vanishes. -/
def LosesOrder (method : Smoothing) (length : ℕ) (precisions : List Fraction) (orders : ℕ) : Prop :=
  ∃ i p, i < orders ∧ precisions[i]? = some p ∧ p.numerator = 0 ∧
    method.Vanishes length (unmatchedUpTo precisions i) p.denominator

variable {method : Smoothing} {length : ℕ} {precisions : List Fraction} {p : Fraction}

/-- Orders with matches keep a positive precision. -/
theorem rule_pos (matched : p.numerator ≠ 0) (counted : 0 < p.denominator)
    (small : p.denominator < 2 ^ 64) (i : ℕ) : 0 < method.rule length precisions i p := by
  have kept : 0 < Float.ofNat p.numerator / Float.ofNat p.denominator :=
    ofNat_div_pos (Nat.pos_of_ne_zero matched) counted small.le
  cases method with
  | none => exact kept
  | addOne =>
    rw [rule]
    split_ifs
    · exact kept
    · exact ofNat_div_pos (Nat.succ_pos _) (Nat.succ_pos _) small
  | epsilon value => simpa [rule, matched] using kept
  | exponential => simpa [rule, matched] using kept
  | lengthScaled k => simpa [rule, matched] using kept

/-- The substitute of an order is safe unless it vanishes or overflows. -/
theorem rule_safe_iff (valid : method.validate = .ok ()) (long : 1 < length)
    (logarithm : FinitePos (Elementary.log (Float.ofNat length))) (unmatched : p.numerator = 0)
    (counted : 0 < p.denominator) (small : p.denominator < 2 ^ 64) {i : ℕ} (above : method = addOne → i ≠ 0) :
    (0 < method.rule length precisions i p ↔
      ¬ method.Vanishes length (unmatchedUpTo precisions i) p.denominator) ∧
    ((method.rule length precisions i p).isFinite = true ↔
      ¬ method.Overflows length (unmatchedUpTo precisions i)) := by
  have windows := finitePos_ofNat counted small.le
  have large := windows.one_le_real (one_le_ofNat counted)
  cases method with
  | none =>
    obtain ⟨vanished, finite⟩ := zero_div_unsafe windows number_zero value_zero
    simp only [rule, unmatched]
    exact ⟨iff_of_false vanished (not_not.mpr trivial), iff_of_true finite not_false⟩
  | epsilon value =>
    rw [validate] at valid
    split_ifs at valid with accepted
    obtain ⟨safe, finite⟩ := numerator_safe_iff windows large (finitePos_parameter accepted)
    simp only [rule, unmatched, if_true]
    exact ⟨safe, iff_of_true finite not_false⟩
  | addOne =>
    have more := finitePos_ofNat (Nat.succ_pos p.denominator) small
    have one := finitePos_ofNat (n := 1) Nat.one_pos (by norm_num)
    have safe := ofNat_div_pos (m := 1) Nat.one_pos (Nat.succ_pos p.denominator) small
    have finite := more.isFinite_div_of_finite (more.one_le_real (one_le_ofNat (Nat.succ_pos _))) one.nonneg
      one.finite
    simp only [rule, unmatched, if_neg (above rfl)]
    exact ⟨iff_of_true safe not_false, iff_of_true finite not_false⟩
  | exponential =>
    obtain ⟨safe, finite⟩ := halved_safe_iff windows large (unmatchedUpTo precisions i)
    simp only [rule, unmatched, if_true]
    exact ⟨safe.trans not_not.symm, iff_of_true finite not_false⟩
  | lengthScaled k =>
    rw [validate] at valid
    split_ifs at valid with accepted
    obtain ⟨safe, finite⟩ := scaled_safe_iff windows large logarithm (finitePos_parameter accepted)
      (unmatchedUpTo precisions i)
    simp only [rule, unmatched, long, true_and, if_true]
    refine ⟨safe.trans ?_, finite⟩
    rw [Vanishes, not_or, not_not, not_le]

omit [Elementary] in
theorem Counted.addable_of (counted : method.Counted precisions) {i : ℕ} (found : precisions[i]? = some p)
    (adds : method = addOne) (above : i ≠ 0) : p.Addable := by
  obtain ⟨j, rfl⟩ := Nat.exists_eq_succ_of_ne_zero above
  refine counted.addable adds p (List.mem_of_getElem? (i := j) ?_)
  rw [List.getElem?_tail, found]

/-- Counted precisions are smoothed by the rule. -/
theorem Counted.getElem?_smooth (counted : method.Counted precisions) {i : ℕ} (found : precisions[i]? = some p) :
    (method.smooth precisions length)[i]? = some (method.rule length precisions i p) := by
  rw [Smoothing.getElem?_smooth, found, Option.map_some,
    smoothed_eq_rule length precisions (counted.addable_of found)]

/-- What is averaged collapses just when a substitute vanishes. -/
theorem collapses_smooth_iff (valid : method.validate = .ok ()) (long : 1 < length)
    (logarithm : FinitePos (Elementary.log (Float.ofNat length))) (counted : method.Counted precisions)
    (matched : ∃ unigrams ∈ precisions.head?, unigrams.numerator ≠ 0) (weights : List Float) :
    Collapses weights (method.smooth precisions length) ↔ method.LosesOrder length precisions weights.length := by
  have above : ∀ i p, precisions[i]? = some p → p.numerator = 0 → i ≠ 0 := by
    rintro i p found unmatched rfl
    obtain ⟨unigrams, first, given⟩ := matched
    rw [List.head?_eq_getElem?] at first
    cases found.symm.trans first
    exact given unmatched
  have safe : ∀ i p, precisions[i]? = some p → p.numerator = 0 →
      (LacksLog (method.rule length precisions i p) ↔
        method.Vanishes length (unmatchedUpTo precisions i) p.denominator) := by
    intro i p found unmatched
    obtain ⟨positive, small⟩ := counted.windows p (List.mem_of_getElem? found)
    rw [← not_iff_not, not_lacksLog_iff]
    exact (rule_safe_iff valid long logarithm unmatched positive small fun _ => above i p found unmatched).1
  constructor
  · rintro ⟨x, member, lacks⟩
    obtain ⟨i, found⟩ := List.mem_iff_getElem?.mp member
    rw [List.getElem?_take] at found
    split_ifs at found with below
    obtain ⟨p, given, _⟩ := Option.map_eq_some_iff.mp ((getElem?_smooth method precisions length i).symm.trans found)
    cases (counted.getElem?_smooth given).symm.trans found
    have unmatched : p.numerator = 0 := by
      by_contra matched
      obtain ⟨positive, small⟩ := counted.windows p (List.mem_of_getElem? given)
      exact (not_lacksLog_iff _).mpr (rule_pos matched positive small i) lacks
    exact ⟨i, p, below, given, unmatched, (safe i p given unmatched).mp lacks⟩
  · rintro ⟨i, p, below, given, unmatched, vanishes⟩
    refine ⟨method.rule length precisions i p, List.mem_iff_getElem?.mpr ⟨i, ?_⟩,
      (safe i p given unmatched).mpr vanishes⟩
    rw [List.getElem?_take, if_pos below, counted.getElem?_smooth given]

/-- A substitute of a valid method is positive just when it does not vanish, and finite just when it does not overflow;
its number among the substitutes is one that can be counted. Once order one has a match, the score is zero by an order
without a match just when one that has a weight loses its substitute; otherwise it is the weighted mean. -/
theorem smooth_unmatched (valid : method.validate = .ok ()) (long : 1 < length)
    (logarithm : FinitePos (Elementary.log (Float.ofNat length))) (counted : method.Counted precisions) :
    (∀ i p, precisions[i]? = some p → p.numerator = 0 → (method = addOne → i ≠ 0) →
      unmatchedUpTo precisions i < 2 ^ 31 ∧ ∃ s, (method.smooth precisions length)[i]? = some s ∧
        (0 < s ↔ ¬ method.Vanishes length (unmatchedUpTo precisions i) p.denominator) ∧
        (s.isFinite = true ↔ ¬ method.Overflows length (unmatchedUpTo precisions i))) ∧
    ((∃ unigrams ∈ precisions.head?, unigrams.numerator ≠ 0) → ∀ referenceLength weights score,
      aggregate precisions length referenceLength weights method.smoother = .ok score →
        (method.LosesOrder length precisions score.weights.length → score.score = 0) ∧
        (¬ method.LosesOrder length precisions score.weights.length →
          score.score = score.brevityPenalty * Elementary.exp (logSum score.weights score.smoothed))) := by
  refine ⟨fun i p found unmatched above => ⟨unmatchedUpTo_lt counted.few i, ?_⟩,
    fun matched referenceLength weights score scored => ?_⟩
  · obtain ⟨positive, small⟩ := counted.windows p (List.mem_of_getElem? found)
    exact ⟨_, counted.getElem?_smooth found, rule_safe_iff valid long logarithm unmatched positive small above⟩
  · have form := (aggregate_eq_ok_iff.mp scored).closedForm.orders
    have collapses := collapses_smooth_iff valid long logarithm counted matched score.weights
    cases precisions with
    | nil =>
      obtain ⟨_, absent, _⟩ := matched
      cases absent
    | cons unigrams others =>
      obtain ⟨_, first, given⟩ := matched
      cases first
      have applicable : unigrams.isZero = false := by
        simp [Fraction.isZero, given]
      obtain ⟨_, _, _, _, reported⟩ := form
      obtain ⟨smoothed, collapsed, mean⟩ := reported applicable
      have same : score.smoothed = method.smooth (unigrams :: others) length := smoothed
      rw [← same] at collapses
      rw [← collapses]
      exact ⟨collapsed, mean⟩

end

/-- Two matches of four tokens and none of three bigrams. -/
def unigramsOnly : List Fraction := [.ofPos 2 4 (by decide), .ofPos 0 3 (by decide)]

/-- The default divisor gives the bigrams a substitute. The divisor `1e308` is accepted, but infinite when doubled, and
loses the bigrams and the score. -/
theorem smooth_unmatched_bigrams :
    ¬ @Vanishes .steps (lengthScaled 5) 4 1 3 ∧ @Vanishes .steps (lengthScaled 1e308) 4 1 3 ∧
      ∃ score, @aggregate .steps unigramsOnly 4 4 Option.none (@smoother .steps (lengthScaled 1e308)) = .ok score ∧
        score.score = 0 := by
  have logarithm : FinitePos (@Elementary.log .steps (Float.ofNat 4)) := ⟨by decide, by decide⟩
  have counted (k : Float) : (lengthScaled k).Counted unigramsOnly := ⟨by decide, by decide, nofun⟩
  have valid : (lengthScaled 1e308).validate = .ok () := by decide +kernel
  have small := @smooth_unmatched .steps (lengthScaled 5) 4 unigramsOnly rfl (by decide) logarithm (counted 5)
  have large := @smooth_unmatched .steps (lengthScaled 1e308) 4 unigramsOnly valid (by decide) logarithm (counted 1e308)
  have given : (@smooth .steps (lengthScaled 5) unigramsOnly 4)[1]? = some (1.3862943611198906 / 10 / 3) := by
    decide +kernel
  have lost : (@smooth .steps (lengthScaled 1e308) unigramsOnly 4)[1]? = some 0 := by decide +kernel
  have scored : @aggregate .steps unigramsOnly 4 4 Option.none (@smoother .steps (lengthScaled 1e308)) =
      .ok ⟨0, unigramsOnly, [0.5, 0], [0.5, 0.5], 1, 4, 4⟩ := by decide +kernel
  obtain ⟨_, s, found, positive, _⟩ := small.1 1 (.ofPos 0 3 (by decide)) rfl rfl (fun same => by cases same)
  obtain ⟨_, t, missed, zero, _⟩ := large.1 1 (.ofPos 0 3 (by decide)) rfl rfl (fun same => by cases same)
  cases given.symm.trans found
  cases lost.symm.trans missed
  have vanishes : @Vanishes .steps (lengthScaled 1e308) 4 1 3 := not_not.mp (mt zero.mpr (by decide))
  have matched : ∃ unigrams ∈ unigramsOnly.head?, unigrams.numerator ≠ 0 := ⟨_, rfl, by decide⟩
  refine ⟨positive.mp (by decide +kernel), vanishes, _, scored, ?_⟩
  exact (large.2 matched 4 Option.none _ scored).1 ⟨1, .ofPos 0 3 (by decide), by decide, rfl, rfl, vanishes⟩

end Smoothing

end Bleu

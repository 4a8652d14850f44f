import Bleu.Proofs.Double.Bounds

/-!
# The range of doubles

A positive number is rounded to zero up to `underflow` (`nearest_pos_iff`) and to infinity from `overflow` on
(`nearest_lt_iff`). For finite operands, whose values are reals
(`real`), this decides whether a quotient vanishes or is infinite (`FinitePos.zero_lt_div_iff`,
`FinitePos.isFinite_div_iff`), and whether a quotient of a quotient does. A power of two times a double is exact until
it is infinite (`FinitePos.rounded_doubled`).
-/
namespace Bleu.Double

/-! ## Rounding at both ends -/

theorem halfEven_pos_iff (y : ℝ) : 0 < halfEven y ↔ 1 / 2 < y := by
  constructor
  · intro positive
    by_contra small
    have half : halfEven (1 / 2) = 0 := by
      have floor : ⌊(1 / 2 : ℝ)⌋₊ = 0 := by norm_num
      rw [halfEven, floor]
      norm_num
    have zero := halfEven_mono (not_lt.mp small)
    omega
  · intro large
    have least := floor_le_halfEven y
    rcases Nat.eq_zero_or_pos ⌊y⌋₊ with zero | whole
    · rw [halfEven, zero, Nat.cast_zero, if_neg (by linarith), if_pos (by linarith)]
      exact Nat.one_pos
    · omega

/-- Less than one half more than a natural number is rounded down. -/
theorem halfEven_le_of_lt {y : ℝ} {n : ℕ} (small : y < n + 1 / 2) : halfEven y ≤ n := by
  by_contra above
  have reached : n + 1 ≤ halfEven y := by omega
  have most := halfEven_le y
  rcases Nat.lt_or_ge n ⌊y⌋₊ with more | few
  · have large := (Nat.le_floor_iff' (by omega)).mp more
    push_cast at large
    linarith
  · have floor : ⌊y⌋₊ = n := by omega
    rw [halfEven, floor, if_pos small] at reached
    omega

/-- A number vanishes in rounding just when it is at most half of the smallest double. -/
theorem nearest_pos_iff {x : ℝ} (nonneg : 0 ≤ x) : 0 < nearest x ↔ underflow < x := by
  have digit := unit_pos x
  have kept : 0 < nearest x ↔ unit x < 2 * x := by
    rw [nearest, mul_pos_iff_of_pos_right digit, Nat.cast_pos, halfEven_pos_iff, lt_div_iff₀ digit]
    constructor <;> intro less <;> linarith
  have half : (2 : ℝ) ^ (-1074 : ℤ) = 2 ^ (-1075 : ℤ) * 2 := zpow_add_one₀ (by norm_num) (-1075)
  have least : (2 : ℝ) ^ (-1074 : ℤ) ≤ unit x := zpow_le_zpow_right₀ (by norm_num) (le_max_right _ _)
  rw [kept, underflow]
  constructor
  · intro large
    linarith
  · intro large
    by_cases normal : -1074 < exponentOf x
    · have many := unit_le (nonneg.lt_of_ne fun zero => ?_) normal
      · linarith
      · rw [← zero] at large
        exact absurd large (not_lt.mpr (by positivity))
    · have last : exponentOf x = -1074 := le_antisymm (not_lt.mp normal) (le_max_right _ _)
      rw [unit, last]
      linarith

theorem two_pow_1023 : (2 : ℝ) ^ 1023 = 2 ^ 53 * 2 ^ 970 := pow_add 2 53 970

theorem two_pow_1024 : (2 : ℝ) ^ 1024 = 2 ^ 54 * 2 ^ 970 := pow_add 2 54 970

theorem overflow_lt : overflow < 2 ^ 1024 := by
  rw [overflow, two_pow_1024]
  exact mul_lt_mul_of_pos_right (by norm_num) (by positivity)

theorem lt_overflow : 2 ^ 1023 < overflow := by
  rw [overflow, two_pow_1023]
  exact mul_lt_mul_of_pos_right (by norm_num) (by positivity)

theorem one_lt_overflow : 1 < overflow := (one_lt_pow₀ one_lt_two (by norm_num)).trans lt_overflow

theorem overflow_pos : 0 < overflow := zero_lt_one.trans one_lt_overflow

theorem underflow_lt_one : underflow < 1 := zpow_lt_one_of_neg₀ one_lt_two (by norm_num)

/-- The inverses of numbers below `overflow` are above `underflow`. -/
theorem underflow_lt_one_div {y : ℝ} (positive : 0 < y) (small : y < overflow) : underflow < 1 / y := by
  rw [underflow, lt_one_div (by positivity) positive, one_div, ← zpow_neg]
  exact (small.trans overflow_lt).trans (pow_lt_pow_right₀ one_lt_two (by norm_num))

/-- Numbers from the last but one power of two on have the coarsest digits. -/
theorem nearest_of_large {x : ℝ} (above : 2 ^ 1023 ≤ x) (below : x < 2 ^ 1024) :
    nearest x = halfEven (x / (2 * 2 ^ 970)) * (2 * 2 ^ 970) := by
  have log : Int.log 2 x = (1023 : ℕ) := by
    refine log_eq ?_ ?_
    · rwa [zpow_natCast]
    · exact below.trans_eq (zpow_natCast 2 1024).symm
  have last : exponentOf x = (971 : ℕ) := by
    rw [exponentOf, log]
    rfl
  have digit : unit x = 2 * 2 ^ 970 := by
    rw [unit, last, zpow_natCast]
    exact pow_succ' 2 970
  rw [nearest, digit]

theorem overflow_div : overflow / (2 * 2 ^ 970) = (2 ^ 53 - 1 : ℕ) + 1 / 2 := by
  rw [overflow, mul_div_mul_right _ _ (by positivity)]
  norm_num

theorem nearest_overflow : nearest overflow = 2 ^ 1024 := by
  have floor : ⌊((2 ^ 53 - 1 : ℕ) + 1 / 2 : ℝ)⌋₊ = 2 ^ 53 - 1 := by
    rw [Nat.floor_eq_iff (by positivity)]
    constructor <;> norm_num
  have even : halfEven ((2 ^ 53 - 1 : ℕ) + 1 / 2) = 2 ^ 53 := by
    rw [halfEven, floor, if_neg (lt_irrefl _), if_neg (lt_irrefl _)]
    rfl
  rw [nearest_of_large lt_overflow.le overflow_lt, overflow_div, even, two_pow_1024, Nat.cast_pow, ← mul_assoc]
  norm_num

/-- A number becomes infinite in rounding just from `overflow` on. -/
theorem nearest_lt_iff {x : ℝ} (nonneg : 0 ≤ x) : nearest x < 2 ^ 1024 ↔ x < overflow := by
  constructor
  · intro fits
    by_contra large
    have infinite := nearest_mono overflow_pos.le (not_lt.mp large)
    rw [nearest_overflow] at infinite
    exact absurd fits (not_lt.mpr infinite)
  · intro small
    by_cases above : 2 ^ 1023 ≤ x
    · have scale : (0 : ℝ) < 2 * 2 ^ 970 := by positivity
      have digits : x / (2 * 2 ^ 970) < (2 ^ 53 - 1 : ℕ) + 1 / 2 := by
        rw [← overflow_div]
        exact div_lt_div_of_pos_right small scale
      have count : halfEven (x / (2 * 2 ^ 970)) ≤ 2 ^ 53 - 1 := halfEven_le_of_lt digits
      rw [nearest_of_large above (small.trans overflow_lt), two_pow_1024]
      calc (halfEven (x / (2 * 2 ^ 970)) : ℝ) * (2 * 2 ^ 970) ≤ (2 ^ 53 - 1 : ℕ) * (2 * 2 ^ 970) :=
            mul_le_mul_of_nonneg_right (by exact_mod_cast count) scale.le
        _ = (2 ^ 54 - 2) * 2 ^ 970 := by
            rw [← mul_assoc]
            norm_num
        _ < 2 ^ 54 * 2 ^ 970 := mul_lt_mul_of_pos_right (by norm_num) (by positivity)
    · have power : nearest (2 ^ 1023) = 2 ^ 1023 := by
        have kept := nearest_of_digits (m := 1) (e := (1023 : ℕ)) (by norm_num) (by norm_num)
        rwa [Nat.cast_one, one_mul, zpow_natCast] at kept
      calc nearest x ≤ nearest (2 ^ 1023) := nearest_mono nonneg (not_le.mp above).le
        _ = 2 ^ 1023 := power
        _ < 2 ^ 1024 := pow_lt_pow_right₀ (by norm_num) (by norm_num)

theorem rounded_of_nonneg {x : ℝ} (nonneg : 0 ≤ x) :
    rounded (x : EReal) = if x < overflow then (nearest x : EReal) else ⊤ := by
  rw [rounded_coe, roundedReal, if_pos nonneg, magnitude]
  exact ite_congr (propext (nearest_lt_iff nonneg)) (fun _ => rfl) fun _ => rfl

theorem rounded_pos_iff {x : ℝ} (nonneg : 0 ≤ x) : 0 < rounded (x : EReal) ↔ underflow < x := by
  rw [rounded_of_nonneg nonneg]
  split_ifs with small
  · rw [EReal.coe_pos, nearest_pos_iff nonneg]
  · refine ⟨fun _ => LT.lt.trans_le ?_ (not_lt.mp small), fun _ => EReal.zero_lt_top⟩
    exact underflow_lt_one.trans one_lt_overflow

theorem rounded_eq_top_iff {x : ℝ} (nonneg : 0 ≤ x) : rounded (x : EReal) = ⊤ ↔ overflow ≤ x := by
  rw [rounded_of_nonneg nonneg]
  split_ifs with small
  · simp [small]
  · simp [not_lt.mp small]

theorem rounded_nonneg {x : EReal} (nonneg : 0 ≤ x) : 0 ≤ rounded x := by
  rw [← rounded_zero]
  exact rounded_mono nonneg

/-! ## Finite doubles -/

/-- The value of a finite double. -/
noncomputable def real (x : Float) : ℝ := (value x).toReal

/-- Whether a double is a positive number that is not infinite. -/
structure FinitePos (x : Float) : Prop where
  pos : 0 < x
  finite : x.isFinite = true

theorem value_eq_real {x : Float} (finite : x.isFinite = true) : value x = (real x : EReal) := by
  obtain ⟨_, above, below⟩ := (isFinite_iff x).mp finite
  exact (EReal.coe_toReal below above).symm

theorem finitePos_of_value {x : Float} (number : IsNumber x) {r : ℝ} (positive : 0 < r) (same : value x = (r : EReal)) :
    FinitePos x ∧ real x = r := by
  have above : 0 < x := (pos_iff x).mpr ⟨number, same ▸ EReal.coe_pos.mpr positive⟩
  refine ⟨⟨above, (isFinite_iff_of_nonneg (le_of_lt above)).mpr ?_⟩, ?_⟩
  · rw [same]
    exact EReal.coe_ne_top r
  · rw [real, same, EReal.toReal_coe]

theorem finitePos_ofNat {n : ℕ} (positive : 0 < n) (small : n ≤ 2 ^ 64) : FinitePos (Float.ofNat n) := by
  have above := ofNat_pos positive
  exact ⟨above, (isFinite_iff_of_nonneg (le_of_lt above)).mpr (value_ofNat_ne_top small)⟩

theorem not_pos_of_value_eq_zero {x : Float} (number : IsNumber x) (zero : value x = 0) :
    ¬ 0 < x ∧ x.isFinite = true := by
  refine ⟨fun positive => ((pos_iff x).mp positive).2.ne' zero, (isFinite_iff x).mpr ⟨number, ?_⟩⟩
  rw [zero]
  exact ⟨EReal.zero_ne_bot, EReal.zero_ne_top⟩

namespace FinitePos
variable {x y : Float}

theorem nonneg (proper : FinitePos x) : 0 ≤ x := le_of_lt proper.pos

theorem ne_top (proper : FinitePos x) : value x ≠ ⊤ := ((isFinite_iff x).mp proper.finite).2.2

theorem real_pos (proper : FinitePos x) : 0 < real x := by
  have above := ((pos_iff x).mp proper.pos).2
  rw [value_eq_real proper.finite] at above
  exact EReal.coe_pos.mp above

theorem nearest_real (proper : FinitePos x) : nearest (real x) = real x ∧ real x < overflow := by
  have nonneg := proper.real_pos.le
  have kept := rounded_value x
  rw [value_eq_real proper.finite, rounded_of_nonneg nonneg] at kept
  split_ifs at kept with small
  · exact ⟨EReal.coe_eq_coe_iff.mp kept, small⟩
  · exact absurd kept.symm (EReal.coe_ne_top _)

/-- The digits of a double. -/
theorem exists_digits (proper : FinitePos x) :
    ∃ (m : ℕ) (e : ℤ), real x = m * 2 ^ e ∧ m < 2 ^ 53 ∧ -1074 ≤ e := by
  have above := ((pos_iff x).mp proper.pos).2
  have same := value_eq_real proper.finite
  have digits := unpacked x
  unfold value at above same
  cases number : x.toModel.unpack with
  | notANumber => simp [number, worth] at above
  | zero sign => simp [number, worth] at above
  | infinity sign =>
    rw [number] at above same
    cases sign with
    | positive => exact absurd same.symm (EReal.coe_ne_top _)
    | negative => exact absurd above (by simp [worth, signed])
  | finite sign m e positive =>
    rw [number] at above same digits
    cases sign with
    | positive => exact ⟨m, e, (EReal.coe_eq_coe_iff.mp same).symm, digits.1.1, digits.1.2.1⟩
    | negative => exact absurd above (not_lt.mpr (worth_neg_lt e positive).le)

/-- A power of two times a double is a double or infinite. -/
theorem rounded_doubled (proper : FinitePos x) (z : ℕ) :
    rounded (doubled z (real x) : EReal) = if doubled z (real x) < overflow then (doubled z (real x) : EReal) else ⊤ := by
  have nonneg : 0 ≤ doubled z (real x) := mul_nonneg (by positivity) proper.real_pos.le
  split_ifs with fits
  · obtain ⟨m, e, same, digits, last⟩ := proper.exists_digits
    have shifted : doubled z (real x) = m * 2 ^ (z + e) := by
      rw [doubled, same, zpow_add₀ (by norm_num), zpow_natCast]
      ring
    rw [shifted] at fits ⊢
    exact rounded_of_digits digits (by omega) (fits.trans overflow_lt)
  · exact (rounded_eq_top_iff nonneg).mpr (not_lt.mp fits)

theorem one_le_real (proper : FinitePos x) (large : 1 ≤ x) : 1 ≤ real x := by
  have above := ((one_le_iff x).mp large).2
  rw [value_eq_real proper.finite] at above
  exact_mod_cast above

/-- A finite divisor leaves numbers numbers. -/
theorem value_div_right (right : FinitePos y) (number : IsNumber x) :
    IsNumber (x / y) ∧ value (x / y) = rounded (value x / (real y : EReal)) := by
  have divisor := (pos_iff y).mp right.pos
  have finite := ((isFinite_iff y).mp right.finite).2
  have quotient : IsNumber (x / y) := isNumber_div number divisor.1 divisor.2.ne' (.inr ⟨finite.2, finite.1⟩)
  refine ⟨quotient, ?_⟩
  rw [Double.value_div divisor.2.ne' quotient, value_eq_real right.finite]

/-- Division by one or more keeps numbers finite. -/
theorem isFinite_div_of_finite (right : FinitePos y) (large : 1 ≤ real y) (nonneg : 0 ≤ x) (finite : x.isFinite = true) :
    (x / y).isFinite = true := by
  obtain ⟨number, above⟩ := (nonneg_iff x).mp nonneg
  have same := value_eq_real finite
  obtain ⟨quotient, divided⟩ := right.value_div_right number
  rw [same] at above
  have least : 0 ≤ real x := EReal.coe_nonneg.mp above
  have divisor := right.real_pos
  have share : real x / real y ≤ real x := div_le_self least large
  rw [same, ← EReal.coe_div] at divided
  have small : value (x / y) ≤ value x := by
    rw [divided, ← rounded_value x, same]
    exact rounded_mono (EReal.coe_le_coe_iff.mpr share)
  have positive : 0 ≤ x / y := by
    refine (nonneg_iff _).mpr ⟨quotient, ?_⟩
    rw [divided]
    exact rounded_nonneg (EReal.coe_nonneg.mpr (by positivity))
  rw [isFinite_iff_of_nonneg positive]
  exact (small.trans_lt (same ▸ EReal.coe_lt_top _)).ne

section
variable (left : FinitePos x) (right : FinitePos y)
include left right

theorem value_div : IsNumber (x / y) ∧ value (x / y) = rounded ((real x / real y : ℝ) : EReal) := by
  have divided := right.value_div_right ((isFinite_iff x).mp left.finite).1
  rwa [value_eq_real left.finite, ← EReal.coe_div] at divided

theorem quotient_nonneg : 0 ≤ real x / real y := (div_pos left.real_pos right.real_pos).le

theorem zero_le_div : 0 ≤ x / y := by
  obtain ⟨number, same⟩ := left.value_div right
  refine (nonneg_iff _).mpr ⟨number, ?_⟩
  rw [same]
  exact rounded_nonneg (EReal.coe_nonneg.mpr (left.quotient_nonneg right))

/-- A quotient does not vanish just when it is more than half of the smallest double. -/
theorem zero_lt_div_iff : 0 < x / y ↔ underflow < real x / real y := by
  obtain ⟨number, same⟩ := left.value_div right
  rw [pos_iff, and_iff_right number, same, rounded_pos_iff (left.quotient_nonneg right)]

theorem isFinite_div_iff : (x / y).isFinite = true ↔ real x / real y < overflow := by
  rw [isFinite_iff_of_nonneg (left.zero_le_div right), (left.value_div right).2, Ne,
    rounded_eq_top_iff (left.quotient_nonneg right), not_le]

end

section
variable {w : Float} (left : FinitePos x) (right : FinitePos y) (last : FinitePos w)
include left right last

/-- A quotient of a quotient is rounded twice. -/
theorem zero_lt_div_div_iff : 0 < x / y / w ↔ underflow < nearest (real x / real y) / real w := by
  have nonneg := left.quotient_nonneg right
  obtain ⟨number, same⟩ := left.value_div right
  obtain ⟨quotient, divided⟩ := last.value_div_right number
  rw [pos_iff, and_iff_right quotient, divided, same, rounded_of_nonneg nonneg]
  split_ifs with small
  · have divisor := last.real_pos
    have least := nearest_nonneg (real x / real y)
    rw [← EReal.coe_div, rounded_pos_iff (by positivity)]
  · -- An infinite quotient stays infinite, and all doubles are below it.
    rw [EReal.top_div_of_pos_ne_top (EReal.coe_pos.mpr last.real_pos) (EReal.coe_ne_top _), rounded_top]
    refine ⟨fun _ => ?_, fun _ => EReal.zero_lt_top⟩
    have above : 2 ^ 1024 ≤ nearest (real x / real y) := not_lt.mp ((nearest_lt_iff nonneg).not.mpr small)
    have below : real w < nearest (real x / real y) := (last.nearest_real.2.trans overflow_lt).trans_le above
    have more : 1 < nearest (real x / real y) / real w := (one_lt_div last.real_pos).mpr below
    exact underflow_lt_one.trans more

/-- It is infinite only if the first quotient is. -/
theorem isFinite_div_div_iff (large : 1 ≤ real w) : (x / y / w).isFinite = true ↔ real x / real y < overflow := by
  rw [← left.isFinite_div_iff right]
  refine ⟨fun finite => ?_, last.isFinite_div_of_finite large (left.zero_le_div right)⟩
  by_contra infinite
  have number := (left.value_div right).1
  have top : value (x / y) = ⊤ := not_not.mp (mt (isFinite_iff_of_nonneg (left.zero_le_div right)).mpr infinite)
  refine ((isFinite_iff _).mp finite).2.2 ?_
  rw [(last.value_div_right number).2, top,
    EReal.top_div_of_pos_ne_top (EReal.coe_pos.mpr last.real_pos) (EReal.coe_ne_top _), rounded_top]

end

end FinitePos

end Bleu.Double

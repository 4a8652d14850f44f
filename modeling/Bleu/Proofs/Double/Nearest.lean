import Mathlib.Algebra.Order.Archimedean.Real.Basic
import Mathlib.Algebra.Order.Floor.Semiring
import Mathlib.Data.EReal.Operations
import Mathlib.Data.Int.Log
import Mathlib.Tactic.Linarith
import Mathlib.Tactic.NormNum

/-!
# Nearest doubles

A double has 53 binary digits, the last of them worth at least `2 ^ (-1074)`. `nearest` rounds a real to that
precision, ties to the even digit, and `rounded` adds the infinities. Rounding is monotone
(`rounded_mono`) and leaves doubles as they are (`rounded_of_digits`); everything about the size of computed doubles
follows from the two.
-/
namespace Bleu.Double

/-! ## Natural numbers -/

/-- The nearest natural number, the even one of two. -/
noncomputable def halfEven (y : ℝ) : ℕ :=
  if y < ⌊y⌋₊ + 1 / 2 then ⌊y⌋₊ else if ⌊y⌋₊ + 1 / 2 < y then ⌊y⌋₊ + 1 else ⌊y⌋₊ + ⌊y⌋₊ % 2

theorem floor_le_halfEven (y : ℝ) : ⌊y⌋₊ ≤ halfEven y := by
  unfold halfEven
  split_ifs <;> omega

theorem halfEven_le (y : ℝ) : halfEven y ≤ ⌊y⌋₊ + 1 := by
  unfold halfEven
  split_ifs <;> omega

theorem halfEven_natCast (n : ℕ) : halfEven n = n := by
  unfold halfEven
  rw [Nat.floor_natCast, if_pos (by linarith)]

theorem halfEven_mono {x y : ℝ} (le : x ≤ y) : halfEven x ≤ halfEven y := by
  rcases Nat.lt_or_eq_of_le (Nat.floor_mono le) with below | same
  · have first := halfEven_le x
    have second := floor_le_halfEven y
    omega
  · unfold halfEven
    rw [same]
    split_ifs <;> first | omega | linarith

theorem halfEven_le_natCast {y : ℝ} {n : ℕ} (le : y ≤ n) : halfEven y ≤ n := by
  simpa only [halfEven_natCast] using halfEven_mono le

theorem natCast_le_halfEven {y : ℝ} {n : ℕ} (le : n ≤ y) : n ≤ halfEven y := by
  simpa only [halfEven_natCast] using halfEven_mono le

/-! ## Binary digits -/

/-- A number of binary digits, the last of them worth a power of two. -/
noncomputable abbrev scaled (m : ℕ) (e : ℤ) : ℝ := m * 2 ^ e

/-- The exponent of the last digit that a double of this size has. -/
noncomputable def exponentOf (x : ℝ) : ℤ := max (Int.log 2 x - 52) (-1074)

/-- The value of the last digit. -/
noncomputable def unit (x : ℝ) : ℝ := 2 ^ exponentOf x

theorem unit_pos (x : ℝ) : 0 < unit x := zpow_pos (by norm_num) _

theorem exponentOf_mono {x y : ℝ} (positive : 0 < x) (le : x ≤ y) : exponentOf x ≤ exponentOf y :=
  max_le_max (Int.sub_le_sub_right (Int.log_mono_right positive le) _) le_rfl

theorem two_pow_mul_zpow (n : ℕ) (e : ℤ) : (2 : ℝ) ^ n * 2 ^ e = 2 ^ (n + e) := by
  rw [zpow_add₀ (by norm_num), zpow_natCast]

/-- A number has at most 53 digits. -/
theorem lt_unit (x : ℝ) : x < 2 ^ 53 * unit x := by
  have above : x < (2 : ℝ) ^ (Int.log 2 x + 1) := Int.lt_zpow_succ_log_self (by norm_num) x
  refine above.trans_le ?_
  unfold unit
  rw [two_pow_mul_zpow]
  refine zpow_le_zpow_right₀ (by norm_num) ?_
  unfold exponentOf
  omega

/-- A number whose last digit is not the very last one has at least 53 digits. -/
theorem unit_le {x : ℝ} (positive : 0 < x) (normal : -1074 < exponentOf x) : 2 ^ 52 * unit x ≤ x := by
  refine le_trans ?_ (Int.zpow_log_le_self (b := 2) (by norm_num) positive)
  unfold unit
  rw [two_pow_mul_zpow]
  refine zpow_le_zpow_right₀ (by norm_num) ?_
  unfold exponentOf at normal ⊢
  omega

/-- A nonnegative number rounded to the digits of a double, without a bound on its size. -/
noncomputable def nearest (x : ℝ) : ℝ := halfEven (x / unit x) * unit x

theorem nearest_nonneg (x : ℝ) : 0 ≤ nearest x := mul_nonneg (Nat.cast_nonneg _) (unit_pos x).le

theorem nearest_zero : nearest 0 = 0 := by
  have same : halfEven 0 = 0 := by simpa using halfEven_natCast 0
  simp [nearest, same]

/-- Rounding to a double is monotone. Between numbers with last digits of different value lies a power of two, which
stays where it is. -/
theorem nearest_mono {x y : ℝ} (nonneg : 0 ≤ x) (le : x ≤ y) : nearest x ≤ nearest y := by
  rcases nonneg.eq_or_lt with zero | positive
  · rw [← zero, nearest_zero]
    exact nearest_nonneg y
  rcases (exponentOf_mono positive le).eq_or_lt with same | below
  · have units : unit x = unit y := by rw [unit, unit, same]
    unfold nearest
    rw [units]
    refine mul_le_mul_of_nonneg_right ?_ (unit_pos y).le
    exact_mod_cast halfEven_mono (div_le_div_of_nonneg_right le (unit_pos y).le)
  · have lower : exponentOf x ≥ -1074 := le_max_right _ _
    have left : halfEven (x / unit x) ≤ 2 ^ 53 := by
      refine halfEven_le_natCast ((div_le_iff₀ (unit_pos x)).mpr ?_)
      exact_mod_cast (lt_unit x).le
    have right : 2 ^ 52 ≤ halfEven (y / unit y) := by
      refine natCast_le_halfEven ((le_div_iff₀ (unit_pos y)).mpr ?_)
      exact_mod_cast unit_le (positive.trans_le le) (by omega)
    calc nearest x ≤ 2 ^ 53 * unit x := mul_le_mul_of_nonneg_right (by exact_mod_cast left) (unit_pos x).le
      _ ≤ 2 ^ 52 * unit y := by
        unfold unit
        rw [two_pow_mul_zpow, two_pow_mul_zpow]
        exact zpow_le_zpow_right₀ (by norm_num) (by push_cast; omega)
      _ ≤ nearest y := mul_le_mul_of_nonneg_right (by exact_mod_cast right) (unit_pos y).le

/-- The last digit of a double is a digit of every number with its digits. -/
theorem exponentOf_le {x : ℝ} {e : ℤ} (positive : 0 < x) (digits : x < 2 ^ 53 * 2 ^ e) (last : -1074 ≤ e) :
    exponentOf x ≤ e := by
  rw [two_pow_mul_zpow] at digits
  have length : Int.log 2 x < 53 + e := by
    refine (Int.lt_zpow_iff_log_lt (by norm_num) positive).mp ?_
    exact_mod_cast digits
  unfold exponentOf
  omega

/-- Numbers with the digits of a double stay as they are. -/
theorem nearest_of_digits {m : ℕ} {e : ℤ} (digits : m < 2 ^ 53) (last : -1074 ≤ e) :
    nearest (m * 2 ^ e) = m * 2 ^ e := by
  rcases Nat.eq_zero_or_pos m with rfl | some
  · simp [nearest_zero]
  · have scale : (0 : ℝ) < 2 ^ e := zpow_pos (by norm_num) e
    have positive : (0 : ℝ) < m * 2 ^ e := mul_pos (by exact_mod_cast some) scale
    have below : (m : ℝ) * 2 ^ e < 2 ^ 53 * 2 ^ e := mul_lt_mul_of_pos_right (by exact_mod_cast digits) scale
    have lower := exponentOf_le positive below last
    obtain ⟨shift, same⟩ := Int.eq_ofNat_of_zero_le (Int.sub_nonneg.mpr lower)
    -- In units of the last digit, the number is a natural one.
    have whole : (m : ℝ) * 2 ^ e = (m * 2 ^ shift : ℕ) * unit (m * 2 ^ e) := by
      unfold unit
      push_cast
      rw [mul_assoc, two_pow_mul_zpow]
      congr 2
      omega
    unfold nearest
    rw [(div_eq_iff (unit_pos _).ne').mpr whole, halfEven_natCast]
    exact whole.symm

/-! ## Doubles and infinities -/

/-- A nonnegative number rounded to a double, or to infinity above the largest one. -/
noncomputable def magnitude (x : ℝ) : EReal := if nearest x < 2 ^ 1024 then (nearest x : EReal) else ⊤

/-- A real rounded to a double or an infinity. -/
noncomputable def roundedReal (x : ℝ) : EReal := if 0 ≤ x then magnitude x else -magnitude (-x)

/-- A real or an infinity rounded to a double or an infinity. -/
noncomputable def rounded : EReal → EReal := EReal.rec ⊥ roundedReal ⊤

@[simp] theorem rounded_top : rounded ⊤ = ⊤ := rfl

@[simp] theorem rounded_bot : rounded ⊥ = ⊥ := rfl

theorem rounded_coe (x : ℝ) : rounded x = roundedReal x := rfl

theorem magnitude_nonneg (x : ℝ) : 0 ≤ magnitude x := by
  unfold magnitude
  split_ifs
  · exact_mod_cast nearest_nonneg x
  · exact le_top

theorem magnitude_mono {x y : ℝ} (nonneg : 0 ≤ x) (le : x ≤ y) : magnitude x ≤ magnitude y := by
  have mono := nearest_mono nonneg le
  unfold magnitude
  by_cases fits : nearest y < 2 ^ 1024
  · rw [if_pos fits, if_pos (mono.trans_lt fits)]
    exact_mod_cast mono
  · rw [if_neg fits]
    exact le_top

theorem roundedReal_mono {x y : ℝ} (le : x ≤ y) : roundedReal x ≤ roundedReal y := by
  unfold roundedReal
  by_cases left : 0 ≤ x
  · rw [if_pos left, if_pos (left.trans le)]
    exact magnitude_mono left le
  · rw [if_neg left]
    by_cases right : 0 ≤ y
    · rw [if_pos right]
      exact (EReal.neg_le_zero.mpr (magnitude_nonneg _)).trans (magnitude_nonneg y)
    · rw [if_neg right, EReal.neg_le_neg_iff]
      exact magnitude_mono (by linarith) (by linarith)

/-- Rounding is monotone. -/
theorem rounded_mono : Monotone rounded := by
  intro x y le
  induction x with
  | bot => exact bot_le
  | top => rw [top_le_iff.mp le]
  | coe x =>
    induction y with
    | bot => exact absurd le (not_le.mpr (EReal.bot_lt_coe x))
    | top => exact le_top
    | coe y => exact roundedReal_mono (EReal.coe_le_coe_iff.mp le)

@[simp] theorem rounded_zero : rounded 0 = 0 := by
  have small : (0 : ℝ) < 2 ^ 1024 := by positivity
  rw [← EReal.coe_zero, rounded_coe, roundedReal, if_pos le_rfl, magnitude, nearest_zero, if_pos small]

theorem rounded_neg (x : EReal) : rounded (-x) = -rounded x := by
  induction x with
  | bot => rfl
  | top => rfl
  | coe x =>
    rw [← EReal.coe_neg, rounded_coe, rounded_coe]
    rcases lt_trichotomy x 0 with negative | rfl | positive
    · rw [roundedReal, roundedReal, if_pos (by linarith), if_neg (by linarith), neg_neg]
    · rw [neg_zero, ← rounded_coe, EReal.coe_zero, rounded_zero, neg_zero]
    · rw [roundedReal, roundedReal, if_neg (by linarith), if_pos positive.le, neg_neg]

/-- Doubles stay as they are. -/
theorem rounded_of_digits {m : ℕ} {e : ℤ} (digits : m < 2 ^ 53) (last : -1074 ≤ e)
    (bounded : (m : ℝ) * 2 ^ e < 2 ^ 1024) : rounded ((m * 2 ^ e : ℝ) : EReal) = ((m * 2 ^ e : ℝ) : EReal) := by
  have nonneg : (0 : ℝ) ≤ m * 2 ^ e := mul_nonneg (Nat.cast_nonneg m) (zpow_pos (by norm_num) e).le
  rw [rounded_coe, roundedReal, if_pos nonneg, magnitude, nearest_of_digits digits last, if_pos bounded]

theorem rounded_two_zpow {e : ℤ} (last : -1074 ≤ e) (bounded : e < 1024) :
    rounded ((2 ^ e : ℝ) : EReal) = ((2 ^ e : ℝ) : EReal) := by
  have small : ((1 : ℕ) : ℝ) * 2 ^ e < 2 ^ 1024 := by
    rw [Nat.cast_one, one_mul, ← zpow_natCast]
    exact zpow_lt_zpow_right₀ (by norm_num) (by exact_mod_cast bounded)
  simpa using rounded_of_digits (by norm_num) last small

@[simp] theorem rounded_one : rounded 1 = 1 := by
  simpa using rounded_two_zpow (e := 0) (by norm_num) (by norm_num)

/-! ## The ends of the range -/

/-- Half of the smallest double, up to which numbers are rounded to zero. -/
noncomputable def underflow : ℝ := 2 ^ (-1075 : ℤ)

/-- The number halfway between the largest double and the next power of two, from which on rounding gives infinity. -/
noncomputable def overflow : ℝ := (2 ^ 54 - 1) * 2 ^ 970

/-- A number times a power of two. -/
noncomputable def doubled (z : ℕ) (x : ℝ) : ℝ := 2 ^ z * x

end Bleu.Double

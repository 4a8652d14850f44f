import Bleu.Proofs.Double.Nearest
import Mathlib

/-!
# How the machine rounds

The machine rounds a mantissa with two bits that say how it relates to the exact number (`Describes`). Shifting keeps
that relation, so that what is left after `roundWithAccuracy` is the exact number rounded to the nearest double
(`isNearest_roundWithAccuracy`), for any mantissa that is not too coarse to begin with.
-/
namespace Bleu.Double
open Float.Model Float.Model.UnpackedFloat

/-! ## Mantissas with two more bits -/

/-- The mantissa is the number cut to a natural one, and the bits say whether the rest is nothing, less than a half,
a half or more. -/
def Describes (em : ExtendedMantissa) (y : ℝ) : Prop :=
  match em.roundBit, em.stickyBit with
  | false, false => y = em.mantissa
  | false, true => em.mantissa < y ∧ y + y < em.mantissa + em.mantissa + 1
  | true, false => y + y = em.mantissa + em.mantissa + 1
  | true, true => em.mantissa + em.mantissa + 1 < y + y ∧ y < em.mantissa + 1

theorem describes_exact (m : ℕ) : Describes (.ofMantissaAndAccuracy m .exact) m := rfl

theorem Describes.floor_eq {em : ExtendedMantissa} {y : ℝ} (describes : Describes em y) : ⌊y⌋₊ = em.mantissa := by
  obtain ⟨m, half, rest⟩ := em
  have bounds : (m : ℝ) ≤ y ∧ y < m + 1 := by
    cases half <;> cases rest <;> simp only [Describes] at describes <;> constructor <;> linarith
  have nonneg : 0 ≤ y := (Nat.cast_nonneg m).trans bounds.1
  exact (Nat.floor_eq_iff nonneg).mpr bounds

/-- The rounded mantissa is the nearest natural number. -/
theorem Describes.rounded_eq {em : ExtendedMantissa} {y : ℝ} (describes : Describes em y) :
    em.roundedMantissa = halfEven y := by
  rw [halfEven, describes.floor_eq]
  obtain ⟨m, half, rest⟩ := em
  cases half <;> cases rest <;>
    simp only [Describes] at describes <;>
    simp only [ExtendedMantissa.roundedMantissa, ExtendedMantissa.accuracy, Accuracy.roundToNearestEven]
  · rw [if_pos (by linarith)]
  · rw [if_pos (by linarith)]
  · rw [if_neg (by linarith), if_neg (by linarith)]
  · rw [if_neg (by linarith), if_pos (by linarith)]

theorem Describes.shiftRightOne {em : ExtendedMantissa} {y : ℝ} (describes : Describes em y) :
    Describes em.shiftRightOne (y / 2) := by
  obtain ⟨m, half, rest⟩ := em
  rcases Nat.even_or_odd' m with ⟨k, rfl | rfl⟩
  · have low : 2 * k / 2 = k := by omega
    have bit : (2 * k % 2 != 0) = false := by simp
    cases half <;> cases rest <;>
      simp only [Describes, ExtendedMantissa.shiftRightOne, low, bit, Bool.or_false, Bool.or_true] at describes ⊢ <;>
      push_cast at describes <;> first | linarith | constructor <;> linarith
  · have low : (2 * k + 1) / 2 = k := by omega
    have bit : ((2 * k + 1) % 2 != 0) = true := by simp
    cases half <;> cases rest <;>
      simp only [Describes, ExtendedMantissa.shiftRightOne, low, bit, Bool.or_false, Bool.or_true] at describes ⊢ <;>
      push_cast at describes <;> first | linarith | constructor <;> linarith

theorem Describes.shiftRight {em : ExtendedMantissa} {y : ℝ} (describes : Describes em y) (n : ℕ) :
    Describes (em >>> n) (y / 2 ^ n) := by
  change Describes (n.repeat ExtendedMantissa.shiftRightOne em) _
  induction n with
  | zero => simpa [Nat.repeat] using describes
  | succ n ih =>
    rw [Nat.repeat, pow_succ, ← div_div]
    exact ih.shiftRightOne

/-- Shifting to a coarser exponent describes the same number in coarser units. -/
theorem describes_shiftToExponent {m : ℕ} {e : ℤ} {accuracy : Accuracy} {x : ℝ}
    (describes : Describes (.ofMantissaAndAccuracy m accuracy) (x / 2 ^ e)) (target : ℤ) :
    Describes (shiftToExponent m e accuracy target).1 (x / 2 ^ max e target) ∧
      (shiftToExponent m e accuracy target).2 = max e target := by
  have exponent : e + (target - e).toNat = max e target := by omega
  refine ⟨?_, exponent⟩
  have shifted := describes.shiftRight (target - e).toNat
  rwa [div_div, mul_comm, two_pow_mul_zpow, add_comm, exponent] at shifted

/-! ## The exponent of the last digit -/

theorem targetExponent_eq (total : ℤ) : Format.binary64.targetExponent total = max (total - 53) (-1074) := rfl

theorem log_eq {x : ℝ} {n : ℤ} (above : 2 ^ n ≤ x) (below : x < 2 ^ (n + 1)) : Int.log 2 x = n := by
  have positive : 0 < x := (zpow_pos (by norm_num) n).trans_le above
  have lower := (Int.zpow_le_iff_le_log (b := 2) (by norm_num) positive).mp (by exact_mod_cast above)
  have upper := (Int.lt_zpow_iff_log_lt (b := 2) (by norm_num) positive).mp (by exact_mod_cast below)
  omega

theorem log_mul_zpow {m : ℕ} (positive : 0 < m) (e : ℤ) {x : ℝ} (above : m * 2 ^ e ≤ x)
    (below : x < (m + 1) * 2 ^ e) : Int.log 2 x = m.log2 + e := by
  have scale : (0 : ℝ) < 2 ^ e := zpow_pos (by norm_num) e
  have low : 2 ^ m.log2 ≤ m := Nat.log2_self_le (by omega)
  have high : m + 1 ≤ 2 ^ (m.log2 + 1) := Nat.lt_log2_self
  refine log_eq (le_trans ?_ above) (below.trans_le ?_)
  · rw [← two_pow_mul_zpow]
    exact mul_le_mul_of_nonneg_right (by exact_mod_cast low) scale.le
  · rw [show (m.log2 : ℤ) + e + 1 = ((m.log2 + 1 : ℕ) : ℤ) + e by push_cast; ring, ← two_pow_mul_zpow]
    exact mul_le_mul_of_nonneg_right (by exact_mod_cast high) scale.le

/-- Shifting to the exponent that the mantissa calls for gives the last digit of a double. A mantissa of zero stands
for a number below every double. -/
theorem max_targetExponent {m : ℕ} {e : ℤ} {x : ℝ} (positive : 0 < x) (floor : ⌊x / 2 ^ e⌋₊ = m)
    (fine : e ≤ exponentOf x) : max e (Format.binary64.targetExponent (totalExponent m e)) = exponentOf x := by
  have scale : (0 : ℝ) < 2 ^ e := zpow_pos (by norm_num) e
  rw [targetExponent_eq, totalExponent]
  rcases Nat.eq_zero_or_pos m with rfl | counted
  · have small : x < 2 ^ e := by
      have below := Nat.lt_floor_add_one (x / 2 ^ e)
      rw [floor, div_lt_iff₀ scale] at below
      simpa using below
    have length : Int.log 2 x < e := (Int.lt_zpow_iff_log_lt (by norm_num) positive).mp (by exact_mod_cast small)
    have zero : Nat.log2 0 = 0 := by decide
    unfold exponentOf at fine ⊢
    rw [zero]
    omega
  · have bounds := (Nat.floor_eq_iff (div_pos positive scale).le).mp floor
    have length := log_mul_zpow counted e ((le_div_iff₀ scale).mp bounds.1) ((div_lt_iff₀ scale).mp bounds.2)
    unfold exponentOf at fine ⊢
    omega

/-! ## Rounding -/

/-- The one way of writing a number that has the digits of a double: with as many digits as there can be. -/
def Canonical (m : ℕ) (e : ℤ) : Prop := m < 2 ^ 53 ∧ -1074 ≤ e ∧ (2 ^ 52 ≤ m ∨ e = -1074)

/-- A machine number of a given sign and size, zero or written canonically. Its exponent may still be too large for a
double. -/
inductive IsNearest (sign : Sign) (x : ℝ) : UnpackedFloat → Prop
  | zero (same : nearest x = 0) : IsNearest sign x (.zero sign)
  | finite {m : ℕ} {e : ℤ} (positive : 0 < m) (canonical : Canonical m e) (same : nearest x = m * 2 ^ e) :
      IsNearest sign x (.finite sign m e positive)

/-- A mantissa that fits is not shifted again. -/
theorem shiftToTargetExponent_of_lt {m : ℕ} {e : ℤ} (digits : m < 2 ^ 53) (last : -1074 ≤ e) :
    shiftToTargetExponent Format.binary64 m e .exact = (.ofMantissaAndAccuracy m .exact, e) := by
  have length : m.log2 < 53 := by
    rcases Nat.eq_zero_or_pos m with rfl | counted
    · decide
    · exact (Nat.log2_lt (by omega)).mpr digits
  have unshifted : (Format.binary64.targetExponent (totalExponent m e) - e).toNat = 0 := by
    rw [targetExponent_eq, totalExponent]
    omega
  simp only [shiftToTargetExponent, shiftToExponent, unshifted]
  exact congrArg _ (Int.add_zero e)

/-- A mantissa that grew by one digit in rounding loses a zero. -/
theorem shiftToTargetExponent_two_pow {e : ℤ} (last : -1074 ≤ e) :
    shiftToTargetExponent Format.binary64 (2 ^ 53) e .exact = (.ofMantissaAndAccuracy (2 ^ 52) .exact, e + 1) := by
  have one : (Format.binary64.targetExponent (totalExponent (2 ^ 53) e) - e).toNat = 1 := by
    rw [targetExponent_eq, totalExponent, Nat.log2_two_pow]
    omega
  simp only [shiftToTargetExponent, shiftToExponent, one]
  rfl

theorem halfEven_digits {x : ℝ} (positive : 0 < x) :
    halfEven (x / unit x) ≤ 2 ^ 53 ∧ (2 ^ 52 ≤ halfEven (x / unit x) ∨ exponentOf x = -1074) := by
  constructor
  · refine halfEven_le_natCast ((div_le_iff₀ (unit_pos x)).mpr ?_)
    exact_mod_cast (lt_unit x).le
  · by_cases normal : -1074 < exponentOf x
    · refine .inl (natCast_le_halfEven ((le_div_iff₀ (unit_pos x)).mpr ?_))
      exact_mod_cast unit_le positive normal
    · have lower : -1074 ≤ exponentOf x := le_max_right _ _
      exact .inr (by omega)

/-- What the machine rounds is rounded to nearest, if the mantissa is not coarser than a double. -/
theorem isNearest_roundWithAccuracy (sign : Sign) {m : ℕ} {e : ℤ} {accuracy : Accuracy} {x : ℝ} (positive : 0 < x)
    (describes : Describes (.ofMantissaAndAccuracy m accuracy) (x / 2 ^ e)) (fine : e ≤ exponentOf x) :
    IsNearest sign x (roundWithAccuracy Format.binary64 sign m e accuracy) := by
  have floor : ⌊x / 2 ^ e⌋₊ = m := by
    rw [describes.floor_eq]
    cases accuracy with
    | exact => rfl
    | inexact half => cases half <;> rfl
  have lower : -1074 ≤ exponentOf x := le_max_right _ _
  -- The first shift leaves the digits of a double, and rounding may add one.
  obtain ⟨cut, exponent⟩ := describes_shiftToExponent describes (Format.binary64.targetExponent (totalExponent m e))
  rw [max_targetExponent positive floor fine] at cut exponent
  have mantissa := cut.rounded_eq
  change _ = halfEven (x / unit x) at mantissa
  obtain ⟨most, least⟩ := halfEven_digits positive
  unfold roundWithAccuracy
  dsimp only
  rw [show (shiftToTargetExponent Format.binary64 m e accuracy).1.roundedMantissa = _ from mantissa,
    show (shiftToTargetExponent Format.binary64 m e accuracy).2 = _ from exponent]
  rcases most.lt_or_eq with fits | grown
  · rw [shiftToTargetExponent_of_lt fits lower]
    change IsNearest sign x (if zero : halfEven (x / unit x) = 0 then _ else _)
    split_ifs with zero
    · exact .zero (by rw [nearest, zero, Nat.cast_zero, zero_mul])
    · exact .finite _ ⟨fits, lower, least⟩ rfl
  · rw [grown, shiftToTargetExponent_two_pow lower]
    have size : nearest x = (2 ^ 52 : ℕ) * 2 ^ (exponentOf x + 1) := by
      have twice : (2 : ℝ) ^ (exponentOf x + 1) = 2 ^ exponentOf x * 2 := zpow_add_one₀ (by norm_num) _
      rw [nearest, grown, unit, twice]
      push_cast
      ring
    have positive : 0 < 2 ^ 52 := by decide
    exact .finite positive ⟨by decide, by omega, .inl le_rfl⟩ size

/-! ## Arithmetic of sizes -/

theorem size_pos {m : ℕ} (positive : 0 < m) (e : ℤ) : (0 : ℝ) < m * 2 ^ e :=
  mul_pos (by exact_mod_cast positive) (zpow_pos (by norm_num) e)

theorem log_size {m : ℕ} (positive : 0 < m) (e : ℤ) : Int.log 2 ((m : ℝ) * 2 ^ e) = m.log2 + e := by
  have scale : (0 : ℝ) < 2 ^ e := zpow_pos (by norm_num) e
  exact log_mul_zpow positive e le_rfl (mul_lt_mul_of_pos_right (by linarith) scale)

theorem targetExponent_size {m : ℕ} (positive : 0 < m) (e : ℤ) :
    Format.binary64.targetExponent (totalExponent m e) = exponentOf (m * 2 ^ e) := by
  rw [targetExponent_eq, totalExponent, exponentOf, log_size positive]
  omega

/-- An exact mantissa describes its number. -/
theorem describes_size (m : ℕ) (e : ℤ) : Describes (.ofMantissaAndAccuracy m .exact) ((m : ℝ) * 2 ^ e / 2 ^ e) := by
  rw [mul_div_cancel_right₀ _ (zpow_pos (by norm_num) e).ne']
  exact describes_exact m

/-- Any mantissa can be made fine enough. -/
theorem isNearest_round (sign : Sign) {m : ℕ} (positive : 0 < m) (e : ℤ) :
    IsNearest sign (m * 2 ^ e) (UnpackedFloat.round Format.binary64 sign m e) := by
  unfold UnpackedFloat.round decreaseExponent
  dsimp only
  rw [targetExponent_size positive]
  generalize shift : (e - exponentOf (m * 2 ^ e)).toNat = k
  have same : (m : ℝ) * 2 ^ e = (m <<< k : ℕ) * 2 ^ (e - k) := by
    rw [Nat.shiftLeft_eq]
    push_cast
    rw [mul_assoc, two_pow_mul_zpow]
    congr 2
    omega
  refine isNearest_roundWithAccuracy sign (size_pos positive e) ?_ (by omega)
  rw [same]
  exact describes_size _ _

/-- A product is rounded from all its digits, unless it has too few of them. -/
theorem isNearest_mul (sign : Sign) {m n : ℕ} {e f : ℤ} (positive : 0 < m * n)
    (wide : 2 ^ 52 ≤ m * n ∨ e + f ≤ -1074) :
    IsNearest sign (m * 2 ^ e * (n * 2 ^ f)) (roundWithAccuracy Format.binary64 sign (m * n) (e + f) .exact) := by
  have same : (m : ℝ) * 2 ^ e * (n * 2 ^ f) = (m * n : ℕ) * 2 ^ (e + f) := by
    rw [zpow_add₀ (by norm_num)]
    push_cast
    ring
  rw [same]
  refine isNearest_roundWithAccuracy sign (size_pos positive _) (describes_size _ _) ?_
  rw [exponentOf, log_size positive]
  rcases wide with digits | small
  · have := (Nat.le_log2 positive.ne').mpr digits
    omega
  · omega

/-- Numbers written canonically have enough digits to be multiplied. -/
theorem Canonical.wide {m n : ℕ} {e f : ℤ} (positive : 0 < m) (other : 0 < n) (first : Canonical m e)
    (second : Canonical n f) : 2 ^ 52 ≤ m * n ∨ e + f ≤ -1074 := by
  rcases first.2.2 with digits | small
  · exact .inl (digits.trans (Nat.le_mul_of_pos_right m other))
  · rcases second.2.2 with digits | tiny
    · exact .inl (digits.trans (Nat.le_mul_of_pos_left n positive))
    · exact .inr (by omega)

/-- The accuracy of a quotient of natural numbers, cut to a natural one. -/
theorem describes_quotient {m n : ℕ} (positive : 0 < n) :
    Describes (.ofMantissaAndAccuracy (m / n) (accuracyOfFraction (m % n) n)) ((m : ℝ) / n) := by
  have scale : (0 : ℝ) < n := by exact_mod_cast positive
  have parts : (m : ℝ) / n = (m / n : ℕ) + (m % n : ℕ) / n := by
    rw [← sub_eq_iff_eq_add', div_sub' scale.ne', div_left_inj' scale.ne', sub_eq_iff_eq_add']
    exact_mod_cast (Nat.div_add_mod m n).symm
  have below : ((m % n : ℕ) : ℝ) < n := by exact_mod_cast Nat.mod_lt m positive
  have upper : ((m % n : ℕ) : ℝ) / n < 1 := (div_lt_one scale).mpr below
  unfold accuracyOfFraction
  by_cases exact : m % n = 0
  · rw [if_pos exact, parts, exact, Nat.cast_zero, zero_div, add_zero]
    exact describes_exact _
  · have rest : (0 : ℝ) < (m % n : ℕ) / n := div_pos (by exact_mod_cast Nat.pos_of_ne_zero exact) scale
    rw [if_neg exact, parts]
    rcases lt_trichotomy (2 * (m % n)) n with less | half | more
    · have quotient : ((m % n : ℕ) : ℝ) / n < 1 / 2 := by
        rw [div_lt_iff₀ scale]
        have : (2 : ℝ) * (m % n : ℕ) < n := by exact_mod_cast less
        linarith
      rw [compare_lt_iff_lt.mpr less]
      refine ⟨lt_add_of_pos_right _ rest, ?_⟩
      change _ < ((m / n : ℕ) : ℝ) + (m / n : ℕ) + 1
      linarith
    · have quotient : ((m % n : ℕ) : ℝ) / n = 1 / 2 := by
        rw [div_eq_iff scale.ne']
        have : (2 : ℝ) * (m % n : ℕ) = n := by exact_mod_cast half
        linarith
      rw [compare_eq_iff_eq.mpr half, quotient]
      change _ = ((m / n : ℕ) : ℝ) + (m / n : ℕ) + 1
      linarith
    · have quotient : 1 / 2 < ((m % n : ℕ) : ℝ) / n := by
        rw [lt_div_iff₀ scale]
        have : (n : ℝ) < 2 * (m % n : ℕ) := by exact_mod_cast more
        linarith
      rw [compare_gt_iff_gt.mpr more]
      refine ⟨?_, (add_lt_add_iff_left _).mpr upper⟩
      change ((m / n : ℕ) : ℝ) + (m / n : ℕ) + 1 < _
      linarith

/-- A quotient is at least what the lengths of the two mantissas say. -/
theorem le_log_div {m n : ℕ} (positive : 0 < m) (other : 0 < n) (e f : ℤ) :
    totalExponent m e - totalExponent n f - 1 ≤ Int.log 2 ((m : ℝ) * 2 ^ e / (n * 2 ^ f)) := by
  have left := size_pos positive e
  have right := size_pos other f
  have above : (2 : ℝ) ^ (m.log2 + e) ≤ m * 2 ^ e := by
    rw [← log_size positive e]
    exact_mod_cast Int.zpow_log_le_self (b := 2) (by norm_num) left
  have below : (n : ℝ) * 2 ^ f < 2 ^ (n.log2 + f + 1) := by
    rw [← log_size other f]
    exact_mod_cast Int.lt_zpow_succ_log_self (b := 2) (by norm_num) ((n : ℝ) * 2 ^ f)
  refine (Int.zpow_le_iff_le_log (by norm_num) (div_pos left right)).mp ?_
  rw [le_div_iff₀ right]
  push_cast
  unfold totalExponent
  calc (2 : ℝ) ^ (m.log2 + 1 + e - (n.log2 + 1 + f) - 1) * (n * 2 ^ f)
      ≤ 2 ^ (m.log2 + 1 + e - (n.log2 + 1 + f) - 1) * 2 ^ (n.log2 + f + 1) :=
        mul_le_mul_of_nonneg_left below.le (zpow_pos (by norm_num) _).le
    _ = 2 ^ (m.log2 + e) := by
        rw [← zpow_add₀ (by norm_num)]
        congr 1
        ring
    _ ≤ m * 2 ^ e := above

/-- A quotient is rounded from enough of its digits. -/
theorem isNearest_div (sign : Sign) {m n : ℕ} {e f : ℤ} (positive : 0 < m) (other : 0 < n) :
    IsNearest sign (m * 2 ^ e / (n * 2 ^ f))
      (roundWithAccuracy Format.binary64 sign (divCore Format.binary64 m e n f).1 (divCore Format.binary64 m e n f).2.1
        (divCore Format.binary64 m e n f).2.2) := by
  have quotient : (0 : ℝ) < m * 2 ^ e / (n * 2 ^ f) := div_pos (size_pos positive e) (size_pos other f)
  have length := le_log_div positive other e f
  unfold divCore
  dsimp only
  rw [targetExponent_eq]
  generalize target : min (e - f) (max (totalExponent m e - totalExponent n f - 53) (-1074)) = t
  generalize shift : (e - f - t).toNat = k
  refine isNearest_roundWithAccuracy sign quotient ?_ (by unfold exponentOf; omega)
  have same : (m : ℝ) * 2 ^ e / (n * 2 ^ f) / 2 ^ t = (m <<< k : ℕ) / n := by
    have exponent : e = k + (f + t) := by omega
    rw [Nat.shiftLeft_eq, div_div, exponent, zpow_add₀ (by norm_num), zpow_add₀ (by norm_num), zpow_natCast]
    push_cast
    field_simp
  rw [same]
  exact describes_quotient other

end Bleu.Double

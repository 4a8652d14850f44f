import Bleu.Proofs.Double.Value

/-!
# Bounds of computed doubles

Rounding is monotone and keeps doubles, so a computed double lies where the exact result lies, as long as the bound is
a double itself. The lemmas here are the bounds that scores need: signs of sums and products, quotients compared with
one, and doubles of natural numbers in their order.
-/
namespace Bleu.Double

/-! ## Numbers in order -/

theorem number_left {a b : Float} (le : a ≤ b) : IsNumber a := ((le_iff a b).mp le).1

theorem number_right {a b : Float} (le : a ≤ b) : IsNumber b := ((le_iff a b).mp le).2.1

theorem value_le {a b : Float} (le : a ≤ b) : value a ≤ value b := ((le_iff a b).mp le).2.2

theorem le_of_lt {a b : Float} (lt : a < b) : a ≤ b := by
  obtain ⟨left, right, less⟩ := (lt_iff a b).mp lt
  exact (le_iff a b).mpr ⟨left, right, less.le⟩

theorem le_refl {x : Float} (number : IsNumber x) : x ≤ x := (le_iff x x).mpr ⟨number, number, le_rfl⟩

theorem le_trans {a b c : Float} (first : a ≤ b) (second : b ≤ c) : a ≤ c :=
  (le_iff a c).mpr ⟨number_left first, number_right second, (value_le first).trans (value_le second)⟩

theorem lt_of_lt_of_le {a b c : Float} (first : a < b) (second : b ≤ c) : a < c := by
  obtain ⟨number, _, less⟩ := (lt_iff a b).mp first
  exact (lt_iff a c).mpr ⟨number, number_right second, less.trans_le (value_le second)⟩

theorem not_lt_iff {a b : Float} (left : IsNumber a) (right : IsNumber b) : ¬ a < b ↔ b ≤ a := by
  simp [lt_iff, le_iff, left, right]

theorem not_lt_of_le {a b : Float} (le : a ≤ b) : ¬ b < a :=
  (not_lt_iff (number_right le) (number_left le)).mpr le

@[simp] theorem value_zero : value 0 = 0 := by
  have same := (value_ofNat 0).2
  rwa [Nat.cast_zero, EReal.coe_zero, rounded_zero] at same

@[simp] theorem value_one : value 1 = 1 := by
  have same := (value_ofNat 1).2
  rwa [Nat.cast_one, EReal.coe_one, rounded_one] at same

theorem number_zero : IsNumber 0 := (value_ofNat 0).1

theorem number_one : IsNumber 1 := (value_ofNat 1).1

theorem nonneg_iff (x : Float) : 0 ≤ x ↔ IsNumber x ∧ 0 ≤ value x := by
  rw [le_iff, value_zero]
  simp [number_zero]

theorem nonpos_iff (x : Float) : x ≤ 0 ↔ IsNumber x ∧ value x ≤ 0 := by
  rw [le_iff, value_zero]
  simp [number_zero]

theorem pos_iff (x : Float) : 0 < x ↔ IsNumber x ∧ 0 < value x := by
  rw [lt_iff, value_zero]
  simp [number_zero]

theorem le_one_iff (x : Float) : x ≤ 1 ↔ IsNumber x ∧ value x ≤ 1 := by
  rw [le_iff, value_one]
  simp [number_one]

theorem one_le_iff (x : Float) : 1 ≤ x ↔ IsNumber x ∧ 1 ≤ value x := by
  rw [le_iff, value_one]
  simp [number_one]

theorem one_lt_iff (x : Float) : 1 < x ↔ IsNumber x ∧ 1 < value x := by
  rw [lt_iff, value_one]
  simp [number_one]

theorem pos_of_not_le {x : Float} (number : IsNumber x) (positive : ¬ x ≤ 0) : 0 < x := by
  rw [nonpos_iff] at positive
  exact (pos_iff x).mpr ⟨number, not_le.mp fun nonpos => positive ⟨number, nonpos⟩⟩

/-- A number that is not negative is finite unless its value is infinite. -/
theorem isFinite_iff_of_nonneg {x : Float} (nonneg : 0 ≤ x) : x.isFinite = true ↔ value x ≠ ⊤ := by
  obtain ⟨number, above⟩ := (nonneg_iff x).mp nonneg
  rw [isFinite_iff]
  exact ⟨fun finite => finite.2.2, fun bounded => ⟨number, (EReal.bot_lt_zero.trans_le above).ne', bounded⟩⟩

/-! ## Sums -/

theorem add_nonpos {a b : Float} (left : a ≤ 0) (right : b ≤ 0) : a + b ≤ 0 := by
  rw [nonpos_iff] at left right ⊢
  have number : IsNumber (a + b) := by
    refine isNumber_add left.1 right.1 (fun infinite => ?_) (fun _ infinite => ?_)
    · exact absurd left.2 (by simp [infinite])
    · exact absurd right.2 (by simp [infinite])
  refine ⟨number, ?_⟩
  rw [value_add number, ← rounded_zero]
  exact rounded_mono (by simpa using add_le_add left.2 right.2)

theorem isNumber_add_of_nonneg {a b : Float} (left : 0 ≤ a) (right : 0 ≤ b) : IsNumber (a + b) := by
  rw [nonneg_iff] at left right
  refine isNumber_add left.1 right.1 (fun _ infinite => ?_) (fun infinite => ?_)
  · exact absurd right.2 (by simp [infinite])
  · exact absurd left.2 (by simp [infinite])

theorem le_add_right {a b : Float} (left : 0 ≤ a) (right : 0 ≤ b) : a ≤ a + b := by
  have number := isNumber_add_of_nonneg left right
  refine (le_iff _ _).mpr ⟨number_right left, number, ?_⟩
  rw [value_add number, ← rounded_value a]
  refine rounded_mono ?_
  rw [rounded_value]
  exact le_add_of_nonneg_right ((nonneg_iff b).mp right).2

theorem le_add_left {a b : Float} (left : 0 ≤ a) (right : 0 ≤ b) : b ≤ a + b := by
  have number := isNumber_add_of_nonneg left right
  refine (le_iff _ _).mpr ⟨number_right right, number, ?_⟩
  rw [value_add number, ← rounded_value b]
  refine rounded_mono ?_
  rw [rounded_value]
  exact le_add_of_nonneg_left ((nonneg_iff a).mp left).2

theorem one_sub_nonpos {q : Float} (large : 1 ≤ q) : 1 - q ≤ 0 := by
  have numbers := (one_le_iff q).mp large
  have number : IsNumber (1 - q) := by
    refine isNumber_sub number_one numbers.1 (fun infinite => ?_) (fun infinite => ?_)
    · rw [value_one] at infinite
      exact absurd infinite (EReal.coe_ne_top 1)
    · rw [value_one] at infinite
      exact absurd infinite (EReal.coe_ne_bot 1)
  refine (nonpos_iff _).mpr ⟨number, ?_⟩
  rw [value_sub number, ← rounded_zero, value_one]
  exact rounded_mono (EReal.sub_nonpos.mpr numbers.2)

/-! ## Products -/

theorem isNumber_mul_of_pos {a b : Float} (left : 0 < a) (right : 0 < b) : IsNumber (a * b) := by
  rw [pos_iff] at left right
  exact isNumber_mul left.1 right.1 (fun zero => absurd zero left.2.ne') (fun zero => absurd zero right.2.ne')

theorem mul_le_mul {a b c d : Float} (first : 0 < a) (left : a ≤ b) (second : 0 < c) (right : c ≤ d) :
    a * c ≤ b * d := by
  have positive : 0 < b := (pos_iff b).mpr ⟨number_right left, ((pos_iff a).mp first).2.trans_le (value_le left)⟩
  have other : 0 < d := (pos_iff d).mpr ⟨number_right right, ((pos_iff c).mp second).2.trans_le (value_le right)⟩
  have lower := isNumber_mul_of_pos first second
  have upper := isNumber_mul_of_pos positive other
  refine (le_iff _ _).mpr ⟨lower, upper, ?_⟩
  rw [value_mul lower, value_mul upper]
  refine rounded_mono ?_
  calc value a * value c ≤ value b * value c :=
        mul_le_mul_of_nonneg_right (value_le left) ((pos_iff c).mp second).2.le
    _ ≤ value b * value d := mul_le_mul_of_nonneg_left (value_le right) ((pos_iff b).mp positive).2.le

/-- Numbers between zero and one are finite. -/
theorem finite_of_unit {x : Float} (nonneg : 0 ≤ x) (small : x ≤ 1) : value x ≠ ⊤ ∧ value x ≠ ⊥ := by
  refine ⟨fun infinite => ?_, fun infinite => ?_⟩
  · exact absurd ((le_one_iff x).mp small).2 (by rw [infinite]; exact not_le.mpr (EReal.coe_lt_top 1))
  · exact absurd ((nonneg_iff x).mp nonneg).2 (by simp [infinite])

theorem isFinite_of_unit {x : Float} (unit : 0 ≤ x ∧ x ≤ 1) : x.isFinite = true := by
  obtain ⟨above, below⟩ := finite_of_unit unit.1 unit.2
  exact (isFinite_iff x).mpr ⟨number_right unit.1, below, above⟩

theorem mul_unit {a b : Float} (left : 0 ≤ a ∧ a ≤ 1) (right : 0 ≤ b ∧ b ≤ 1) : 0 ≤ a * b ∧ a * b ≤ 1 := by
  have number : IsNumber (a * b) := isNumber_mul (number_right left.1) (number_right right.1)
    (fun _ => finite_of_unit right.1 right.2) (fun _ => finite_of_unit left.1 left.2)
  have first := ((nonneg_iff a).mp left.1).2
  have second := ((nonneg_iff b).mp right.1).2
  have one : value a * value b ≤ 1 :=
    calc value a * value b ≤ value a * 1 := mul_le_mul_of_nonneg_left ((le_one_iff b).mp right.2).2 first
      _ ≤ 1 := by rw [mul_one]; exact ((le_one_iff a).mp left.2).2
  rw [nonneg_iff, le_one_iff, value_mul number]
  refine ⟨⟨number, ?_⟩, number, ?_⟩
  · rw [← rounded_zero]
    exact rounded_mono (EReal.mul_nonneg first second)
  · rw [← rounded_one]
    exact rounded_mono one

/-- A share of a number that is not positive is not positive. -/
theorem mul_nonpos {w x : Float} (positive : 0 < w) (small : w ≤ 1) (nonpos : x ≤ 0) : w * x ≤ 0 := by
  have share := (pos_iff w).mp positive
  have numbers := (nonpos_iff x).mp nonpos
  have number : IsNumber (w * x) := isNumber_mul share.1 numbers.1 (fun zero => absurd zero share.2.ne')
    (fun _ => finite_of_unit (le_of_lt positive) small)
  refine (nonpos_iff _).mpr ⟨number, ?_⟩
  rw [value_mul number, ← rounded_zero]
  exact rounded_mono (EReal.mul_nonpos_iff.mpr (.inl ⟨share.2.le, numbers.2⟩))

theorem one_mul_of_pos {x : Float} (positive : 0 < x) : 1 * x = x := by
  have number : IsNumber (1 * x) := isNumber_mul_of_pos (by decide) positive
  have same : value (1 * x) = value x := by rw [value_mul number, value_one, one_mul, rounded_value]
  exact eq_of_value_eq number ((pos_iff x).mp positive).1 same (same ▸ ((pos_iff x).mp positive).2.ne')

theorem zero_add_of_pos {x : Float} (positive : 0 < x) : 0 + x = x := by
  have number : IsNumber (0 + x) := isNumber_add_of_nonneg (by decide) (le_of_lt positive)
  have same : value (0 + x) = value x := by rw [value_add number, value_zero, zero_add, rounded_value]
  exact eq_of_value_eq number ((pos_iff x).mp positive).1 same (same ▸ ((pos_iff x).mp positive).2.ne')

/-! ## Quotients -/

/-- A quotient by a number that is as large does not exceed one. -/
theorem not_one_lt_div {a b : Float} (positive : 0 < b) (le : a ≤ b) : ¬ 1 < a / b := by
  intro large
  obtain ⟨number, above⟩ := (one_lt_iff _).mp large
  have divisor := ((pos_iff b).mp positive).2
  rw [value_div divisor.ne' number] at above
  refine absurd above (not_lt.mpr ?_)
  rw [← rounded_one]
  refine rounded_mono ?_
  by_cases infinite : value b = ⊤
  · rw [infinite, EReal.div_top]
    exact EReal.coe_nonneg.mpr zero_le_one
  · rw [EReal.div_le_iff_le_mul divisor infinite, mul_one]
    exact value_le le

/-- Quotients that exceed one still do so when the divisor is smaller. -/
theorem one_lt_div_of_le {x y z : Float} (positive : 0 < y) (le : y ≤ z) (large : 1 < x / z) : 1 < x / y := by
  obtain ⟨number, above⟩ := (one_lt_iff _).mp large
  have first := ((pos_iff y).mp positive).2
  have second : 0 < value z := first.trans_le (value_le le)
  rw [value_div second.ne' number] at above
  -- An infinite divisor would give zero.
  have finite : value z ≠ ⊤ := by
    intro infinite
    rw [infinite, EReal.div_top, rounded_zero] at above
    exact absurd above (not_lt.mpr (EReal.coe_nonneg.mpr zero_le_one))
  have below : value y ≠ ⊤ := fun infinite => finite (top_le_iff.mp (infinite ▸ value_le le))
  have dividend : 0 ≤ value x := by
    by_contra negative
    have nonpos : value x / value z ≤ 0 := EReal.div_nonpos_of_nonpos_of_nonneg (not_le.mp negative).le second.le
    have rounded_nonpos := rounded_mono nonpos
    rw [rounded_zero] at rounded_nonpos
    exact absurd (above.trans_le rounded_nonpos) (not_lt.mpr (EReal.coe_nonneg.mpr zero_le_one))
  have quotient : IsNumber (x / y) := isNumber_div (numbers_of_div number).1 (number_left le) first.ne'
    (.inr ⟨below, (EReal.bot_lt_zero.trans first).ne'⟩)
  refine (one_lt_iff _).mpr ⟨quotient, above.trans_le ?_⟩
  rw [value_div first.ne' quotient]
  refine rounded_mono (mul_le_mul_of_nonneg_left ?_ dividend)
  exact EReal.inv_strictAntiOn.antitoneOn first second (value_le le)

theorem div_self_of_pos {x : Float} (positive : 0 < x) (finite : value x ≠ ⊤) : x / x = 1 := by
  obtain ⟨number, above⟩ := (pos_iff x).mp positive
  have bounded : value x ≠ ⊥ := (EReal.bot_lt_zero.trans above).ne'
  have quotient : IsNumber (x / x) := isNumber_div number number above.ne' (.inl ⟨finite, bounded⟩)
  have one : value (x / x) = 1 := by
    rw [value_div above.ne' quotient, EReal.div_self bounded finite above.ne']
    exact rounded_one
  exact eq_of_value_eq quotient number_one (one.trans value_one.symm) (by rw [one]; exact one_ne_zero)

theorem value_div_one {x : Float} (number : IsNumber x) : IsNumber (x / 1) ∧ value (x / 1) = value x := by
  have one : value 1 ≠ 0 := by rw [value_one]; exact one_ne_zero
  have quotient : IsNumber (x / 1) := isNumber_div number number_one one
    (.inr ⟨by rw [value_one]; exact EReal.coe_ne_top 1, by rw [value_one]; exact EReal.coe_ne_bot 1⟩)
  refine ⟨quotient, ?_⟩
  rw [value_div one quotient, value_one, div_one, rounded_value]

theorem div_nonneg {a b : Float} (nonneg : 0 ≤ a) (finite : value a ≠ ⊤) (positive : 0 < b) : 0 ≤ a / b := by
  have dividend := (nonneg_iff a).mp nonneg
  have divisor := (pos_iff b).mp positive
  have number : IsNumber (a / b) := isNumber_div dividend.1 divisor.1 divisor.2.ne'
    (.inl ⟨finite, (EReal.bot_lt_zero.trans_le dividend.2).ne'⟩)
  refine (nonneg_iff _).mpr ⟨number, ?_⟩
  rw [value_div divisor.2.ne' number, ← rounded_zero]
  exact rounded_mono (EReal.div_nonneg dividend.2 divisor.2.le)

theorem div_unit {a b : Float} (nonneg : 0 ≤ a) (finite : value a ≠ ⊤) (positive : 0 < b) (le : a ≤ b) :
    0 ≤ a / b ∧ a / b ≤ 1 := by
  have below := div_nonneg nonneg finite positive
  exact ⟨below, (not_lt_iff number_one (number_right below)).mp (not_one_lt_div positive le)⟩

/-- What is divided by infinity vanishes. -/
theorem value_div_infinity {a b : Float} (nonneg : 0 ≤ a) (finite : value a ≠ ⊤) (positive : 0 < b)
    (infinite : value b = ⊤) : IsNumber (a / b) ∧ value (a / b) = 0 := by
  have number := number_right (div_nonneg nonneg finite positive)
  refine ⟨number, ?_⟩
  rw [value_div ((pos_iff b).mp positive).2.ne' number, infinite, EReal.div_top, rounded_zero]

/-! ## Natural numbers -/

theorem ofNat_le_ofNat {m n : ℕ} (le : m ≤ n) : Float.ofNat m ≤ Float.ofNat n := by
  refine (le_iff _ _).mpr ⟨(value_ofNat m).1, (value_ofNat n).1, ?_⟩
  rw [(value_ofNat m).2, (value_ofNat n).2]
  exact rounded_mono (by exact_mod_cast le)

theorem one_le_ofNat {n : ℕ} (positive : 0 < n) : 1 ≤ Float.ofNat n := ofNat_le_ofNat positive

theorem ofNat_pos {n : ℕ} (positive : 0 < n) : 0 < Float.ofNat n := by
  obtain ⟨number, large⟩ := (one_le_iff _).mp (one_le_ofNat positive)
  exact (pos_iff _).mpr ⟨number, (EReal.coe_pos.mpr zero_lt_one).trans_le large⟩

/-- The doubles of machine words do not exceed the first number beyond these words. -/
theorem value_ofNat_le {n : ℕ} (small : n ≤ 2 ^ 64) : value (Float.ofNat n) ≤ ((2 ^ 64 : ℝ) : EReal) := by
  have power : ((2 ^ 64 : ℝ) : EReal) = rounded ((2 ^ 64 : ℝ) : EReal) := by
    have same := rounded_two_zpow (e := 64) (by norm_num) (by norm_num)
    exact_mod_cast same.symm
  rw [(value_ofNat n).2, power]
  exact rounded_mono (by exact_mod_cast small)

theorem value_ofNat_ne_top {n : ℕ} (small : n ≤ 2 ^ 64) : value (Float.ofNat n) ≠ ⊤ :=
  ((value_ofNat_le small).trans_lt (EReal.coe_lt_top _)).ne

theorem isNumber_ofNat_div {m n : ℕ} (positive : 0 < n) (small : n ≤ 2 ^ 64) :
    IsNumber (Float.ofNat m / Float.ofNat n) := by
  have divisor := (pos_iff _).mp (ofNat_pos positive)
  exact isNumber_div (value_ofNat m).1 divisor.1 divisor.2.ne'
    (.inr ⟨value_ofNat_ne_top small, (EReal.bot_lt_zero.trans divisor.2).ne'⟩)

/-- Quotients of positive machine words are positive. -/
theorem ofNat_div_pos {m n : ℕ} (numerator : 0 < m) (positive : 0 < n) (small : n ≤ 2 ^ 64) :
    0 < Float.ofNat m / Float.ofNat n := by
  have number := isNumber_ofNat_div (m := m) positive small
  have divisor := ((pos_iff _).mp (ofNat_pos positive)).2
  have scale : (0 : EReal) < ((2 ^ (-64 : ℤ) : ℝ) : EReal) := EReal.coe_pos.mpr (zpow_pos (by norm_num) _)
  have least : ((2 ^ (-64 : ℤ) : ℝ) : EReal) ≤ value (Float.ofNat m) / value (Float.ofNat n) := by
    rw [EReal.le_div_iff_mul_le divisor (value_ofNat_ne_top small)]
    calc ((2 ^ (-64 : ℤ) : ℝ) : EReal) * value (Float.ofNat n)
        ≤ ((2 ^ (-64 : ℤ) : ℝ) : EReal) * ((2 ^ 64 : ℝ) : EReal) :=
          mul_le_mul_of_nonneg_left (value_ofNat_le small) scale.le
      _ = 1 := by
          rw [← EReal.coe_mul]
          norm_num
      _ ≤ value (Float.ofNat m) := ((one_le_iff _).mp (one_le_ofNat numerator)).2
  refine (pos_iff _).mpr ⟨number, ?_⟩
  rw [value_div divisor.ne' number]
  refine LT.lt.trans_le ?_ (rounded_mono least)
  rw [rounded_two_zpow (by norm_num) (by norm_num)]
  exact scale

/-- The quotient of a positive machine word by itself is exactly one. -/
theorem ofNat_div_self {n : ℕ} (positive : 0 < n) (small : n ≤ 2 ^ 64) : Float.ofNat n / Float.ofNat n = 1 :=
  div_self_of_pos (ofNat_pos positive) (value_ofNat_ne_top small)

theorem one_le_ofNat_div {m n : ℕ} (positive : 0 < n) (le : n ≤ m) (small : n ≤ 2 ^ 64) :
    1 ≤ Float.ofNat m / Float.ofNat n := by
  have number := isNumber_ofNat_div (m := m) positive small
  have divisor := ((pos_iff _).mp (ofNat_pos positive)).2
  refine (one_le_iff _).mpr ⟨number, ?_⟩
  rw [value_div divisor.ne' number, ← rounded_one]
  refine rounded_mono ?_
  rw [EReal.le_div_iff_mul_le divisor (value_ofNat_ne_top small), one_mul]
  exact value_le (ofNat_le_ofNat le)

end Bleu.Double

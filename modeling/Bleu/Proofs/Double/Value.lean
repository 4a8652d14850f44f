import Bleu.Proofs.Double.Operations

/-!
# Values of doubles

The value of a double is a real or an infinity (`value`). Sums, differences, products and quotients that are numbers
have the exact value, rounded (`value_add`, `value_sub`, `value_mul`, `value_div`), the double of a natural number has
it too (`value_ofNat`), and comparison is that of values (`lt_iff`, `le_iff`).
-/
namespace Bleu.Double
open Float.Model Float.Model.UnpackedFloat

/-- The value of a double; zero for what is no number. -/
noncomputable def value (x : Float) : EReal := worth x.toModel.unpack

/-- Whether a double is a number or an infinity. -/
def IsNumber (x : Float) : Prop := x.isNaN = false

theorem unpacked (x : Float) : Unpacked x.toModel.unpack := unpacked_unpack _

@[simp] theorem rounded_value (x : Float) : rounded (value x) = value x := rounded_worth (unpacked x)

/-! ## Comparison -/

theorem compare_value {a b : Float} (left : IsNumber a) (right : IsNumber b) :
    a.toModel.compare b.toModel = some (cmp (value a) (value b)) :=
  compare_eq (unpacked a) (unpacked b) left right

theorem compare_eq_none {a b : Float} (unordered : ¬ (IsNumber a ∧ IsNumber b)) :
    a.toModel.compare b.toModel = .none := by
  change ¬ (a.toModel.unpack.isNaN = false ∧ b.toModel.unpack.isNaN = false) at unordered
  change UnpackedFloat.compare a.toModel.unpack b.toModel.unpack = .none
  cases left : a.toModel.unpack <;> cases right : b.toModel.unpack <;> rw [left, right] at unordered <;>
    first | rfl | exact absurd ⟨rfl, rfl⟩ unordered

/-- One double is less than another just when both are numbers and it has the lesser value. -/
theorem lt_iff (a b : Float) : a < b ↔ IsNumber a ∧ IsNumber b ∧ value a < value b := by
  change (decide (a.toModel < b.toModel) = true) ↔ _
  rw [decide_eq_true_eq]
  change (a.toModel.compare b.toModel == some .lt) = true ↔ _
  by_cases numbers : IsNumber a ∧ IsNumber b
  · rw [compare_value numbers.1 numbers.2, beq_iff_eq, Option.some_inj, cmp_eq_lt_iff]
    simp [numbers]
  · rw [compare_eq_none numbers, ← and_assoc]
    simp [numbers]

theorem le_iff (a b : Float) : a ≤ b ↔ IsNumber a ∧ IsNumber b ∧ value a ≤ value b := by
  change (decide (a.toModel ≤ b.toModel) = true) ↔ _
  rw [decide_eq_true_eq]
  change (a.toModel.compare b.toModel).any (·.isLE) = true ↔ _
  by_cases numbers : IsNumber a ∧ IsNumber b
  · rw [compare_value numbers.1 numbers.2, Option.any_some]
    rcases lt_trichotomy (value a) (value b) with less | same | more
    · rw [(cmp_eq_lt_iff _ _).mpr less]
      simp [numbers, less.le]
    · rw [(cmp_eq_eq_iff _ _).mpr same]
      simp [numbers, same]
    · rw [(cmp_eq_gt_iff _ _).mpr more]
      simp [not_le.mpr more]
  · rw [compare_eq_none numbers, ← and_assoc]
    simp [numbers]

theorem isFinite_iff (x : Float) : x.isFinite = true ↔ IsNumber x ∧ value x ≠ ⊥ ∧ value x ≠ ⊤ := by
  change x.toModel.unpack.isFinite = true ↔ x.toModel.unpack.isNaN = false ∧
    worth x.toModel.unpack ≠ ⊥ ∧ worth x.toModel.unpack ≠ ⊤
  cases x.toModel.unpack with
  | notANumber => simp [UnpackedFloat.isFinite, UnpackedFloat.isNaN]
  | infinity sign => cases sign <;> simp [UnpackedFloat.isFinite, worth, signed]
  | zero sign => simp [UnpackedFloat.isFinite, UnpackedFloat.isNaN, worth]
  | finite sign m e positive =>
    simp [UnpackedFloat.isFinite, UnpackedFloat.isNaN, (bot_lt_worth sign e positive).ne',
      (worth_lt_top sign e positive).ne]

theorem eq_of_compare_eq {u v : UnpackedFloat} (nonzero : worth u ≠ 0)
    (equal : UnpackedFloat.compare u v = some .eq) : u = v := by
  cases u with
  | notANumber => cases equal
  | zero s => exact absurd rfl nonzero
  | infinity s =>
    cases v with
    | infinity t => cases s <;> cases t <;> first | rfl | cases equal
    | notANumber => cases s <;> cases equal
    | zero t => cases s <;> cases equal
    | finite t n f other => cases s <;> cases equal
  | finite s m e positive =>
    cases v with
    | notANumber => cases s <;> cases equal
    | zero t => cases s <;> cases equal
    | infinity t => cases s <;> cases t <;> cases equal
    | finite t n f other =>
      cases s <;> cases t <;> try cases equal
      · have both : (compare e f = .eq ∧ compare m n = .eq) := by
          simpa [UnpackedFloat.compare, Ordering.swap_eq_eq, Ordering.then_eq_eq] using equal
        rw [compare_eq_iff_eq, compare_eq_iff_eq] at both
        obtain ⟨rfl, rfl⟩ := both
        rfl
      · have both : (compare e f = .eq ∧ compare m n = .eq) := by
          simpa [UnpackedFloat.compare, Ordering.then_eq_eq] using equal
        rw [compare_eq_iff_eq, compare_eq_iff_eq] at both
        obtain ⟨rfl, rfl⟩ := both
        rfl

/-- Numbers with the same value are the same, but for the two zeros. -/
theorem eq_of_value_eq {a b : Float} (left : IsNumber a) (right : IsNumber b) (same : value a = value b)
    (nonzero : value a ≠ 0) : a = b := by
  have compared := compare_value left right
  rw [(cmp_eq_eq_iff _ _).mpr same] at compared
  exact eq_of_unpack_eq (eq_of_compare_eq nonzero compared)

/-! ## Arithmetic -/

theorem unpack_add (a b : Float) : (a + b).toModel.unpack =
    stored (UnpackedFloat.add Format.binary64 a.toModel.unpack b.toModel.unpack) := rfl

theorem unpack_sub (a b : Float) : (a - b).toModel.unpack =
    stored (UnpackedFloat.sub Format.binary64 a.toModel.unpack b.toModel.unpack) := rfl

theorem unpack_mul (a b : Float) : (a * b).toModel.unpack =
    stored (UnpackedFloat.mul Format.binary64 a.toModel.unpack b.toModel.unpack) := rfl

theorem unpack_div (a b : Float) : (a / b).toModel.unpack =
    stored (UnpackedFloat.div Format.binary64 a.toModel.unpack b.toModel.unpack) := rfl

theorem not_isNumber {x : Float} (undefined : x.toModel.unpack.isNaN = true) : ¬ IsNumber x := fun number =>
  Bool.noConfusion (undefined.symm.trans number)

/-- The outcome of an operation on doubles. -/
theorem value_of_computes {x : Float} {u : UnpackedFloat} {exact : EReal} {invalid : Prop}
    (result : x.toModel.unpack = stored u) (computes : Computes u exact invalid) :
    (IsNumber x → value x = rounded exact) ∧ (¬ invalid → IsNumber x) := by
  unfold value
  rw [result]
  rcases computes with ⟨number, same⟩ | ⟨undefined, cause⟩
  · exact ⟨fun _ => same, fun _ => (congrArg _ result).trans number⟩
  · refine ⟨fun number => absurd number (not_isNumber ?_), fun valid => absurd cause valid⟩
    rw [result]
    exact undefined

theorem value_add {a b : Float} (number : IsNumber (a + b)) : value (a + b) = rounded (value a + value b) :=
  (value_of_computes (unpack_add a b) (computes_add (unpacked a) (unpacked b))).1 number

theorem value_mul {a b : Float} (number : IsNumber (a * b)) : value (a * b) = rounded (value a * value b) :=
  (value_of_computes (unpack_mul a b) (computes_mul (unpacked a) (unpacked b))).1 number

theorem value_div {a b : Float} (divisor : value b ≠ 0) (number : IsNumber (a / b)) :
    value (a / b) = rounded (value a / value b) :=
  (value_of_computes (unpack_div a b) (computes_div divisor)).1 number

theorem isNumber_add {a b : Float} (left : IsNumber a) (right : IsNumber b)
    (above : value a = ⊤ → value b ≠ ⊥) (below : value a = ⊥ → value b ≠ ⊤) : IsNumber (a + b) := by
  refine (value_of_computes (unpack_add a b) (computes_add (unpacked a) (unpacked b))).2 ?_
  rintro (undefined | undefined | ⟨first, second⟩ | ⟨first, second⟩)
  · exact not_isNumber undefined left
  · exact not_isNumber undefined right
  · exact above first second
  · exact below first second

theorem isNumber_mul {a b : Float} (left : IsNumber a) (right : IsNumber b)
    (first : value a = 0 → value b ≠ ⊤ ∧ value b ≠ ⊥) (second : value b = 0 → value a ≠ ⊤ ∧ value a ≠ ⊥) :
    IsNumber (a * b) := by
  refine (value_of_computes (unpack_mul a b) (computes_mul (unpacked a) (unpacked b))).2 ?_
  rintro (undefined | undefined | ⟨infinite, zero⟩ | ⟨zero, infinite⟩)
  · exact not_isNumber undefined left
  · exact not_isNumber undefined right
  · exact infinite.elim (second zero).1 (second zero).2
  · exact infinite.elim (first zero).1 (first zero).2

/-- A positive number times zero is the positive zero. -/
theorem mul_zero_of_value_pos {x : Float} (positive : 0 < value x) (finite : value x ≠ ⊤) : x * 0 = 0 := by
  have zero : (0 : Float).toModel.unpack = .zero .positive := rfl
  refine eq_of_unpack_eq ?_
  rw [unpack_mul, zero]
  unfold value at positive finite
  cases same : x.toModel.unpack with
  | notANumber => simp [same, worth] at positive
  | zero sign => simp [same, worth] at positive
  | infinity sign => cases sign <;> simp [same, worth, signed] at positive finite
  | finite sign m e nonzero =>
    cases sign with
    | positive => exact stored_zero .positive
    | negative =>
      rw [same] at positive
      exact absurd positive (not_lt.mpr (worth_neg_lt e nonzero).le)

theorem isNumber_div {a b : Float} (left : IsNumber a) (right : IsNumber b) (divisor : value b ≠ 0)
    (finite : value a ≠ ⊤ ∧ value a ≠ ⊥ ∨ value b ≠ ⊤ ∧ value b ≠ ⊥) : IsNumber (a / b) := by
  refine (value_of_computes (unpack_div a b) (computes_div divisor)).2 ?_
  rintro (undefined | undefined | ⟨first, second⟩)
  · exact not_isNumber undefined left
  · exact not_isNumber undefined right
  · rcases finite with finite | finite
    · exact first.elim finite.1 finite.2
    · exact second.elim finite.1 finite.2

/-- What is no number has no quotients. -/
theorem numbers_of_div {a b : Float} (number : IsNumber (a / b)) : IsNumber a ∧ IsNumber b := by
  have undefined : ¬ (stored .notANumber).isNaN = false := by rw [stored_notANumber]; decide
  change (stored (UnpackedFloat.div Format.binary64 a.toModel.unpack b.toModel.unpack)).isNaN = false at number
  change a.toModel.unpack.isNaN = false ∧ b.toModel.unpack.isNaN = false
  cases left : a.toModel.unpack <;> cases right : b.toModel.unpack <;> rw [left, right] at number <;>
    first | exact ⟨rfl, rfl⟩ | exact absurd number undefined

theorem computes_sub (a b : Float) : Computes (UnpackedFloat.sub Format.binary64 a.toModel.unpack b.toModel.unpack)
    (value a - value b) (a.isNaN ∨ b.isNaN ∨ value a = ⊤ ∧ value b = ⊤ ∨ value a = ⊥ ∧ value b = ⊥) := by
  have sum := computes_add (unpacked a) (unpacked_neg (unpacked b))
  rw [worth_neg, isNaN_neg, EReal.neg_eq_bot_iff, EReal.neg_eq_top_iff] at sum
  rw [sub_eq_add_neg]
  exact sum

theorem value_sub {a b : Float} (number : IsNumber (a - b)) : value (a - b) = rounded (value a - value b) :=
  (value_of_computes (unpack_sub a b) (computes_sub a b)).1 number

theorem isNumber_sub {a b : Float} (left : IsNumber a) (right : IsNumber b)
    (above : value a = ⊤ → value b ≠ ⊤) (below : value a = ⊥ → value b ≠ ⊥) : IsNumber (a - b) := by
  refine (value_of_computes (unpack_sub a b) (computes_sub a b)).2 ?_
  rintro (undefined | undefined | ⟨first, second⟩ | ⟨first, second⟩)
  · exact not_isNumber undefined left
  · exact not_isNumber undefined right
  · exact above first second
  · exact below first second

/-! ## Natural numbers -/

theorem ofNat_of_lt {n : ℕ} (digits : n < 2 ^ 53) :
    Float.ofNat n = n.toUInt64.toFloat * Float.ofBits 0x3FF0000000000000 := by
  change Float.ofScientific n false 0 = _
  rw [Float.ofScientific, dif_pos ⟨digits, by decide⟩]
  rfl

theorem ofNat_of_le {n : ℕ} (digits : 2 ^ 53 ≤ n) : Float.ofNat n = .ofModel (Float.Model.ofScientific n 0) := by
  change Float.ofScientific n false 0 = _
  rw [Float.ofScientific, dif_neg (by omega)]
  rfl

theorem value_toFloat {n : ℕ} (small : n < 2 ^ 64) :
    IsNumber n.toUInt64.toFloat ∧ value n.toUInt64.toFloat = rounded (n : ℝ) := by
  have word : n.toUInt64.toNat = n := Nat.mod_eq_of_lt small
  have result : n.toUInt64.toFloat.toModel.unpack =
      stored (UnpackedFloat.normalize Format.binary64 (n.toUInt64.toNat : ℤ) 0 .positive) := rfl
  have outcome : Computes (UnpackedFloat.normalize Format.binary64 (n : ℤ) 0 .positive)
      ((n * 2 ^ (0 : ℤ) : ℝ) : EReal) False := computes_normalize n 0 .positive
  rw [word] at result
  rw [zpow_zero, mul_one] at outcome
  obtain ⟨same, number⟩ := value_of_computes result outcome
  exact ⟨number not_false, same (number not_false)⟩

theorem rounded_natCast {n : ℕ} (digits : n < 2 ^ 53) : rounded (n : ℝ) = (n : ℝ) := by
  have bounded : (n : ℝ) * 2 ^ (0 : ℤ) < 2 ^ 1024 := by
    have below : (n : ℝ) < 2 ^ 53 := by exact_mod_cast digits
    rw [zpow_zero, mul_one]
    exact below.trans_le (pow_le_pow_right₀ (by norm_num) (by norm_num))
  simpa using rounded_of_digits digits (by norm_num) bounded

theorem value_ofNat_of_lt {n : ℕ} (digits : n < 2 ^ 53) :
    IsNumber (Float.ofNat n) ∧ value (Float.ofNat n) = rounded (n : ℝ) := by
  obtain ⟨whole, same⟩ := value_toFloat (n := n) (by omega)
  have one : value (Float.ofBits 0x3FF0000000000000) = 1 := by
    have unpacked : (Float.ofBits 0x3FF0000000000000).toModel.unpack =
        .finite .positive (2 ^ 52) (-52) (by decide) := rfl
    rw [value, unpacked, worth, signed]
    norm_num
  rw [rounded_natCast digits] at same ⊢
  rw [ofNat_of_lt digits]
  have number : IsNumber (n.toUInt64.toFloat * Float.ofBits 0x3FF0000000000000) := by
    refine isNumber_mul whole rfl (fun _ => ?_) (fun zero => ?_)
    · rw [one]
      exact ⟨EReal.coe_ne_top 1, EReal.coe_ne_bot 1⟩
    · simp [one] at zero
  refine ⟨number, ?_⟩
  rw [value_mul number, same, one, mul_one, rounded_natCast digits]

/-- A number with many digits is read as the exact product of its digits and one. -/
theorem isNearest_ofScientific {n : ℕ} (digits : 2 ^ 53 ≤ n) :
    IsNearest .positive (n : ℝ) (UnpackedFloat.ofScientific Format.binary64 n 0) := by
  have computed : UnpackedFloat.ofScientific Format.binary64 n 0 =
      roundWithAccuracy Format.binary64 .positive (n <<< 53 * 1) (-53 + 0) .exact := by
    have nonzero : n ≠ 0 := by omega
    have wide : ¬ (0 : ℤ) < -((2 ^ 11 : ℤ) + n.log2) := by omega
    rw [UnpackedFloat.ofScientific, dif_neg nonzero, if_neg (by decide), if_neg wide, if_pos le_rfl]
    rfl
  have shifted : 0 < n <<< 53 * 1 := by
    rw [Nat.shiftLeft_eq]
    omega
  have near := isNearest_mul (m := n <<< 53) (n := 1) (e := -53) (f := 0) .positive shifted (.inl (by omega))
  have size : ((n <<< 53 : ℕ) : ℝ) * 2 ^ (-53 : ℤ) * ((1 : ℕ) * 2 ^ (0 : ℤ)) = n := by
    rw [Nat.shiftLeft_eq]
    push_cast
    rw [mul_assoc (n : ℝ)]
    norm_num
  rw [size] at near
  rw [computed]
  exact near

theorem value_ofNat_of_le {n : ℕ} (digits : 2 ^ 53 ≤ n) :
    IsNumber (Float.ofNat n) ∧ value (Float.ofNat n) = rounded (n : ℝ) := by
  have result : (Float.ofModel (Float.Model.ofScientific n 0)).toModel.unpack =
      stored (UnpackedFloat.ofScientific Format.binary64 n 0) := rfl
  have outcome : Computes (UnpackedFloat.ofScientific Format.binary64 n 0) ((n : ℝ) : EReal) False :=
    computes_nearest (Nat.cast_nonneg n) (isNearest_ofScientific digits)
  rw [ofNat_of_le digits]
  obtain ⟨same, number⟩ := value_of_computes result outcome
  exact ⟨number not_false, same (number not_false)⟩

/-- The double of a natural number is the nearest one. -/
theorem value_ofNat (n : ℕ) : IsNumber (Float.ofNat n) ∧ value (Float.ofNat n) = rounded (n : ℝ) :=
  (lt_or_ge n (2 ^ 53)).elim value_ofNat_of_lt value_ofNat_of_le

end Bleu.Double

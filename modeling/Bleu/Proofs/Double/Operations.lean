import Bleu.Proofs.Double.Packing

/-!
# Operations on machine numbers

The value of an unpacked number is a real or an infinity (`worth`). Each operation of the machine computes the exact
value of the result, rounded (`Computes`), unless the operands are invalid. Comparison goes by exponents first, which
is the order of the values for numbers that are written canonically (`compare_eq`).
-/
namespace Bleu.Double
open Float.Model Float.Model.UnpackedFloat

/-! ## Signs -/

/-- A size with a sign. -/
def signed {β : Type} [Neg β] : Sign → β → β
  | .positive, x => x
  | .negative, x => -x

@[simp] theorem signed_zero (sign : Sign) : signed sign (0 : EReal) = 0 := by
  cases sign <;> simp [signed]

theorem signed_neg (sign : Sign) (x : EReal) : signed (-sign) x = -signed sign x := by
  cases sign
  · exact (neg_neg x).symm
  · rfl

theorem signed_mul (s t : Sign) (x y : EReal) : signed s x * signed t y = signed (s * t) (x * y) := by
  cases s <;> cases t
  · exact neg_mul_neg x y
  · exact neg_mul x y
  · exact mul_neg x y
  · rfl

theorem signed_div (s t : Sign) (x y : EReal) : signed s x / signed t y = signed (s / t) (x / y) := by
  have inverse : (signed t y)⁻¹ = signed t y⁻¹ := by
    cases t
    · exact EReal.inv_neg y
    · rfl
  rw [EReal.div_eq_inv_mul, inverse, mul_comm, signed_mul]
  rfl

theorem rounded_signed (sign : Sign) (x : EReal) : rounded (signed sign x) = signed sign (rounded x) := by
  cases sign
  · exact rounded_neg x
  · rfl

/-! ## Machine numbers -/

/-- The value of a machine number; zero for what is no number. -/
noncomputable def worth : UnpackedFloat → EReal
  | .infinity sign => signed sign ⊤
  | .notANumber => 0
  | .zero _ => 0
  | .finite sign m e _ => signed sign (scaled m e : EReal)

/-- What a computed number becomes when it is stored as a double. -/
def stored (u : UnpackedFloat) : UnpackedFloat := unpack Format.binary64 (pack Format.binary64 u)

/-- A number as unpacking gives it. -/
def Unpacked : UnpackedFloat → Prop
  | .finite _ m e _ => Canonical m e ∧ e ≤ 971
  | _ => True

theorem unpacked_unpack (b : BitVec Format.binary64.numBits) : Unpacked (unpack Format.binary64 b) := by
  cases same : unpack Format.binary64 b with
  | finite sign m e positive => exact canonical_of_unpack_eq same
  | infinity sign => trivial
  | notANumber => trivial
  | zero sign => trivial

theorem stored_infinity (sign : Sign) : stored (.infinity sign) = .infinity sign := unpack_packedInfinity sign

theorem stored_notANumber : stored .notANumber = .notANumber := unpack_packedNaN

theorem stored_zero (sign : Sign) : stored (.zero sign) = .zero sign := unpack_packedZero

theorem stored_of_unpacked {u : UnpackedFloat} (unpacked : Unpacked u) : stored u = u := by
  cases u with
  | infinity sign => exact stored_infinity sign
  | notANumber => exact stored_notANumber
  | zero sign => exact stored_zero sign
  | finite sign m e positive => exact unpack_pack_of_le sign positive unpacked.1 unpacked.2

/-- Values below the largest exponent are below infinity. -/
theorem size_lt {m : ℕ} {e : ℤ} (canonical : Canonical m e) (fits : e ≤ 971) : (m : ℝ) * 2 ^ e < 2 ^ 1024 := by
  have digits : (m : ℝ) < 2 ^ 53 := by exact_mod_cast canonical.1
  calc (m : ℝ) * 2 ^ e < 2 ^ 53 * 2 ^ e := mul_lt_mul_of_pos_right digits (zpow_pos (by norm_num) e)
    _ ≤ 2 ^ 1024 := by
      rw [two_pow_mul_zpow, ← zpow_natCast]
      exact zpow_le_zpow_right₀ (by norm_num) (by push_cast; omega)

theorem le_size {m : ℕ} {e : ℤ} (canonical : Canonical m e) (large : 971 < e) : 2 ^ 1024 ≤ (m : ℝ) * 2 ^ e := by
  have digits : (2 : ℝ) ^ 52 ≤ m := by exact_mod_cast canonical.2.2.resolve_right (by omega)
  calc (2 : ℝ) ^ 1024 ≤ (2 : ℝ) ^ 52 * 2 ^ e := by
        rw [two_pow_mul_zpow, ← zpow_natCast]
        exact zpow_le_zpow_right₀ (by norm_num) (by push_cast; omega)
    _ ≤ (m : ℝ) * 2 ^ e := mul_le_mul_of_nonneg_right digits (zpow_pos (by norm_num) e).le

/-- Storing a number that was rounded to nearest gives the rounded value. -/
theorem worth_stored {sign : Sign} {x : ℝ} {u : UnpackedFloat} (nonneg : 0 ≤ x) (near : IsNearest sign x u) :
    worth (stored u) = rounded (signed sign (x : EReal)) ∧ (stored u).isNaN = false := by
  rw [rounded_signed, rounded_coe, roundedReal, if_pos nonneg, magnitude]
  cases near with
  | zero same =>
    rw [stored_zero, same, if_pos (by positivity), EReal.coe_zero, signed_zero]
    exact ⟨rfl, rfl⟩
  | @finite m e positive canonical same =>
    rw [same]
    by_cases fits : e ≤ 971
    · rw [stored, unpack_pack_of_le sign positive canonical fits, if_pos (size_lt canonical fits)]
      exact ⟨rfl, rfl⟩
    · have large := le_size canonical (by omega)
      rw [stored, unpack_pack_of_lt sign positive (by omega), if_neg (not_lt.mpr large)]
      exact ⟨rfl, rfl⟩

/-- The value of a double is rounded. -/
theorem rounded_worth {u : UnpackedFloat} (unpacked : Unpacked u) : rounded (worth u) = worth u := by
  cases u with
  | infinity sign => exact rounded_signed sign ⊤
  | notANumber => exact rounded_zero
  | zero sign => exact rounded_zero
  | finite sign m e positive =>
    obtain ⟨canonical, fits⟩ := unpacked
    rw [worth, rounded_signed, rounded_of_digits canonical.1 canonical.2.1 (size_lt canonical fits)]

/-! ## Operations on machine numbers -/

/-- Whether a machine number is infinite. -/
def IsInfinite (u : UnpackedFloat) : Prop := worth u = ⊤ ∨ worth u = ⊥

theorem isInfinite_infinity (sign : Sign) : IsInfinite (.infinity sign) := by
  cases sign
  · exact .inr rfl
  · exact .inl rfl

/-- The outcome of an operation is a double of the rounded exact value, except that `invalid` operands give none. -/
def Computes (u : UnpackedFloat) (exact : EReal) (invalid : Prop) : Prop :=
  (stored u).isNaN = false ∧ worth (stored u) = rounded exact ∨ (stored u).isNaN = true ∧ invalid

theorem computes_notANumber {exact : EReal} {invalid : Prop} (cause : invalid) :
    Computes .notANumber exact invalid := .inr ⟨by rw [stored_notANumber]; rfl, cause⟩

theorem computes_infinity {sign : Sign} {exact : EReal} {invalid : Prop} (same : exact = signed sign ⊤) :
    Computes (.infinity sign) exact invalid := by
  refine .inl ⟨by rw [stored_infinity]; rfl, ?_⟩
  rw [stored_infinity, same, rounded_signed]
  rfl

theorem computes_zero {sign : Sign} {exact : EReal} {invalid : Prop} (same : exact = 0) :
    Computes (.zero sign) exact invalid := by
  refine .inl ⟨by rw [stored_zero]; rfl, ?_⟩
  rw [stored_zero, same, rounded_zero]
  rfl

theorem computes_unpacked {u : UnpackedFloat} (unpacked : Unpacked u) (number : u.isNaN = false) {invalid : Prop} :
    Computes u (worth u) invalid :=
  .inl ⟨by rw [stored_of_unpacked unpacked, number], by rw [stored_of_unpacked unpacked, rounded_worth unpacked]⟩

theorem computes_nearest {sign : Sign} {x : ℝ} {u : UnpackedFloat} {invalid : Prop} (nonneg : 0 ≤ x)
    (near : IsNearest sign x u) : Computes u (signed sign (x : EReal)) invalid :=
  .inl ⟨(worth_stored nonneg near).2, (worth_stored nonneg near).1⟩

theorem computes_mul {u v : UnpackedFloat} (left : Unpacked u) (right : Unpacked v) :
    Computes (UnpackedFloat.mul Format.binary64 u v) (worth u * worth v)
      (u.isNaN ∨ v.isNaN ∨ IsInfinite u ∧ worth v = 0 ∨ worth u = 0 ∧ IsInfinite v) := by
  cases u with
  | notANumber => exact computes_notANumber (.inl rfl)
  | infinity s =>
    cases v with
    | notANumber => exact computes_notANumber (.inr (.inl rfl))
    | infinity t => exact computes_infinity (by rw [worth, worth, signed_mul, EReal.top_mul_top])
    | zero t => exact computes_notANumber (.inr (.inr (.inl ⟨isInfinite_infinity s, rfl⟩)))
    | finite t n f other =>
      exact computes_infinity (by rw [worth, worth, signed_mul, EReal.top_mul_coe_of_pos (size_pos other f)])
  | zero s =>
    cases v with
    | notANumber => exact computes_notANumber (.inr (.inl rfl))
    | infinity t => exact computes_notANumber (.inr (.inr (.inr ⟨rfl, isInfinite_infinity t⟩)))
    | zero t => exact computes_zero (zero_mul _)
    | finite t n f other => exact computes_zero (zero_mul _)
  | finite s m e positive =>
    cases v with
    | notANumber => exact computes_notANumber (.inr (.inl rfl))
    | infinity t =>
      exact computes_infinity (by rw [worth, worth, signed_mul, EReal.coe_mul_top_of_pos (size_pos positive e)])
    | zero t => exact computes_zero (mul_zero _)
    | finite t n f other =>
      have near := isNearest_mul (s * t) (Nat.mul_pos positive other) (left.1.wide positive other right.1)
      rw [worth, worth, signed_mul, ← EReal.coe_mul]
      exact computes_nearest (mul_pos (size_pos positive e) (size_pos other f)).le near

theorem computes_div {u v : UnpackedFloat} (divisor : worth v ≠ 0) :
    Computes (UnpackedFloat.div Format.binary64 u v) (worth u / worth v)
      (u.isNaN ∨ v.isNaN ∨ IsInfinite u ∧ IsInfinite v) := by
  cases u with
  | notANumber => exact computes_notANumber (.inl rfl)
  | infinity s =>
    cases v with
    | notANumber => exact computes_notANumber (.inr (.inl rfl))
    | infinity t => exact computes_notANumber (.inr (.inr ⟨isInfinite_infinity s, isInfinite_infinity t⟩))
    | zero t => exact absurd rfl divisor
    | finite t n f other =>
      have size : (0 : EReal) < ((n * 2 ^ f : ℝ) : EReal) := by exact_mod_cast size_pos other f
      exact computes_infinity (by
        rw [worth, worth, signed_div, EReal.top_div_of_pos_ne_top size (EReal.coe_ne_top _)])
  | zero s =>
    cases v with
    | notANumber => exact computes_notANumber (.inr (.inl rfl))
    | infinity t => exact computes_zero EReal.zero_div
    | zero t => exact absurd rfl divisor
    | finite t n f other => exact computes_zero EReal.zero_div
  | finite s m e positive =>
    cases v with
    | notANumber => exact computes_notANumber (.inr (.inl rfl))
    | infinity t => exact computes_zero (by rw [worth, worth, signed_div, EReal.div_top, signed_zero])
    | zero t => exact absurd rfl divisor
    | finite t n f other =>
      rw [worth, worth, signed_div, ← EReal.coe_div]
      have near := isNearest_div (s / t) (e := e) (f := f) positive other
      exact computes_nearest (div_pos (size_pos positive e) (size_pos other f)).le near

theorem worth_finite (sign : Sign) {m : ℕ} (e : ℤ) (positive : 0 < m) :
    worth (.finite sign m e positive) = ((sign.apply m * 2 ^ e : ℝ) : EReal) := by
  cases sign
  · simp [worth, signed, Sign.apply]
  · simp [worth, signed, Sign.apply]

/-- A whole number of units is rounded. -/
theorem computes_normalize (z e : ℤ) (zeroSign : Sign) {invalid : Prop} :
    Computes (UnpackedFloat.normalize Format.binary64 z e zeroSign) ((z * 2 ^ e : ℝ) : EReal) invalid := by
  unfold UnpackedFloat.normalize
  rcases lt_trichotomy z 0 with negative | rfl | positive
  · have counted : 0 < (-z).toNat := by omega
    have size : (((-z).toNat : ℕ) : ℝ) = -z := by exact_mod_cast Int.toNat_of_nonneg (by omega : 0 ≤ -z)
    have same : ((z * 2 ^ e : ℝ) : EReal) = signed .negative (((-z).toNat * 2 ^ e : ℝ) : EReal) := by
      rw [size, signed, ← EReal.coe_neg, neg_mul, neg_neg]
    rw [compare_lt_iff_lt.mpr negative, same]
    exact computes_nearest (size_pos counted e).le (isNearest_round .negative counted e)
  · rw [compare_eq_iff_eq.mpr rfl]
    exact computes_zero (by simp)
  · have counted : 0 < z.toNat := by omega
    have size : ((z.toNat : ℕ) : ℝ) = z := by exact_mod_cast Int.toNat_of_nonneg positive.le
    have same : ((z * 2 ^ e : ℝ) : EReal) = signed .positive ((z.toNat * 2 ^ e : ℝ) : EReal) := by
      rw [size, signed]
    rw [compare_gt_iff_gt.mpr positive, same]
    exact computes_nearest (size_pos counted e).le (isNearest_round .positive counted e)

/-- A number in smaller units. -/
theorem apply_decreaseExponent (sign : Sign) (m : ℕ) {e f : ℤ} (le : f ≤ e) :
    (sign.apply (decreaseExponent m e f).1 : ℝ) * 2 ^ f = sign.apply m * 2 ^ e := by
  have size : ((decreaseExponent m e f).1 : ℝ) * 2 ^ f = m * 2 ^ e := by
    unfold decreaseExponent
    dsimp only
    rw [Nat.shiftLeft_eq]
    push_cast
    rw [mul_assoc, two_pow_mul_zpow]
    congr 2
    omega
  cases sign
  · simp only [Sign.apply, Int.cast_neg, Int.cast_natCast, neg_mul, size]
  · simp only [Sign.apply, Int.cast_natCast, size]

theorem computes_add {u v : UnpackedFloat} (left : Unpacked u) (right : Unpacked v) :
    Computes (UnpackedFloat.add Format.binary64 u v) (worth u + worth v)
      (u.isNaN ∨ v.isNaN ∨ worth u = ⊤ ∧ worth v = ⊥ ∨ worth u = ⊥ ∧ worth v = ⊤) := by
  cases u with
  | notANumber => exact computes_notANumber (.inl rfl)
  | infinity s =>
    cases v with
    | notANumber => exact computes_notANumber (.inr (.inl rfl))
    | infinity t =>
      cases s <;> cases t
      · exact computes_infinity (EReal.add_bot _)
      · exact computes_notANumber (.inr (.inr (.inr ⟨rfl, rfl⟩)))
      · exact computes_notANumber (.inr (.inr (.inl ⟨rfl, rfl⟩)))
      · exact computes_infinity EReal.top_add_top
    | zero t => exact computes_infinity (add_zero _)
    | finite t n f other =>
      rw [worth_finite]
      cases s
      · exact computes_infinity (EReal.bot_add _)
      · exact computes_infinity (EReal.top_add_coe _)
  | zero s =>
    have same : worth (.zero s) + worth v = worth v := zero_add _
    rw [same]
    cases v with
    | notANumber => exact computes_notANumber (.inr (.inl rfl))
    | infinity t => exact computes_infinity rfl
    | zero t => cases s <;> cases t <;> exact computes_zero rfl
    | finite t n f other => exact computes_unpacked right rfl
  | finite s m e positive =>
    cases v with
    | notANumber => exact computes_notANumber (.inr (.inl rfl))
    | infinity t =>
      rw [worth_finite]
      cases t
      · exact computes_infinity (EReal.add_bot _)
      · exact computes_infinity (EReal.coe_add_top _)
    | zero t =>
      have same : worth (.finite s m e positive) + worth (.zero t) = worth (.finite s m e positive) := add_zero _
      rw [same]
      exact computes_unpacked left rfl
    | finite t n f other =>
      rw [worth_finite, worth_finite, ← EReal.coe_add, ← apply_decreaseExponent s m (min_le_left e f),
        ← apply_decreaseExponent t n (min_le_right e f), ← add_mul, ← Int.cast_add]
      exact computes_normalize _ _ _

/-- Subtracting is adding the opposite. -/
theorem sub_eq_add_neg (u v : UnpackedFloat) :
    UnpackedFloat.sub Format.binary64 u v = UnpackedFloat.add Format.binary64 u v.neg := by
  have opposite : ∀ (t : Sign) (z : ℤ), (-t).apply z = -t.apply z := by
    intro t z
    cases t
    · exact (neg_neg z).symm
    · rfl
  cases u <;> cases v <;> try rfl
  case finite.finite s m e positive t n f other =>
    simp only [UnpackedFloat.sub, UnpackedFloat.add, UnpackedFloat.neg, opposite, Int.sub_eq_add_neg]

theorem unpacked_neg {u : UnpackedFloat} (unpacked : Unpacked u) : Unpacked u.neg := by
  cases u <;> exact unpacked

theorem worth_neg (u : UnpackedFloat) : worth u.neg = -worth u := by
  cases u with
  | notANumber => exact neg_zero.symm
  | zero sign => exact neg_zero.symm
  | infinity sign => exact signed_neg sign _
  | finite sign m e positive => exact signed_neg sign _

theorem isNaN_neg (u : UnpackedFloat) : u.neg.isNaN = u.isNaN := by
  cases u <;> rfl

/-! ## Comparison of machine numbers -/

/-- Numbers of which one has the larger exponent. -/
theorem size_lt_size {m n : ℕ} {e f : ℤ} (first : Canonical m e) (second : Canonical n f) (below : e < f) :
    (m : ℝ) * 2 ^ e < n * 2 ^ f := by
  have digits : (m : ℝ) < 2 ^ 53 := by exact_mod_cast first.1
  have last := first.2.1
  have others : (2 : ℝ) ^ 52 ≤ n := by exact_mod_cast second.2.2.resolve_right (by omega)
  calc (m : ℝ) * 2 ^ e < 2 ^ 53 * 2 ^ e := mul_lt_mul_of_pos_right digits (zpow_pos (by norm_num) e)
    _ ≤ 2 ^ 52 * 2 ^ f := by
      rw [two_pow_mul_zpow, two_pow_mul_zpow]
      exact zpow_le_zpow_right₀ (by norm_num) (by push_cast; omega)
    _ ≤ (n : ℝ) * 2 ^ f := mul_le_mul_of_nonneg_right others (zpow_pos (by norm_num) f).le

/-- Numbers written canonically are ordered by their exponents first. -/
theorem compare_size {m n : ℕ} {e f : ℤ} (first : Canonical m e) (second : Canonical n f) :
    (compare e f).then (compare m n) = cmp ((m : ℝ) * 2 ^ e) (n * 2 ^ f) := by
  rcases lt_trichotomy e f with below | rfl | above
  · rw [compare_lt_iff_lt.mpr below, (cmp_eq_lt_iff _ _).mpr (size_lt_size first second below)]
    rfl
  · have scale : (0 : ℝ) < 2 ^ e := zpow_pos (by norm_num) e
    rw [compare_eq_iff_eq.mpr rfl]
    rcases lt_trichotomy m n with less | rfl | more
    · rw [compare_lt_iff_lt.mpr less, (cmp_eq_lt_iff _ _).mpr]
      · rfl
      · exact mul_lt_mul_of_pos_right (by exact_mod_cast less) scale
    · rw [compare_eq_iff_eq.mpr rfl, (cmp_eq_eq_iff _ _).mpr rfl]
      rfl
    · rw [compare_gt_iff_gt.mpr more, (cmp_eq_gt_iff _ _).mpr]
      · rfl
      · exact mul_lt_mul_of_pos_right (by exact_mod_cast more) scale
  · rw [compare_gt_iff_gt.mpr above, (cmp_eq_gt_iff _ _).mpr (size_lt_size second first above)]
    rfl

theorem cmp_coe (x y : ℝ) : cmp (x : EReal) y = cmp x y := by
  simp only [cmp, cmpUsing, EReal.coe_lt_coe_iff]

theorem cmp_neg (x y : EReal) : cmp (-x) (-y) = cmp y x := by
  simp only [cmp, cmpUsing, EReal.neg_lt_neg_iff]

theorem worth_pos {m : ℕ} (e : ℤ) (positive : 0 < m) : 0 < worth (.finite .positive m e positive) := by
  change (0 : EReal) < ((m * 2 ^ e : ℝ) : EReal)
  exact_mod_cast size_pos positive e

theorem worth_neg_lt {m : ℕ} (e : ℤ) (positive : 0 < m) : worth (.finite .negative m e positive) < 0 := by
  have size := worth_pos e positive
  exact EReal.neg_lt_comm.mp (by rwa [neg_zero])

theorem bot_lt_worth (sign : Sign) {m : ℕ} (e : ℤ) (positive : 0 < m) : ⊥ < worth (.finite sign m e positive) := by
  rw [worth_finite]
  exact EReal.bot_lt_coe _

theorem worth_lt_top (sign : Sign) {m : ℕ} (e : ℤ) (positive : 0 < m) : worth (.finite sign m e positive) < ⊤ := by
  rw [worth_finite]
  exact EReal.coe_lt_top _

theorem compare_of_lt {x y : EReal} (less : x < y) : some .lt = some (cmp x y) :=
  congrArg some ((cmp_eq_lt_iff x y).mpr less).symm

theorem compare_of_gt {x y : EReal} (more : y < x) : some .gt = some (cmp x y) :=
  congrArg some ((cmp_eq_gt_iff x y).mpr more).symm

theorem compare_self (x : EReal) : some .eq = some (cmp x x) := congrArg some ((cmp_eq_eq_iff x x).mpr rfl).symm

theorem compare_finite {m n : ℕ} {e f : ℤ} (first : Canonical m e) (second : Canonical n f) (s t : Sign)
    (positive : 0 < m) (other : 0 < n) :
    UnpackedFloat.compare (.finite s m e positive) (.finite t n f other) =
      some (cmp (worth (.finite s m e positive)) (worth (.finite t n f other))) := by
  cases s <;> cases t
  · change some ((compare e f).then (compare m n)).swap = _
    rw [compare_size first second, cmp_swap, worth, worth, signed, signed, cmp_neg, cmp_coe]
  · exact compare_of_lt ((worth_neg_lt e positive).trans (worth_pos f other))
  · exact compare_of_gt ((worth_neg_lt f other).trans (worth_pos e positive))
  · change some ((compare e f).then (compare m n)) = _
    rw [compare_size first second, worth, worth, signed, signed, cmp_coe]

/-- Machine numbers compare as their values do. -/
theorem compare_eq {u v : UnpackedFloat} (left : Unpacked u) (right : Unpacked v) (number : u.isNaN = false)
    (other : v.isNaN = false) : UnpackedFloat.compare u v = some (cmp (worth u) (worth v)) := by
  cases u with
  | notANumber => cases number
  | infinity s =>
    cases v with
    | notANumber => cases other
    | infinity t =>
      cases s <;> cases t
      · exact compare_self ⊥
      · exact compare_of_lt bot_lt_top
      · exact compare_of_gt bot_lt_top
      · exact compare_self ⊤
    | zero t =>
      cases s
      · exact compare_of_lt EReal.bot_lt_zero
      · exact compare_of_gt EReal.zero_lt_top
    | finite t n f given =>
      cases s
      · exact compare_of_lt (bot_lt_worth t f given)
      · exact compare_of_gt (worth_lt_top t f given)
  | zero s =>
    cases v with
    | notANumber => cases other
    | infinity t =>
      cases t
      · exact compare_of_gt EReal.bot_lt_zero
      · exact compare_of_lt EReal.zero_lt_top
    | zero t => exact compare_self 0
    | finite t n f given =>
      cases t
      · exact compare_of_gt (worth_neg_lt f given)
      · exact compare_of_lt (worth_pos f given)
  | finite s m e positive =>
    cases v with
    | notANumber => cases other
    | infinity t =>
      cases t
      · exact compare_of_gt (bot_lt_worth s e positive)
      · exact compare_of_lt (worth_lt_top s e positive)
    | zero t =>
      cases s
      · exact compare_of_lt (worth_neg_lt e positive)
      · exact compare_of_gt (worth_pos e positive)
    | finite t n f given => exact compare_finite left.1 right.1 s t positive given

end Bleu.Double

import Bleu.Fraction
import Mathlib.Algebra.Order.Field.Basic
import Mathlib.Algebra.Order.Field.Rat
import Mathlib.Order.WithBot
import Mathlib.Tactic.NormNum

/-!
# The order of fractions

A fraction that applies has an exact value, and one that does not apply stands below all values (`Fraction.value`).
`Fraction.compare` forms the products across only, yet it orders fractions by their values
(`compare_eq_compare_value`), and so it is a total preorder. The products of fractions of sixty-four-bit numbers fit
into twice as many bits (`compare_by_value`).
-/
namespace Bleu.Fraction

/-- The exact value of a fraction; below every number if the fraction does not apply. -/
def value (f : Fraction) : WithBot ℚ := if f.isApplicable then ((f.numerator / f.denominator : ℚ) : WithBot ℚ) else ⊥

/-- The fractions that can be made of numbers of sixty-four bits, and the one that does not apply. -/
inductive Obtainable : Fraction → Prop
  | notApplicable : Obtainable .notApplicable
  | ofNats {numerator denominator : Nat} {f : Fraction} (above : numerator < 2 ^ 64) (below : denominator < 2 ^ 64)
      (made : ofNats numerator denominator = .ok f) : Obtainable f

/-! ## Values -/

theorem isApplicable_iff {f : Fraction} : f.isApplicable = true ↔ 0 < f.denominator := by simp [isApplicable]

theorem eq_notApplicable_iff {f : Fraction} : f = notApplicable ↔ f.isApplicable = false := by
  constructor
  · rintro rfl
    rfl
  · intro undefined
    obtain ⟨numerator, denominator, zero⟩ := f
    have missing : denominator = 0 := by simpa [isApplicable] using undefined
    cases missing
    cases zero rfl
    rfl

theorem value_of_applicable {f : Fraction} (applies : f.isApplicable = true) :
    f.value = ((f.numerator / f.denominator : ℚ) : WithBot ℚ) := if_pos applies

theorem value_of_not_applicable {f : Fraction} (undefined : f.isApplicable = false) : f.value = ⊥ := by
  rw [value, undefined]
  rfl

/-! ## Comparing -/

/-- Quotients compare as the products across do. -/
theorem compare_products {n d m e : Nat} (left : 0 < d) (right : 0 < e) :
    Ord.compare (n * e) (m * d) = Ord.compare (n / d : ℚ) (m / e : ℚ) := by
  have d_pos : (0 : ℚ) < d := Nat.cast_pos.mpr left
  have e_pos : (0 : ℚ) < e := Nat.cast_pos.mpr right
  rcases lt_trichotomy (n * e) (m * d) with less | same | more
  · rw [compare_lt_iff_lt.mpr less, eq_comm, compare_lt_iff_lt, div_lt_div_iff₀ d_pos e_pos]
    exact_mod_cast less
  · rw [compare_eq_iff_eq.mpr same, eq_comm, compare_eq_iff_eq, div_eq_div_iff d_pos.ne' e_pos.ne']
    exact_mod_cast same
  · rw [compare_gt_iff_gt.mpr more, eq_comm, compare_gt_iff_gt, div_lt_div_iff₀ e_pos d_pos]
    exact_mod_cast more

theorem compare_coe (x y : ℚ) : Ord.compare (x : WithBot ℚ) (y : WithBot ℚ) = Ord.compare x y := by
  rcases lt_trichotomy x y with less | same | more
  · rw [compare_lt_iff_lt.mpr less, compare_lt_iff_lt.mpr (WithBot.coe_lt_coe.mpr less)]
  · rw [same, compare_eq_iff_eq.mpr rfl, compare_eq_iff_eq.mpr rfl]
  · rw [compare_gt_iff_gt.mpr more, compare_gt_iff_gt.mpr (WithBot.coe_lt_coe.mpr more)]

theorem compare_of_applicable {a b : Fraction} (left : a.isApplicable = true) (right : b.isApplicable = true) :
    a.compare b = Ord.compare (a.numerator / a.denominator : ℚ) (b.numerator / b.denominator : ℚ) := by
  rw [← compare_products (isApplicable_iff.mp left) (isApplicable_iff.mp right)]
  simp only [compare, left, right]

/-- Fractions are compared by their values. -/
theorem compare_eq_compare_value (a b : Fraction) : a.compare b = Ord.compare a.value b.value := by
  cases left : a.isApplicable with
  | false =>
    cases right : b.isApplicable with
    | false =>
      simp only [compare, left, right, value_of_not_applicable]
      exact (compare_eq_iff_eq.mpr rfl).symm
    | true =>
      simp only [compare, left, right, value_of_not_applicable, value_of_applicable]
      exact (compare_lt_iff_lt.mpr (WithBot.bot_lt_coe _)).symm
  | true =>
    cases right : b.isApplicable with
    | false =>
      simp only [compare, left, right, value_of_not_applicable, value_of_applicable]
      exact (compare_gt_iff_gt.mpr (WithBot.bot_lt_coe _)).symm
    | true =>
      rw [compare_of_applicable left right, value_of_applicable left, value_of_applicable right, compare_coe]

theorem compare_ne_gt_iff {a b : Fraction} : a.compare b ≠ .gt ↔ a.value ≤ b.value := by
  rw [compare_eq_compare_value, Ne, compare_gt_iff_gt, not_lt]

theorem compare_eq_iff {a b : Fraction} : a.compare b = .eq ↔ a.value = b.value := by
  rw [compare_eq_compare_value, compare_eq_iff_eq]

theorem same_iff {a b : Fraction} : a.same b = true ↔ a.compare b = .eq := by
  rw [same, beq_iff_eq]

theorem compare_swap (a b : Fraction) : b.compare a = (a.compare b).swap := by
  rw [compare_eq_compare_value, compare_eq_compare_value]
  exact Std.OrientedCmp.eq_swap

theorem value_eq_bot_iff {f : Fraction} : f.value = ⊥ ↔ f = notApplicable := by
  rw [eq_notApplicable_iff]
  constructor
  · intro bottom
    by_contra applies
    rw [value_of_applicable (Bool.not_eq_false _ ▸ applies)] at bottom
    exact WithBot.coe_ne_bot bottom
  · exact value_of_not_applicable

/-! ## Fractions of words -/

theorem Obtainable.bounds {f : Fraction} (obtainable : f.Obtainable) :
    f.numerator < 2 ^ 64 ∧ f.denominator < 2 ^ 64 := by
  cases obtainable with
  | notApplicable => exact ⟨by decide, by decide⟩
  | ofNats above below made =>
    unfold Fraction.ofNats at made
    split at made
    · cases made
      exact ⟨above, below⟩
    · cases made

theorem product_lt {a b : Fraction} (left : a.Obtainable) (right : b.Obtainable) :
    a.numerator * b.denominator < 2 ^ 128 :=
  calc a.numerator * b.denominator
    _ < 2 ^ 64 * 2 ^ 64 := Nat.mul_lt_mul'' left.bounds.1 right.bounds.2
    _ = 2 ^ 128 := (Nat.pow_add 2 64 64).symm

/-! ## The order -/

/-- A comparison and an equality of fractions that agree with each other and with the exact values. -/
structure IsExactOrder (order : Fraction → Fraction → Ordering) (equal : Fraction → Fraction → Bool) : Prop where
  refl : ∀ a, order a a = .eq
  swap : ∀ a b, order b a = (order a b).swap
  total : ∀ a b, order a b ≠ .gt ∨ order b a ≠ .gt
  trans : ∀ a b c, order a b ≠ .gt → order b c ≠ .gt → order a c ≠ .gt
  equal_iff : ∀ a b, equal a b = true ↔ order a b = .eq
  exact : ∀ a b, a.isApplicable = true → b.isApplicable = true →
    order a b = Ord.compare (a.numerator / a.denominator : ℚ) (b.numerator / b.denominator : ℚ)
  notApplicable_iff : ∀ a, equal a notApplicable = true ↔ a = notApplicable
  notApplicable_lt : ∀ a, a ≠ notApplicable → order notApplicable a = .lt

theorem isExactOrder_compare : IsExactOrder compare same where
  refl a := compare_eq_iff.mpr rfl
  swap := compare_swap
  total a b := by
    rw [compare_ne_gt_iff, compare_ne_gt_iff]
    exact le_total _ _
  trans a b c first second := by
    rw [compare_ne_gt_iff] at first second ⊢
    exact first.trans second
  equal_iff _ _ := same_iff
  exact _ _ := compare_of_applicable
  notApplicable_iff a := by
    rw [same_iff, compare_eq_iff, value_of_not_applicable (f := notApplicable) rfl, value_eq_bot_iff]
  notApplicable_lt a other := by
    rw [compare_eq_compare_value, compare_lt_iff_lt, value_of_not_applicable (f := notApplicable) rfl, bot_lt_iff_ne_bot,
      Ne, value_eq_bot_iff]
    exact other

/-- Fractions are in the order of their exact values, and one that does not apply is below all others. For fractions of
sixty-four-bit numbers both products across fit into twice as many bits. -/
theorem compare_by_value :
    IsExactOrder compare same ∧ ∀ a b : Fraction, a.Obtainable → b.Obtainable →
      a.numerator * b.denominator < 2 ^ 128 ∧ b.numerator * a.denominator < 2 ^ 128 :=
  ⟨isExactOrder_compare, fun _ _ left right => ⟨product_lt left right, product_lt right left⟩⟩

/-- Two neighbours at the top of the range. -/
theorem compare_by_value_largest :
    (ofPos (2 ^ 64 - 3) (2 ^ 64 - 2) (by decide)).compare (ofPos (2 ^ 64 - 2) (2 ^ 64 - 1) (by decide)) = .lt ∧
      (2 ^ 64 - 2) * (2 ^ 64 - 2) < 2 ^ 128 ∧ (2 ^ 64 - 3) * (2 ^ 64 - 1) < 2 ^ 128 := by
  obtain ⟨order, fit⟩ := compare_by_value
  have left : (ofPos (2 ^ 64 - 3) (2 ^ 64 - 2) (by decide)).Obtainable :=
    .ofNats (show 2 ^ 64 - 3 < 2 ^ 64 by decide) (show 2 ^ 64 - 2 < 2 ^ 64 by decide) rfl
  have right : (ofPos (2 ^ 64 - 2) (2 ^ 64 - 1) (by decide)).Obtainable :=
    .ofNats (show 2 ^ 64 - 2 < 2 ^ 64 by decide) (show 2 ^ 64 - 1 < 2 ^ 64 by decide) rfl
  refine ⟨?_, (fit _ _ right left).1, (fit _ _ left right).1⟩
  rw [order.exact _ _ rfl rfl, compare_lt_iff_lt]
  norm_num [ofPos]

end Bleu.Fraction

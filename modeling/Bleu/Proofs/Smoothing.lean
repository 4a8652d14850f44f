import Bleu.Proofs.Double.Bounds
import Bleu.Proofs.SmoothingRule

/-!
# Substitutes

A substitute takes the place of a precision, which is at most one. Not all substitutes are: `Smoothing.Bounded` is the
condition on the parameter of a method and the hypothesis's length under which they are (`smooth_le_one`), and without
it the substitute in an order with a single window exceeds one (`smooth_unmatched_last`).
-/
namespace Bleu
open Double

theorem Fraction.toFloat_le_one {p : Fraction} (counted : 0 < p.denominator) (le : p.numerator ≤ p.denominator) :
    ¬ 1 < p.toFloat :=
  not_one_lt_div (ofNat_pos counted) (ofNat_le_ofNat le)

theorem Fraction.toFloat_pos {p : Fraction} (matched : 0 < p.numerator) (counted : 0 < p.denominator)
    (small : p.denominator ≤ 2 ^ 64) : 0 < p.toFloat :=
  ofNat_div_pos matched counted small

namespace Smoothing

/-! ## Bounded substitutes -/

theorem one_lt_of_one_lt_div {x y : Float} (large : 1 ≤ y) (exceeds : 1 < x / y) : 1 < x := by
  have undivided : 1 < x / 1 := one_lt_div_of_le (by decide) large exceeds
  obtain ⟨number, above⟩ := (one_lt_iff _).mp undivided
  have dividend := (numbers_of_div number).1
  exact (one_lt_iff x).mpr ⟨dividend, (value_div_one dividend).2 ▸ above⟩

theorem one_lt_div_one {x : Float} (large : 1 < x) : 1 < x / 1 := by
  obtain ⟨number, above⟩ := (one_lt_iff x).mp large
  obtain ⟨quotient, same⟩ := value_div_one number
  exact (one_lt_iff _).mpr ⟨quotient, same ▸ above⟩

theorem two_mul_le {x : Float} (large : 1 ≤ x) : 2 ≤ 2 * x := by
  have two : (2 : Float) * 1 = 2 := by decide
  have doubled : (2 : Float) * 1 ≤ 2 * x := Double.mul_le_mul (by decide) (by decide) (by decide) large
  rwa [two] at doubled

theorem one_le_powerOfTwo (z : Nat) : 1 ≤ powerOfTwo z := by
  induction z with
  | zero => decide
  | succ z ih => exact Double.le_trans (by decide) (two_mul_le ih)

theorem two_le_powerOfTwo {z : Nat} (positive : 0 < z) : 2 ≤ powerOfTwo z := by
  cases z with
  | zero => exact absurd positive (lt_irrefl 0)
  | succ z => exact two_mul_le (one_le_powerOfTwo z)

/-- A substitute that is at most one wherever it is used keeps all precisions so. -/
theorem substituteFrom_le_one {substitute : Nat → Float → Float}
    (bounded : ∀ z windows, 0 < z → 0 < windows → ¬ 1 < substitute z (Float.ofNat windows)) (unmatched : Nat)
    {precisions : List Fraction} (counted : ∀ p ∈ precisions, 0 < p.denominator)
    (le : ∀ p ∈ precisions, p.numerator ≤ p.denominator) :
    ∀ s ∈ substituteFrom substitute unmatched precisions, ¬ 1 < s := by
  induction precisions generalizing unmatched with
  | nil => simp [substituteFrom]
  | cons p rest ih =>
    have later := fun z => ih z (fun q member => counted q (by simp [member])) fun q member => le q (by simp [member])
    have first : 0 < p.denominator := counted p (by simp)
    by_cases zero : p.numerator = 0
    · rw [substituteFrom, if_pos zero, List.forall_mem_cons]
      exact ⟨bounded _ _ (Nat.succ_pos _) first, later _⟩
    · rw [substituteFrom, if_neg zero, List.forall_mem_cons]
      exact ⟨Fraction.toFloat_le_one first (le p (by simp)), later _⟩

/-- Matched orders keep their precisions, and count for none of the substitutes after them. -/
theorem substituteFrom_append (substitute : Nat → Float → Float) (unmatched : Nat) {precisions : List Fraction}
    (matched : ∀ p ∈ precisions, p.numerator ≠ 0) (others : List Fraction) :
    substituteFrom substitute unmatched (precisions ++ others) =
      precisions.map Fraction.toFloat ++ substituteFrom substitute unmatched others := by
  induction precisions with
  | nil => rfl
  | cons p rest ih =>
    have first : p.numerator ≠ 0 := matched p (by simp)
    rw [List.cons_append, substituteFrom, if_neg first, ih fun q member => matched q (by simp [member])]
    rfl

theorem substituteFrom_matched (substitute : Nat → Float → Float) (unmatched : Nat) {precisions : List Fraction}
    (matched : ∀ p ∈ precisions, p.numerator ≠ 0) :
    substituteFrom substitute unmatched precisions = precisions.map Fraction.toFloat := by
  simpa [substituteFrom] using substituteFrom_append substitute unmatched matched []

/-- After matched orders only, an unmatched one gets the first substitute. -/
theorem substituteFrom_unmatched_last (substitute : Nat → Float → Float) {precisions : List Fraction}
    (matched : ∀ p ∈ precisions, p.numerator ≠ 0) {last : Fraction} (zero : last.numerator = 0) :
    substituteFrom substitute 0 (precisions ++ [last]) =
      precisions.map Fraction.toFloat ++ [substitute 1 (Float.ofNat last.denominator)] := by
  simp [substituteFrom_append substitute 0 matched, substituteFrom, zero]

theorem map_toFloat_le_one {precisions : List Fraction} (counted : ∀ p ∈ precisions, 0 < p.denominator)
    (le : ∀ p ∈ precisions, p.numerator ≤ p.denominator) : ∀ s ∈ precisions.map Fraction.toFloat, ¬ 1 < s := by
  intro s member
  obtain ⟨p, listed, rfl⟩ := List.mem_map.mp member
  exact Fraction.toFloat_le_one (counted p listed) (le p listed)

theorem parameter_pos {x : Float} (parameter : isParameter x = true) : 0 < x := by
  simp only [isParameter, Bool.and_eq_true, decide_eq_true_eq] at parameter
  exact parameter.2

theorem plusOne_le_one {p : Fraction} (le : p.numerator ≤ p.denominator) (word : p.denominator + 1 < 2 ^ 64) :
    ¬ 1 < plusOne p := by
  rw [plusOne_of_addable ⟨by omega, word⟩]
  exact not_one_lt_div (ofNat_pos (Nat.succ_pos _)) (ofNat_le_ofNat (Nat.succ_le_succ le))

theorem halved_le_one (z : Nat) {windows : Nat} (positive : 0 < windows) :
    ¬ 1 < 1 / (powerOfTwo z * Float.ofNat windows) := by
  have one : (1 : Float) * 1 = 1 := by decide
  have large : (1 : Float) * 1 ≤ powerOfTwo z * Float.ofNat windows :=
    Double.mul_le_mul (by decide) (one_le_powerOfTwo z) (by decide) (one_le_ofNat positive)
  rw [one] at large
  exact not_one_lt_div (Double.lt_of_lt_of_le (by decide) large) large

/-- The first substitute in an order with a single window is the largest that a divisor gives. -/
theorem scaled_le_one {x k : Float} (parameter : 0 < k) (bounded : ¬ 1 < x / (2 * k)) {z windows : Nat} (succ : 0 < z)
    (positive : 0 < windows) : ¬ 1 < x / (powerOfTwo z * k) / Float.ofNat windows := by
  intro exceeds
  have same : k ≤ k := Double.le_refl ((pos_iff k).mp parameter).1
  have twice : 2 * k ≤ powerOfTwo z * k :=
    Double.mul_le_mul (by decide) (two_le_powerOfTwo succ) parameter same
  have scale : 0 < 2 * k := by
    have least : 1 * k ≤ 2 * k := Double.mul_le_mul (by decide) (by decide) parameter same
    rw [one_mul_of_pos parameter] at least
    exact Double.lt_of_lt_of_le parameter least
  exact bounded (one_lt_div_of_le scale twice (one_lt_of_one_lt_div (one_le_ofNat positive) exceeds))

variable [Elementary]

/-- Whether the substitutes of a method are at most one, for a hypothesis of a given length. -/
def Bounded (method : Smoothing) (length : Nat) : Prop :=
  match method with
  | epsilon value => ¬ 1 < value
  | lengthScaled k => 1 < length → ¬ 1 < Elementary.log (Float.ofNat length) / (2 * k)
  | _ => True

/-- A single matched order keeps its precision. -/
theorem smooth_single (method : Smoothing) {p : Fraction} (matched : p.numerator ≠ 0) (length : Nat) :
    method.smooth [p] length = [p.toFloat] := by
  cases method with
  | none => rfl
  | addOne => rfl
  | epsilon value => simp [smooth, substituteFrom, matched]
  | exponential => simp [smooth, substituteFrom, matched]
  | lengthScaled k => simp [smooth, substituteFrom, matched]

/-- Under that condition all smoothed precisions are at most one, as long as one window more than those above order one is
a word. -/
theorem smooth_le_one {method : Smoothing} {length : Nat} (valid : method.validate = .ok ())
    (bounded : method.Bounded length) {precisions : List Fraction} (counted : ∀ p ∈ precisions, 0 < p.denominator)
    (le : ∀ p ∈ precisions, p.numerator ≤ p.denominator)
    (words : ∀ p ∈ precisions.tail, p.denominator + 1 < 2 ^ 64) : ∀ s ∈ method.smooth precisions length, ¬ 1 < s := by
  cases method with
  | none => exact map_toFloat_le_one counted le
  | epsilon value =>
    refine substituteFrom_le_one (fun z windows _ positive exceeds => ?_) 0 counted le
    exact bounded (one_lt_of_one_lt_div (one_le_ofNat positive) exceeds)
  | addOne =>
    cases precisions with
    | nil => simp [smooth]
    | cons unigrams others =>
      rw [smooth, List.forall_mem_cons]
      refine ⟨Fraction.toFloat_le_one (counted _ (by simp)) (le _ (by simp)), fun s member => ?_⟩
      obtain ⟨p, listed, rfl⟩ := List.mem_map.mp member
      exact plusOne_le_one (le p (by simp [listed])) (words p listed)
  | exponential =>
    refine substituteFrom_le_one (fun z windows _ positive => ?_) 0 counted le
    exact halved_le_one z positive
  | lengthScaled k =>
    have parameter : 0 < k := by
      rw [validate] at valid
      split_ifs at valid with accepted
      exact parameter_pos accepted
    by_cases long : 1 < length
    · rw [smooth, if_pos long]
      refine substituteFrom_le_one (fun z windows reached positive => ?_) 0 counted le
      exact scaled_le_one parameter (bounded long) reached positive
    · rw [smooth, if_neg long]
      exact map_toFloat_le_one counted le

/-! ## Substitutes above one -/

/-- Without that condition, the substitute in a last order with a single window exceeds one. -/
theorem smooth_unmatched_last {method : Smoothing} {length : Nat} (long : 1 < length)
    (unbounded : ¬ method.Bounded length) {precisions : List Fraction} (matched : ∀ p ∈ precisions, p.numerator ≠ 0)
    {last : Fraction} (zero : last.numerator = 0) (single : last.denominator = 1) :
    ∃ s, 1 < s ∧ method.smooth (precisions ++ [last]) length = precisions.map Fraction.toFloat ++ [s] := by
  cases method with
  | none => exact absurd trivial unbounded
  | addOne => exact absurd trivial unbounded
  | exponential => exact absurd trivial unbounded
  | epsilon value =>
    refine ⟨value / 1, one_lt_div_one (not_not.mp unbounded), ?_⟩
    rw [smooth, substituteFrom_unmatched_last _ matched zero, single]
    rfl
  | lengthScaled k =>
    have two : powerOfTwo 1 = 2 := by decide
    have exceeds : 1 < Elementary.log (Float.ofNat length) / (2 * k) := by
      by_contra bounded
      exact unbounded fun _ => bounded
    refine ⟨Elementary.log (Float.ofNat length) / (2 * k) / 1, one_lt_div_one exceeds, ?_⟩
    rw [smooth, if_pos long, substituteFrom_unmatched_last _ matched zero, single, two]
    rfl

end Smoothing

end Bleu

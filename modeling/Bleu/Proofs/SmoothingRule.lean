import Bleu.Proofs.Double.Range
import Bleu.Smoothing

/-!
# The rule of each order

Two of the methods count the orders without a match on their way through the precisions. What they give an order depends
only on its precision and on the number of such orders up to it (`getElem?_substituteFrom`), so that every method has a
rule for each order by itself (`rule`). Smoothing applies this rule everywhere (`smooth_eq_mapIdx`), but for counts that
adding one turns over: where the rule adds one to the greatest word, smoothing goes on with zero (`smoothed_eq_rule_iff`).
The orders above do not matter (`smooth_take`).
-/
namespace Bleu

/-- Both counts of a fraction are words, and still are with one more. -/
def Fraction.Addable (p : Fraction) : Prop := p.numerator + 1 < 2 ^ 64 ∧ p.denominator + 1 < 2 ^ 64

instance (p : Fraction) : Decidable p.Addable := inferInstanceAs (Decidable (_ ∧ _))

namespace Smoothing
open Double

/-! ## Adding one -/

theorem nextCount_eq {count : Nat} (fits : count + 1 < 2 ^ 64) : nextCount count = count + 1 := Nat.mod_eq_of_lt fits

theorem plusOne_of_addable {p : Fraction} (addable : p.Addable) :
    plusOne p = Float.ofNat (p.numerator + 1) / Float.ofNat (p.denominator + 1) := by
  rw [plusOne, nextCount_eq addable.1, nextCount_eq addable.2]

/-- How many of the orders up to a place have no match. -/
def unmatchedUpTo (precisions : List Fraction) (i : Nat) : Nat :=
  (precisions.take (i + 1)).countP fun p => p.numerator = 0

theorem unmatchedUpTo_cons_zero (p : Fraction) (rest : List Fraction) :
    unmatchedUpTo (p :: rest) 0 = if p.numerator = 0 then 1 else 0 := by
  simp [unmatchedUpTo, List.countP_cons]

theorem unmatchedUpTo_cons_succ (p : Fraction) (rest : List Fraction) (i : Nat) :
    unmatchedUpTo (p :: rest) (i + 1) = (if p.numerator = 0 then 1 else 0) + unmatchedUpTo rest i := by
  simp [unmatchedUpTo, List.countP_cons, Nat.add_comm (List.countP _ _)]

/-- The orders above a place do not count. -/
theorem unmatchedUpTo_take (precisions : List Fraction) {i orders : Nat} (below : i < orders) :
    unmatchedUpTo (precisions.take orders) i = unmatchedUpTo precisions i := by
  rw [unmatchedUpTo, List.take_take, Nat.min_eq_left below]
  rfl

/-- In fewer than `2 ^ 31` precisions the unmatched ones are counted by a word of thirty-two bits with a sign. -/
theorem unmatchedUpTo_lt {precisions : List Fraction} (few : precisions.length < 2 ^ 31) (i : Nat) :
    unmatchedUpTo precisions i < 2 ^ 31 :=
  calc unmatchedUpTo precisions i ≤ (precisions.take (i + 1)).length := List.countP_le_length
    _ ≤ precisions.length := List.length_take_le' _ _
    _ < 2 ^ 31 := few

/-- A substitute's number is its place among the orders without a match. -/
theorem getElem?_substituteFrom (substitute : Nat → Float → Float) (unmatched : Nat) (precisions : List Fraction)
    (i : Nat) :
    (substituteFrom substitute unmatched precisions)[i]? = precisions[i]?.map fun p =>
      if p.numerator = 0 then substitute (unmatched + unmatchedUpTo precisions i) (Float.ofNat p.denominator)
      else p.toFloat := by
  induction precisions generalizing unmatched i with
  | nil => rfl
  | cons p rest ih =>
    by_cases zero : p.numerator = 0
    · rw [substituteFrom, if_pos zero]
      cases i with
      | zero => simp [unmatchedUpTo_cons_zero, zero]
      | succ i => simp [unmatchedUpTo_cons_succ, zero, ih, Nat.add_assoc]
    · rw [substituteFrom, if_neg zero]
      cases i with
      | zero => simp [zero]
      | succ i => simp [unmatchedUpTo_cons_succ, zero, ih]

/-- The same for all precisions, before which no order has gone. -/
theorem getElem?_substituteFrom_zero (substitute : Nat → Float → Float) (precisions : List Fraction) (i : Nat) :
    (substituteFrom substitute 0 precisions)[i]? = precisions[i]?.map fun p =>
      if p.numerator = 0 then substitute (unmatchedUpTo precisions i) (Float.ofNat p.denominator) else p.toFloat := by
  rw [getElem?_substituteFrom, Nat.zero_add]

/-! ## The rule -/

section
variable [Elementary]

/-- What a method gives the precision at a place, counted from zero, among the precisions of a hypothesis of a given
length. -/
def rule (method : Smoothing) (length : Nat) (precisions : List Fraction) (i : Nat) (p : Fraction) : Float :=
  let n := Float.ofNat p.numerator
  let d := Float.ofNat p.denominator
  let z := unmatchedUpTo precisions i
  match method with
  | none => n / d
  | epsilon value => if p.numerator = 0 then value / d else n / d
  | addOne => if i = 0 then n / d else Float.ofNat (p.numerator + 1) / Float.ofNat (p.denominator + 1)
  | exponential => if p.numerator = 0 then 1 / (powerOfTwo z * d) else n / d
  | lengthScaled k =>
    if p.numerator = 0 ∧ 1 < length then Elementary.log (Float.ofNat length) / (powerOfTwo z * k) / d else n / d

/-- What smoothing makes of the precision at a place: what the rule says, if adding one turns no count over. -/
def smoothed (method : Smoothing) (length : Nat) (precisions : List Fraction) (i : Nat) (p : Fraction) : Float :=
  if method = addOne ∧ i ≠ 0 then plusOne p else method.rule length precisions i p

theorem smoothed_eq_rule {method : Smoothing} (length : Nat) (precisions : List Fraction) {i : Nat} {p : Fraction}
    (addable : method = addOne → i ≠ 0 → p.Addable) :
    method.smoothed length precisions i p = method.rule length precisions i p := by
  unfold smoothed
  split_ifs with above
  · obtain ⟨rfl, later⟩ := above
    rw [plusOne_of_addable (addable rfl later), rule, if_neg later]
  · rfl

theorem getElem?_smooth (method : Smoothing) (precisions : List Fraction) (length i : Nat) :
    (method.smooth precisions length)[i]? = precisions[i]?.map (method.smoothed length precisions i) := by
  cases method with
  | none => exact List.getElem?_map
  | epsilon value => exact getElem?_substituteFrom_zero _ precisions i
  | addOne =>
    cases precisions with
    | nil => rfl
    | cons unigrams others =>
      cases i with
      | zero => rfl
      | succ i =>
        rw [smooth, List.getElem?_cons_succ, List.getElem?_cons_succ, List.getElem?_map]
        refine congrArg (others[i]?.map ·) (funext fun p => ?_)
        simp [smoothed]
  | exponential => exact getElem?_substituteFrom_zero _ precisions i
  | lengthScaled k =>
    by_cases long : 1 < length
    · rw [smooth, if_pos long, getElem?_substituteFrom_zero]
      refine congrArg (precisions[i]?.map ·) (funext fun p => ?_)
      simp [smoothed, rule, long, Fraction.toFloat]
    · rw [smooth, if_neg long, List.getElem?_map]
      refine congrArg (precisions[i]?.map ·) (funext fun p => ?_)
      simp [smoothed, rule, long, Fraction.toFloat]

/-- Smoothing goes order by order. -/
theorem smooth_eq_mapIdx (method : Smoothing) (precisions : List Fraction) (length : Nat) :
    method.smooth precisions length = precisions.mapIdx (method.smoothed length precisions) := by
  refine List.ext_getElem? fun i => ?_
  rw [getElem?_smooth, List.getElem?_mapIdx]

theorem length_smooth (method : Smoothing) (precisions : List Fraction) (length : Nat) :
    (method.smooth precisions length).length = precisions.length := by
  rw [smooth_eq_mapIdx, List.length_mapIdx]

theorem smoothed_take (method : Smoothing) (length : Nat) (precisions : List Fraction) {i orders : Nat}
    (below : i < orders) : method.smoothed length (precisions.take orders) i = method.smoothed length precisions i := by
  funext p
  unfold smoothed rule
  rw [unmatchedUpTo_take precisions below]

/-- What is smoothed in an order does not depend on the orders above. -/
theorem smooth_take (method : Smoothing) (precisions : List Fraction) (orders length : Nat) :
    method.smooth (precisions.take orders) length = (method.smooth precisions length).take orders := by
  refine List.ext_getElem? fun i => ?_
  rw [getElem?_smooth, List.getElem?_take, List.getElem?_take, getElem?_smooth]
  by_cases below : i < orders
  · rw [if_pos below, if_pos below, smoothed_take method length precisions below]
  · rw [if_neg below, if_neg below]
    rfl

end

end Smoothing

end Bleu

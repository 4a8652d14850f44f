import Bleu.Corpus.Reduction
import Bleu.Proofs.Fractions
import Bleu.Proofs.Invariant
import Mathlib.Data.Option.Basic

/-!
# Precisions of sums

When statistics are added up, the precisions of an order are added above and below the line (`Fraction.mediant`,
`Statistics.Regular.getD_precisions_combine`). The precision of the sum therefore lies between those of the parts, and
is the one that is there if only one part reaches the order (`Blends`). Copies of the same statistics have the same
precisions as one of them, however many they are and in whatever grouping they are added up
(`Statistics.precisions_of_sums`).
-/
namespace Bleu

namespace Fraction

/-- The fraction of matches among the n-grams of two groups together. -/
def mediant (p q : Fraction) : Fraction where
  numerator := p.numerator + q.numerator
  denominator := p.denominator + q.denominator
  numerator_eq_zero := by
    have left := p.numerator_eq_zero
    have right := q.numerator_eq_zero
    omega

@[simp] theorem numerator_mediant (p q : Fraction) : (mediant p q).numerator = p.numerator + q.numerator := rfl

@[simp] theorem denominator_mediant (p q : Fraction) : (mediant p q).denominator = p.denominator + q.denominator := rfl

theorem ext_parts {p q : Fraction} (numerators : p.numerator = q.numerator)
    (denominators : p.denominator = q.denominator) : p = q := by
  cases p
  cases q
  cases numerators
  cases denominators
  rfl

theorem mediant_comm (p q : Fraction) : mediant p q = mediant q p :=
  ext_parts (Nat.add_comm _ _) (Nat.add_comm _ _)

theorem mediant_notApplicable (p : Fraction) : mediant p notApplicable = p :=
  ext_parts (Nat.add_zero _) (Nat.add_zero _)

theorem isApplicable_mediant (p q : Fraction) : (mediant p q).isApplicable = (p.isApplicable || q.isApplicable) := by
  rw [Bool.eq_iff_iff, Bool.or_eq_true, isApplicable_iff, isApplicable_iff, isApplicable_iff]
  exact Nat.add_pos_iff_pos_or_pos

theorem compare_ne_gt_iff_products {p q : Fraction} (left : p.isApplicable = true) (right : q.isApplicable = true) :
    p.compare q ≠ .gt ↔ p.numerator * q.denominator ≤ q.numerator * p.denominator := by
  simp only [compare, left, right]
  rw [Ne, compare_gt_iff_gt, not_lt]

/-- The mediant lies between a fraction and one that is not below it. -/
theorem mediant_between {p q : Fraction} (left : p.isApplicable = true) (right : q.isApplicable = true)
    (le : p.compare q ≠ .gt) : p.compare (mediant p q) ≠ .gt ∧ (mediant p q).compare q ≠ .gt := by
  have applies : (mediant p q).isApplicable = true := by rw [isApplicable_mediant, left, Bool.true_or]
  rw [compare_ne_gt_iff_products left right] at le
  rw [compare_ne_gt_iff_products left applies, compare_ne_gt_iff_products applies right, numerator_mediant,
    denominator_mediant]
  constructor
  · rw [Nat.mul_add, Nat.add_mul]
    exact Nat.add_le_add_left le _
  · rw [Nat.mul_add, Nat.add_mul]
    exact Nat.add_le_add_right le _

theorem min_max_mediant {p q : Fraction} (left : p.isApplicable = true) (right : q.isApplicable = true) :
    (min p q).compare (mediant p q) ≠ .gt ∧ (mediant p q).compare (max p q) ≠ .gt := by
  rw [min, max]
  by_cases above : p.compare q = .gt
  · have below : q.compare p ≠ .gt := by
      rw [compare_swap, above]
      decide
    rw [if_pos above, if_pos above, mediant_comm]
    exact mediant_between right left below
  · rw [if_neg above, if_neg above]
    exact mediant_between left right above

/-- Equal fractions have a mediant that is equal to both. -/
theorem mediant_same {p q : Fraction} (left : p.isApplicable = true) (right : q.isApplicable = true)
    (equal : p.same q = true) : (mediant p q).same p = true ∧ (mediant p q).same q = true := by
  rw [same_iff, compare_eq_iff] at equal ⊢
  rw [same_iff, compare_eq_iff]
  obtain ⟨above, below⟩ := mediant_between left right (compare_ne_gt_iff.mpr equal.le)
  rw [compare_ne_gt_iff] at above below
  exact ⟨le_antisymm (below.trans_eq equal.symm) above, le_antisymm below (equal.symm.trans_le above)⟩

/-- A fraction whose parts are multiplied by a positive number stays the same. -/
theorem same_guard_of_scaled {p c : Fraction} {k : Nat} (positive : 0 < k) (numerators : c.numerator = k * p.numerator)
    (denominators : c.denominator = k * p.denominator) :
    Option.Rel (fun c p => same c p = true) (Option.guard isApplicable c) (Option.guard isApplicable p) := by
  have applies : c.isApplicable = p.isApplicable := by
    rw [Bool.eq_iff_iff, isApplicable_iff, isApplicable_iff, denominators]
    exact Nat.mul_pos_iff_of_pos_left positive
  cases scaled : p.isApplicable with
  | false => simp [Option.guard, applies, scaled]
  | true =>
    have equal : c.same p = true := by
      rw [same_iff]
      simp only [compare, applies, scaled]
      rw [compare_eq_iff_eq, numerators, denominators, Nat.mul_assoc, Nat.mul_left_comm]
    simpa [Option.guard, applies, scaled] using Option.Rel.some equal

end Fraction

/-! ## Two parts -/

/-- How the precisions of an order are related in two statistics and in their sum. -/
inductive Blends : Option Fraction → Option Fraction → Option Fraction → Prop
  | both {p q c : Fraction} (lower : (p.min q).compare c ≠ .gt) (upper : c.compare (p.max q) ≠ .gt)
      (equal : p.same q = true → c.same p = true ∧ c.same q = true) : Blends (some p) (some q) (some c)
  | left (p : Fraction) : Blends (some p) none (some p)
  | right (q : Fraction) : Blends none (some q) (some q)
  | neither : Blends none none none

open Fraction in
theorem blends_mediant (p q : Fraction) :
    Blends (Option.guard isApplicable p) (Option.guard isApplicable q) (Option.guard isApplicable (mediant p q)) := by
  cases left : p.isApplicable with
  | false =>
    cases eq_notApplicable_iff.mpr left
    rw [mediant_comm, mediant_notApplicable]
    cases right : q.isApplicable with
    | false => simpa [Option.guard, left, right] using Blends.neither
    | true => simpa [Option.guard, left, right] using Blends.right q
  | true =>
    cases right : q.isApplicable with
    | false =>
      cases eq_notApplicable_iff.mpr right
      rw [mediant_notApplicable]
      simpa [Option.guard, left, right] using Blends.left p
    | true =>
      obtain ⟨lower, upper⟩ := min_max_mediant left right
      have both := Blends.both lower upper (mediant_same left right)
      simpa [Option.guard, left, right, isApplicable_mediant] using both

namespace Statistics

/-- The precisions of regular statistics, padded with orders that do not apply, are the quotients of their counts. -/
theorem Regular.getD_precisions {s : Statistics} (regular : s.Regular) (i : Nat) :
    (s.precisions.getD i .notApplicable).numerator = s.matched.getD i 0 ∧
      (s.precisions.getD i .notApplicable).denominator = s.totals.getD i 0 := by
  obtain ⟨_, matched, totals⟩ := regular.quotients_eq
  rw [← matched, ← totals]
  exact ⟨(List.getD_map ..).symm, (List.getD_map ..).symm⟩

theorem Regular.getElem?_precisions {s : Statistics} (regular : s.Regular) (i : Nat) :
    s.precisions[i]? = Option.guard Fraction.isApplicable (s.precisions.getD i .notApplicable) := by
  cases listed : s.precisions[i]? with
  | none => simp [List.getD_eq_getElem?_getD, listed, Option.guard, Fraction.isApplicable, Fraction.notApplicable]
  | some p =>
    have applies := (regular.of_mem_precisions (List.mem_of_getElem? listed)).1
    simp [List.getD_eq_getElem?_getD, listed, Option.guard, Fraction.isApplicable, applies]

/-- Order by order the precision of a sum is the mediant of the parts' precisions. -/
theorem Regular.getD_precisions_combine {a b : Statistics} (left : a.Regular) (right : b.Regular) (i : Nat) :
    (a.combine b).precisions.getD i .notApplicable =
      (a.precisions.getD i .notApplicable).mediant (b.precisions.getD i .notApplicable) := by
  have counts := getD_combine left.paired right.paired i
  have whole := (regular_combine left right).getD_precisions i
  have first := left.getD_precisions i
  have second := right.getD_precisions i
  refine Fraction.ext_parts ?_ ?_
  · rw [whole.1, counts.1, Fraction.numerator_mediant, first.1, second.1]
  · rw [whole.2, counts.2, Fraction.denominator_mediant, first.2, second.2]

theorem Regular.blends {a b : Statistics} (left : a.Regular) (right : b.Regular) (i : Nat) :
    Blends a.precisions[i]? b.precisions[i]? (a.combine b).precisions[i]? := by
  rw [left.getElem?_precisions, right.getElem?_precisions, (regular_combine left right).getElem?_precisions,
    left.getD_precisions_combine right]
  exact blends_mediant _ _

/-! ## Copies -/

/-- Copies have as many times the counts of one as they are. -/
theorem exists_run_copies {s : Statistics} (regular : s.Regular) (copies : Reduction Unit) :
    ∃ t, copies.run (fun _ => .ok s) = .ok t ∧ t.Regular ∧
      ∀ i, t.matched.getD i 0 = copies.leaves.length * s.matched.getD i 0 ∧
        t.totals.getD i 0 = copies.leaves.length * s.totals.getD i 0 := by
  induction copies with
  | identity => exact ⟨.identity, rfl, regular_identity, fun i => by simp [identity, Reduction.leaves]⟩
  | leaf pair => exact ⟨s, rfl, regular, fun i => by simp [Reduction.leaves]⟩
  | node first second ihFirst ihSecond =>
    obtain ⟨a, left, regularA, countsA⟩ := ihFirst
    obtain ⟨b, right, regularB, countsB⟩ := ihSecond
    refine ⟨a.combine b, by rw [Reduction.run, left, right]; rfl, regular_combine regularA regularB, fun i => ?_⟩
    obtain ⟨matched, totals⟩ := getD_combine regularA.paired regularB.paired i
    rw [matched, totals, (countsA i).1, (countsA i).2, (countsB i).1, (countsB i).2, Reduction.leaves,
      List.length_append, Nat.add_mul, Nat.add_mul]
    exact ⟨rfl, rfl⟩

/-- Statistics with a multiple of the counts have the same precisions, as fractions. -/
theorem Regular.same_precisions {s t : Statistics} (regular : s.Regular) (other : t.Regular) {k : Nat} (positive : 0 < k)
    (counts : ∀ i, t.matched.getD i 0 = k * s.matched.getD i 0 ∧ t.totals.getD i 0 = k * s.totals.getD i 0) (i : Nat) :
    Option.Rel (fun c p => Fraction.same c p = true) t.precisions[i]? s.precisions[i]? := by
  rw [regular.getElem?_precisions, other.getElem?_precisions]
  refine Fraction.same_guard_of_scaled positive ?_ ?_
  · rw [(regular.getD_precisions i).1, (other.getD_precisions i).1, (counts i).1]
  · rw [(regular.getD_precisions i).2, (other.getD_precisions i).2, (counts i).2]

/-- In a sum the precision of every order lies between those of the parts and equals them if they are equal, and it is
that of the part which reaches the order if only one does. Copies come to the same precisions as one of them, in any
number and any grouping. -/
theorem precisions_of_sums {a b : Statistics} (left : a.Reachable) (right : b.Reachable) :
    ∃ ps qs cs : List Fraction, a.quotients = .ok ps ∧ b.quotients = .ok qs ∧ (a.combine b).quotients = .ok cs ∧
      (∀ i : Nat, Blends ps[i]? qs[i]? cs[i]?) ∧
      ∀ copies : Reduction Unit, copies.leaves ≠ [] → ∃ (t : Statistics) (ts : List Fraction),
        copies.run (fun _ => .ok a) = .ok t ∧ t.quotients = .ok ts ∧
          ∀ i : Nat, Option.Rel (fun c p => Fraction.same c p = true) ts[i]? ps[i]? := by
  have first := left.regular
  have second := right.regular
  refine ⟨a.precisions, b.precisions, (a.combine b).precisions, first.quotients_eq.1, second.quotients_eq.1,
    (regular_combine first second).quotients_eq.1, first.blends second, fun copies given => ?_⟩
  obtain ⟨t, summed, regular, counts⟩ := exists_run_copies first copies
  exact ⟨t, t.precisions, summed, regular.quotients_eq.1,
    first.same_precisions regular (List.length_pos_iff.mpr given) counts⟩

/-- A pair of one order and a pair of three, and three copies of the second in an uneven grouping. -/
theorem precisions_of_sums_two_pairs :
    Blends (some ⟨2, 3, by decide⟩) (some ⟨2, 2, by decide⟩) (some ⟨4, 5, by decide⟩) ∧
      Blends (some ⟨0, 2, by decide⟩) none (some ⟨0, 2, by decide⟩) ∧
      Fraction.same ⟨6, 9, by decide⟩ ⟨2, 3, by decide⟩ = true := by
  have first : ofPair [["c", "b", "a"]] ["a", "b", "d"] 4 = .ok ⟨[2, 0, 0], [3, 2, 1], 3, 3, 1⟩ := rfl
  have second : ofPair [["a", "b", "c"]] ["a", "b"] 1 = .ok ⟨[2], [2], 2, 3, 1⟩ := rfl
  obtain ⟨_, _, _, ⟨⟩, ⟨⟩, ⟨⟩, blends, copies⟩ := precisions_of_sums
    (.ofPair (by simp) (by decide) first) (.ofPair (by simp) (by decide) second)
  obtain ⟨_, _, ⟨⟩, ⟨⟩, same⟩ := copies (.node (.leaf ()) (.node (.leaf ()) (.leaf ()))) (by decide)
  cases same 0 with
  | some equal => exact ⟨blends 0, blends 1, equal⟩

end Statistics

end Bleu

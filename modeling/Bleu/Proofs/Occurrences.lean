import Bleu.Proofs.Matches
import Mathlib.Algebra.BigOperators.Group.Finset.Piecewise
import Mathlib.Order.Lattice.Nat

/-!
# Occurrences of n-grams

An n-gram occurs at a position of a sequence if the sequence goes on with it there. The windows that are listed for an
order are what occurs, each as often as it has positions (`count_windows`). So a modified precision can be told from
positions alone, without windows or counting tables: `modifiedPrecision_clipped` gives its numerator and denominator for
every order, and the orders that are reported.
-/
namespace Bleu.Ngram
variable {α : Type} [DecidableEq α]

/-! ## Positions -/

/-- The positions of a sequence at which an n-gram starts. -/
def positions (g xs : List α) : Finset ℕ := (Finset.range xs.length).filter fun i => g <+: xs.drop i

/-- How often an n-gram occurs in a sequence, overlaps included. -/
def occurrences (g xs : List α) : ℕ := (positions g xs).card

/-- The different segments of `n` tokens. -/
def segments (n : ℕ) (xs : List α) : Finset (List α) :=
  (Finset.range (xs.length + 1 - n)).image fun i => (xs.drop i).take n

theorem occurrences_cons (g : List α) (x : α) (rest : List α) :
    occurrences g (x :: rest) = occurrences g rest + if g <+: x :: rest then 1 else 0 := by
  simp only [occurrences, positions, Finset.card_filter, List.length_cons, Finset.sum_range_succ', List.drop_succ_cons,
    List.drop_zero]

/-- Nothing occurs in a sequence that is shorter. -/
theorem occurrences_eq_zero {g xs : List α} (short : xs.length < g.length) : occurrences g xs = 0 := by
  rw [occurrences, Finset.card_eq_zero, positions, Finset.filter_eq_empty_iff]
  intro i _ starts
  have fits := starts.length_le
  rw [List.length_drop] at fits
  omega

/-- An n-gram is listed among the windows once for every position. -/
theorem count_windows {n : ℕ} {g : List α} (length : g.length = n) (xs : List α) :
    (windows n xs).count g = occurrences g xs := by
  induction xs with
  | nil => rfl
  | cons x rest ih =>
    by_cases fits : n ≤ rest.length + 1
    · have first : (x :: rest).take n = g ↔ g <+: x :: rest := by
        rw [List.prefix_iff_eq_take, length, eq_comm]
      rw [windows, if_pos fits, List.count_cons, ih, occurrences_cons]
      simp only [beq_iff_eq, first]
    · rw [windows, if_neg fits, List.count_nil, occurrences_eq_zero]
      rw [List.length_cons]
      omega

/-- The windows are the segments. -/
theorem toFinset_windows {n : ℕ} (positive : 0 < n) (xs : List α) : (windows n xs).toFinset = segments n xs := by
  ext g
  simp only [List.mem_toFinset, mem_windows positive, segments, Finset.mem_image, Finset.mem_range]
  constructor
  · rintro ⟨length, before, after, rfl⟩
    refine ⟨before.length, ?_, ?_⟩
    · simp only [List.length_append]
      omega
    · rw [List.append_assoc, List.drop_left, ← length, List.take_left]
  · rintro ⟨i, reached, rfl⟩
    refine ⟨?_, (List.take_prefix _ _).isInfix.trans (List.drop_suffix i xs).isInfix⟩
    rw [List.length_take, List.length_drop]
    omega

/-- The most occurrences in one of the references. -/
theorem greatestCount_eq_sup {n : ℕ} {g : List α} (length : g.length = n) (references : List (List α)) :
    greatestCount references n g = references.toFinset.sup (occurrences g) := by
  apply eq_of_forall_ge_iff
  intro bound
  simp only [greatestCount_le_iff, Finset.sup_le_iff, List.mem_toFinset, count_windows length]

/-- The matches of an order, added up over segments instead of listed windows. -/
theorem matchCount_eq_sum_segments {n : ℕ} (positive : 0 < n) (references : List (List α)) (hypothesis : List α) :
    matchCount references hypothesis n = ∑ g ∈ segments n hypothesis,
      min (occurrences g hypothesis) (references.toFinset.sup (occurrences g)) := by
  rw [matchCount, toFinset_windows positive]
  refine Finset.sum_congr rfl fun g member => ?_
  rw [← toFinset_windows positive, List.mem_toFinset, mem_windows positive] at member
  rw [count_windows member.1, greatestCount_eq_sup member.1]

end Bleu.Ngram

namespace Bleu
open Ngram
variable {α : Type} [DecidableEq α]

/-! ## Precisions from positions -/

/-- The fraction of the positions of an order that match: every different segment of the hypothesis counts as often as
it occurs, but no more often than in the one reference that has most of it. -/
structure IsClipped (references : List (List α)) (hypothesis : List α) (n : ℕ) (p : Fraction) : Prop where
  denominator : p.denominator = hypothesis.length - n + 1
  numerator : p.numerator = ∑ g ∈ segments n hypothesis,
    min (occurrences g hypothesis) (references.toFinset.sup (occurrences g))
  le : p.numerator ≤ p.denominator

theorem isClipped_reachedPrecision {n : ℕ} (positive : 0 < n) (references : List (List α)) {hypothesis : List α}
    (fits : n ≤ hypothesis.length) : IsClipped references hypothesis n (reachedPrecision references hypothesis n) where
  denominator := rfl
  numerator := matchCount_eq_sum_segments positive references hypothesis
  le := (matchCount_le positive references hypothesis).trans_eq (windowCount_eq positive fits)

theorem modifiedPrecision_notApplicable {n : ℕ} (positive : 0 < n) {references : List (List α)} (given : references ≠ [])
    {hypothesis : List α} (short : hypothesis.length < n) :
    modifiedPrecision references hypothesis n = .ok .notApplicable := by
  have order : n ≠ 0 := by omega
  have windowless : ¬ 0 < windowCount hypothesis.length n := by simp [windowCount, short]
  simp only [modifiedPrecision, order, if_false, List.isEmpty_iff, given, dif_neg windowless]
  rfl

/-- Against given references, an order beyond the hypothesis does not apply, and any other has the precision that its
positions give. The precisions up to a highest order are those of the orders that the hypothesis reaches. -/
theorem modifiedPrecision_clipped {references : List (List α)} (given : references ≠ []) (hypothesis : List α) :
    (∀ n : ℕ, 0 < n → hypothesis.length < n →
      modifiedPrecision references hypothesis n = .ok .notApplicable) ∧
    (∀ n : ℕ, 0 < n → n ≤ hypothesis.length →
      ∃ p, modifiedPrecision references hypothesis n = .ok p ∧ IsClipped references hypothesis n p) ∧
    ∀ maxOrder : ℕ, 0 < maxOrder → ∃ ps, modifiedPrecisions references hypothesis maxOrder = .ok ps ∧
      ps.length = min maxOrder hypothesis.length ∧
      ∀ (i : ℕ) (p : Fraction), ps[i]? = some p →
        modifiedPrecision references hypothesis (i + 1) = .ok p ∧ IsClipped references hypothesis (i + 1) p := by
  refine ⟨fun n positive short => ?_, fun n positive fits => ?_, fun maxOrder positive => ?_⟩
  · exact modifiedPrecision_notApplicable positive given short
  · exact ⟨_, modifiedPrecision_eq positive given fits, isClipped_reachedPrecision positive references fits⟩
  · refine ⟨_, modifiedPrecisions_eq positive given hypothesis, by simp, fun i p listed => ?_⟩
    rw [List.getElem?_map, Option.map_eq_some_iff] at listed
    obtain ⟨_, ranged, rfl⟩ := listed
    obtain ⟨reached, rfl⟩ := List.getElem?_eq_some_iff.mp ranged
    rw [List.length_range] at reached
    rw [List.getElem_range]
    have order : 0 < i + 1 := Nat.succ_pos i
    have fits : i + 1 ≤ hypothesis.length := by omega
    exact ⟨modifiedPrecision_eq order given fits, isClipped_reachedPrecision order references fits⟩

/-- A token three times, against references that have it once and twice. -/
theorem modifiedPrecision_repeated_token :
    [["a", "b"], ["b", "a", "b"]] ≠ [] ∧
      modifiedPrecision [["a", "b"], ["b", "a", "b"]] ["b", "b", "b"] 4 = .ok .notApplicable ∧
      (∃ p, modifiedPrecision [["a", "b"], ["b", "a", "b"]] ["b", "b", "b"] 1 = .ok p ∧
        p.numerator = 2 ∧ p.denominator = 3) ∧
      ∃ ps, modifiedPrecisions [["a", "b"], ["b", "a", "b"]] ["b", "b", "b"] 9 = .ok ps ∧ ps.length = 3 := by
  have given : [["a", "b"], ["b", "a", "b"]] ≠ [] := by simp
  obtain ⟨beyond, reached, listed⟩ := modifiedPrecision_clipped given ["b", "b", "b"]
  obtain ⟨p, found, clipped⟩ := reached 1 (by decide) (by decide)
  obtain ⟨ps, all, length, _⟩ := listed 9 (by decide)
  have matched : ∑ g ∈ segments 1 ["b", "b", "b"], min (occurrences g ["b", "b", "b"])
      ([["a", "b"], ["b", "a", "b"]].toFinset.sup (occurrences g)) = 2 := by decide
  exact ⟨given, beyond 4 (by decide) (by decide), ⟨p, found, clipped.numerator.trans matched, clipped.denominator⟩,
    ps, all, length⟩

end Bleu

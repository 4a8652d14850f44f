import Bleu.Proofs.Matches
import Mathlib.Data.Multiset.MapFold
import Mathlib.Data.Multiset.UnionInter

/-!
# Matches of a single reference

Against one reference, the matches of an order are the windows that hypothesis and reference share, both taken with
their repetitions (`matchCount_single`). So the two can trade places, and matches do not grow with the order, since
shared windows are still shared without their last tokens (`modifiedPrecision_single`). Several references can each
match longer windows with tokens that none of them repeats, and then matches do grow.
-/
namespace Bleu.Ngram
variable {α : Type}

/-- Without their last tokens, the windows of an order are windows of the order below. -/
theorem map_take_windows_sublist (n : Nat) (xs : List α) :
    ((windows (n + 1) xs).map (List.take n)).Sublist (windows n xs) := by
  induction xs with
  | nil => exact List.Sublist.refl _
  | cons x rest ih =>
    by_cases fits : n + 1 ≤ rest.length + 1
    · have below : n ≤ rest.length + 1 := by omega
      rw [windows, if_pos fits, windows, if_pos below, List.map_cons, List.take_take, Nat.min_eq_left (Nat.le_succ n)]
      exact ih.cons_cons _
    · rw [windows, if_neg fits]
      exact List.nil_sublist _

variable [DecidableEq α]

/-- The windows of an order that two sequences share, each as often as both have it. -/
def sharedWindows (n : Nat) (xs ys : List α) : Multiset (List α) := (windows n xs : Multiset (List α)) ∩ windows n ys

theorem sharedWindows_comm (n : Nat) (xs ys : List α) : sharedWindows n xs ys = sharedWindows n ys xs :=
  Multiset.inter_comm _ _

theorem map_take_sharedWindows_le (n : Nat) (xs ys : List α) :
    (sharedWindows (n + 1) xs ys).map (List.take n) ≤ sharedWindows n xs ys := by
  refine Multiset.le_inter ?_ ?_
  · calc (sharedWindows (n + 1) xs ys).map (List.take n)
      _ ≤ (windows (n + 1) xs : Multiset (List α)).map (List.take n) := Multiset.map_le_map Multiset.inter_le_left
      _ ≤ windows n xs := (map_take_windows_sublist n xs).subperm
  · calc (sharedWindows (n + 1) xs ys).map (List.take n)
      _ ≤ (windows (n + 1) ys : Multiset (List α)).map (List.take n) := Multiset.map_le_map Multiset.inter_le_right
      _ ≤ windows n ys := (map_take_windows_sublist n ys).subperm

/-- Against a single reference, what matches is what is shared. -/
theorem matchCount_single (reference hypothesis : List α) (n : Nat) :
    matchCount [reference] hypothesis n = (sharedWindows n hypothesis reference).card := by
  have counted : ∀ g, min ((windows n hypothesis).count g) (greatestCount [reference] n g) =
      (sharedWindows n hypothesis reference).count g := by
    intro g
    -- Lists of tokens are compared by their own test here, multisets by the decision of equality.
    have listed : ∀ gs : List (List α), (gs : Multiset (List α)).count g = gs.count g := by
      intro gs
      rw [Multiset.coe_count, lawful_beq_subsingleton instBEqOfDecidableEq List.instBEq]
    rw [sharedWindows, Multiset.count_inter, listed, listed]
    simp [greatestCount]
  have listed : ∀ g ∈ sharedWindows n hypothesis reference, g ∈ (windows n hypothesis).toFinset := by
    intro g shared
    rw [List.mem_toFinset]
    exact Multiset.mem_coe.mp (Multiset.mem_of_le Multiset.inter_le_left shared)
  rw [matchCount, ← Multiset.sum_count_eq_card listed]
  exact Finset.sum_congr rfl fun g _ => counted g

theorem matchCount_single_comm (xs ys : List α) (n : Nat) : matchCount [xs] ys n = matchCount [ys] xs n := by
  rw [matchCount_single, matchCount_single, sharedWindows_comm]

/-- Against a single reference, an order matches no more than the one below it. -/
theorem matchCount_single_succ_le (reference hypothesis : List α) (n : Nat) :
    matchCount [reference] hypothesis (n + 1) ≤ matchCount [reference] hypothesis n := by
  rw [matchCount_single, matchCount_single, ← Multiset.card_map (List.take n)]
  exact Multiset.card_le_card (map_take_sharedWindows_le n hypothesis reference)

end Bleu.Ngram

namespace Bleu
open Ngram
variable {α : Type} [DecidableEq α]

/-- A hypothesis and a single reference that both reach an order have the same matches when they trade places, and
against a single reference the matches of a hypothesis do not grow from an order to the next one that it reaches. -/
theorem modifiedPrecision_single (hypothesis reference : List α) {n : Nat} (positive : 0 < n) :
    (n ≤ hypothesis.length → n ≤ reference.length →
      ∃ p q, modifiedPrecision [reference] hypothesis n = .ok p ∧ modifiedPrecision [hypothesis] reference n = .ok q ∧
        p.numerator = q.numerator) ∧
    (n + 1 ≤ hypothesis.length →
      ∃ p q, modifiedPrecision [reference] hypothesis n = .ok p ∧
        modifiedPrecision [reference] hypothesis (n + 1) = .ok q ∧ q.numerator ≤ p.numerator) := by
  have given : ∀ xs : List α, [xs] ≠ [] := fun xs => List.cons_ne_nil xs []
  constructor
  · intro fits reached
    exact ⟨_, _, modifiedPrecision_eq positive (given reference) fits,
      modifiedPrecision_eq positive (given hypothesis) reached, matchCount_single_comm reference hypothesis n⟩
  · intro fits
    exact ⟨_, _, modifiedPrecision_eq positive (given reference) (by omega),
      modifiedPrecision_eq (Nat.succ_pos n) (given reference) fits, matchCount_single_succ_le reference hypothesis n⟩

/-- Repeated windows on both sides. -/
theorem modifiedPrecision_single_repeated :
    (∃ p q, modifiedPrecision [["a", "b", "a", "b"]] ["b", "a", "b", "a", "b"] 2 = .ok p ∧
      modifiedPrecision [["b", "a", "b", "a", "b"]] ["a", "b", "a", "b"] 2 = .ok q ∧ p.numerator = q.numerator) ∧
    ∃ p q, modifiedPrecision [["a", "b", "a", "b"]] ["b", "a", "b", "a", "b"] 2 = .ok p ∧ p.numerator = 3 ∧
      modifiedPrecision [["a", "b", "a", "b"]] ["b", "a", "b", "a", "b"] 3 = .ok q ∧ q.numerator ≤ 3 := by
  obtain ⟨traded, grown⟩ :=
    modifiedPrecision_single ["b", "a", "b", "a", "b"] ["a", "b", "a", "b"] (n := 2) Nat.two_pos
  obtain ⟨p, q, pairs, triples, most⟩ := grown (by decide)
  have matched : modifiedPrecision [["a", "b", "a", "b"]] ["b", "a", "b", "a", "b"] 2 =
      .ok (.ofPos 3 4 (by decide)) := by decide
  cases matched.symm.trans pairs
  exact ⟨traded (by decide) (by decide), _, q, pairs, rfl, triples, most⟩

/-- Six references of two tokens: all six pairs of the hypothesis match, but only three of its tokens. -/
example : modifiedPrecisions [["a", "b"], ["b", "a"], ["a", "c"], ["c", "b"], ["b", "c"], ["c", "a"]]
    ["a", "b", "a", "c", "b", "c", "a"] 2 = .ok [.ofPos 3 7 (by decide), .ofPos 6 6 (by decide)] := by decide

end Bleu

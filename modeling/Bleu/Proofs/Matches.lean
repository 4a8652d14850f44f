import Bleu.Precision
import Bleu.Proofs.Histogram
import Bleu.Proofs.Outcomes

/-!
# Matches of an order

The windows of an order are the segments of that length (`mem_windows`). `matchCount` adds up, over the different
windows of a hypothesis, how often each occurs, cut to the most occurrences in one reference. The counting tables
compute it, and a modified precision is its quotient by the number of windows (`modifiedPrecisions_eq`). Matches
never outnumber the windows (`matchCount_le`), and an order without a match leaves none to higher orders
(`matchCount_succ_eq_zero`).
-/
namespace Bleu.Ngram
variable {α : Type}

/-! ## Windows -/

/-- The windows of a positive order are the segments of that length. -/
theorem mem_windows {n : Nat} (positive : 0 < n) (g xs : List α) : g ∈ windows n xs ↔ g.length = n ∧ g <:+: xs := by
  induction xs with
  | nil =>
    simp only [windows, List.not_mem_nil, List.infix_nil, false_iff, not_and]
    rintro long rfl
    simp at long
    omega
  | cons x rest ih =>
    by_cases fits : n ≤ rest.length + 1
    · have first : g = (x :: rest).take n ↔ g.length = n ∧ g <+: x :: rest := by
        rw [List.prefix_iff_eq_take]
        constructor
        · intro same
          have long : g.length = n := by rw [same, List.length_take, List.length_cons]; omega
          exact ⟨long, by rw [long]; exact same⟩
        · rintro ⟨long, same⟩
          rw [long] at same
          exact same
      rw [windows, if_pos fits, List.mem_cons, ih, first, List.infix_cons_iff, and_or_left]
    · rw [windows, if_neg fits]
      simp only [List.not_mem_nil, false_iff, not_and]
      intro long segment
      have := segment.length_le
      rw [List.length_cons] at this
      omega

theorem length_windows {n : Nat} (positive : 0 < n) (xs : List α) :
    (windows n xs).length = windowCount xs.length n := by
  induction xs with
  | nil => simp [windows, windowCount, positive]
  | cons x rest ih =>
    by_cases fits : n ≤ rest.length + 1
    · rw [windows, if_pos fits, List.length_cons, ih, List.length_cons]
      unfold windowCount
      split_ifs <;> omega
    · rw [windows, if_neg fits, List.length_cons, List.length_nil]
      unfold windowCount
      split_ifs <;> omega

theorem windowCount_eq {length n : Nat} (positive : 0 < n) (fits : n ≤ length) :
    windowCount length n = length - n + 1 := by
  unfold windowCount
  rw [if_neg (by omega)]

/-- Shortening a window of an order by its last token gives a window of the order below. -/
theorem take_mem_windows {n : Nat} (positive : 0 < n) {g xs : List α} (member : g ∈ windows (n + 1) xs) :
    g.take n ∈ windows n xs := by
  obtain ⟨long, segment⟩ := (mem_windows (by omega) g xs).mp member
  refine (mem_windows positive _ xs).mpr ⟨?_, ?_⟩
  · rw [List.length_take, long]
    omega
  · exact (List.take_prefix n g).isInfix.trans segment

variable [DecidableEq α]

/-! ## Matches -/

/-- The most occurrences of an n-gram in one of the references. -/
def greatestCount (references : List (List α)) (n : Nat) (g : List α) : Nat :=
  (references.map fun reference => (windows n reference).count g).foldr max 0

/-- The matches of an order: the occurrences of every window of the hypothesis, cut to the most occurrences in one
of the references. -/
def matchCount (references : List (List α)) (hypothesis : List α) (n : Nat) : Nat :=
  ∑ g ∈ (windows n hypothesis).toFinset, min ((windows n hypothesis).count g) (greatestCount references n g)

theorem greatestCount_le_iff (references : List (List α)) (n : Nat) (g : List α) (bound : Nat) :
    greatestCount references n g ≤ bound ↔ ∀ reference ∈ references, (windows n reference).count g ≤ bound := by
  unfold greatestCount
  induction references with
  | nil => simp
  | cons reference rest ih => simp [ih]

/-- The matches are at most the windows. -/
theorem matchCount_le {n : Nat} (positive : 0 < n) (references : List (List α)) (hypothesis : List α) :
    matchCount references hypothesis n ≤ windowCount hypothesis.length n := by
  rw [← length_windows positive, ← Histogram.sum_count (windows n hypothesis)]
  exact Finset.sum_le_sum fun g _ => min_le_left _ _

/-- Nothing matches in an order just when no reference shares a window with the hypothesis. -/
theorem matchCount_eq_zero_iff (references : List (List α)) (hypothesis : List α) (n : Nat) :
    matchCount references hypothesis n = 0 ↔
      ∀ g ∈ windows n hypothesis, ∀ reference ∈ references, g ∉ windows n reference := by
  have absent : ∀ g, greatestCount references n g = 0 ↔ ∀ reference ∈ references, g ∉ windows n reference := by
    intro g
    rw [← Nat.le_zero, greatestCount_le_iff]
    simp only [Nat.le_zero, List.count_eq_zero]
  unfold matchCount
  rw [Finset.sum_eq_zero_iff]
  constructor
  · intro apart g member
    have counted : 0 < (windows n hypothesis).count g := List.count_pos_iff.mpr member
    have unmatched := apart g (List.mem_toFinset.mpr member)
    exact (absent g).mp (by omega)
  · intro apart g member
    rw [(absent g).mpr (apart g (List.mem_toFinset.mp member)), Nat.min_zero]

/-- An order without a match leaves none to the order above. -/
theorem matchCount_succ_eq_zero {n : Nat} (positive : 0 < n) {references : List (List α)} {hypothesis : List α}
    (unmatched : matchCount references hypothesis n = 0) : matchCount references hypothesis (n + 1) = 0 := by
  rw [matchCount_eq_zero_iff] at unmatched ⊢
  intro g member reference listed shared
  exact unmatched _ (take_mem_windows positive member) reference listed (take_mem_windows positive shared)

/-! ## The counting tables -/

theorem ofTokens_eq {n : Nat} (positive : 0 < n) (tokens : List α) :
    Counts.ofTokens tokens n =
      .ok { order := n, histogram := .ofList (windows n tokens), total := (windows n tokens).length } := by
  have given : n ≠ 0 := by omega
  simp [Counts.ofTokens, ngrams, given, Counts.foldl_insert, Counts.empty, Histogram.ofList, Bind.bind, Except.bind,
    pure, Except.pure]

theorem ofReferences_eq {n : Nat} (positive : 0 < n) {references : List (List α)} (given : references ≠ []) :
    ∃ best, Counts.ofReferences references n = .ok best ∧ ∀ g, best.get g = greatestCount references n g := by
  have counted := Outcomes.mapM_ok references fun reference _ => ofTokens_eq positive reference
  refine ⟨_, by simp only [Counts.ofReferences, List.isEmpty_iff, given, counted]; rfl, ?_⟩
  intro g
  apply eq_of_forall_ge_iff
  intro bound
  rw [BestCounts.get, greatestCount_le_iff, List.foldl_map]
  rw [show references.foldl _ _ = (references.map _).foldl Histogram.max Histogram.empty from List.foldl_map.symm]
  simp [Histogram.get_foldl_max_le, Histogram.get_ofList]

/-- The matches that the tables count. -/
theorem clippedMatches_eq {n : Nat} (references : List (List α)) (hypothesis : List α) {best : BestCounts α}
    (counted : ∀ g, best.get g = greatestCount references n g) {counts : Counts α}
    (listed : counts.histogram = .ofList (windows n hypothesis)) :
    best.clippedMatches counts = matchCount references hypothesis n := by
  unfold BestCounts.clippedMatches matchCount
  rw [listed, Histogram.overlap_eq_sum, Histogram.support_ofList]
  refine Finset.sum_congr rfl fun g _ => ?_
  rw [Histogram.get_ofList]
  exact congrArg (min _) (counted g)

end Bleu.Ngram

namespace Bleu
open Ngram
variable {α : Type} [DecidableEq α]

/-! ## Precisions -/

/-- The precision of an order that the hypothesis reaches. -/
def reachedPrecision (references : List (List α)) (hypothesis : List α) (n : Nat) : Fraction where
  numerator := matchCount references hypothesis n
  denominator := hypothesis.length - n + 1

theorem modifiedPrecision_eq {n : Nat} (positive : 0 < n) {references : List (List α)} (given : references ≠ [])
    {hypothesis : List α} (fits : n ≤ hypothesis.length) :
    modifiedPrecision references hypothesis n = .ok (reachedPrecision references hypothesis n) := by
  obtain ⟨best, found, counted⟩ := ofReferences_eq positive given
  have counts := windowCount_eq positive fits
  have some_windows : 0 < windowCount hypothesis.length n := by omega
  have order : n ≠ 0 := by omega
  simp only [modifiedPrecision, order, if_false, List.isEmpty_iff, given, dif_pos some_windows,
    ofTokens_eq positive, found]
  refine congrArg Except.ok ?_
  simp only [Fraction.ofPos, reachedPrecision, counts, clippedMatches_eq references hypothesis counted]

/-- With references and a positive highest order, every order that the hypothesis reaches gets its precision. -/
theorem modifiedPrecisions_eq {maxOrder : Nat} (positive : 0 < maxOrder) {references : List (List α)}
    (given : references ≠ []) (hypothesis : List α) :
    modifiedPrecisions references hypothesis maxOrder =
      .ok ((List.range (min maxOrder hypothesis.length)).map fun i =>
        reachedPrecision references hypothesis (i + 1)) := by
  have order : maxOrder ≠ 0 := by omega
  simp only [modifiedPrecisions, order, if_false, List.isEmpty_iff, given]
  refine Outcomes.mapM_ok _ fun i reached => ?_
  rw [List.mem_range] at reached
  exact modifiedPrecision_eq (by omega) given (by omega)

end Bleu

import Bleu.Proofs.Occurrences
import Mathlib.Order.Bounds.Defs

/-!
# Counting tables

The table of a sequence counts every n-gram of its order as often as the sequence has a position for it, and nothing
else (`Counts.Tabulates`); the number that it keeps beside the counts is their sum, and the number of the windows. The
table of references has the greatest of their counts. `tables_of_positions` says so for all sequences and references.
-/
namespace Bleu.Ngram
variable {α : Type} [DecidableEq α]

/-! ## One sequence -/

/-- What the table of an order says about a sequence. -/
structure Counts.Tabulates (c : Counts α) (n : ℕ) (tokens : List α) : Prop where
  order : c.order = n
  get : ∀ g, g.length = n → c.get g = occurrences g tokens
  get_other : ∀ g, g.length ≠ n → c.get g = 0
  total : c.total = windowCount tokens.length n
  sum : c.histogram.total = c.total
  distinct : c.distinct = (segments n tokens).card
  stored : ∀ row ∈ c.histogram.rows, row.1 ∈ segments n tokens ∧ row.2 = occurrences row.1 tokens ∧ row.2 ≠ 0

theorem count_windows_other {n : ℕ} (positive : 0 < n) {g : List α} (other : g.length ≠ n) (xs : List α) :
    (windows n xs).count g = 0 := by
  rw [List.count_eq_zero, mem_windows positive]
  exact fun member => other member.1

/-- What the table stores are the segments, each with its positions. -/
theorem stored_of_windows {n : ℕ} (positive : 0 < n) {tokens : List α} {row : List α × ℕ}
    (stored : row ∈ (Histogram.ofList (windows n tokens)).rows) :
    row.1 ∈ segments n tokens ∧ row.2 = occurrences row.1 tokens ∧ row.2 ≠ 0 := by
  have counted := Histogram.get_of_mem _ stored
  have count : 0 < row.2 := (Histogram.ofList (windows n tokens)).pos row stored
  rw [Histogram.get_ofList] at counted
  have member : row.1 ∈ windows n tokens := List.count_pos_iff.mp (by omega)
  refine ⟨?_, ?_, by omega⟩
  · rw [← toFinset_windows positive]
    exact List.mem_toFinset.mpr member
  · rw [← counted, count_windows ((mem_windows positive _ _).mp member).1]

theorem exists_ofTokens {n : ℕ} (positive : 0 < n) (tokens : List α) :
    ∃ c, Counts.ofTokens tokens n = .ok c ∧ c.Tabulates n tokens := by
  refine ⟨_, ofTokens_eq positive tokens, ?_⟩
  exact {
    order := rfl
    get := by
      intro g length
      rw [Counts.get, Histogram.get_ofList, count_windows length]
    get_other := by
      intro g other
      rw [Counts.get, Histogram.get_ofList, count_windows_other positive other]
    total := length_windows positive tokens
    sum := Histogram.total_ofList (windows n tokens)
    distinct := by
      rw [Counts.distinct, Histogram.distinct_eq_card, Histogram.support_ofList, toFinset_windows positive]
    stored := fun row stored => stored_of_windows positive stored }

/-! ## References -/

/-- One of the references has the most occurrences of an n-gram. -/
theorem exists_greatestCount {references : List (List α)} (given : references ≠ []) (n : ℕ) (g : List α) :
    ∃ reference ∈ references, (windows n reference).count g = greatestCount references n g := by
  have bounded := (greatestCount_le_iff references n g _).mp le_rfl
  by_cases zero : greatestCount references n g = 0
  · obtain ⟨reference, member⟩ := List.exists_mem_of_ne_nil references given
    have bound := bounded reference member
    exact ⟨reference, member, by omega⟩
  · -- Were all counts below the greatest one, one less would bound them too.
    by_contra none
    have below : greatestCount references n g ≤ greatestCount references n g - 1 := by
      rw [greatestCount_le_iff]
      intro reference member
      have bound := bounded reference member
      have differs : (windows n reference).count g ≠ greatestCount references n g :=
        fun same => none ⟨reference, member, same⟩
      omega
    omega

theorem clippedMatches_le_total {n : ℕ} {tokens : List α} {c : Counts α}
    (counted : Counts.ofTokens tokens n = .ok c) (best : BestCounts α) : best.clippedMatches c ≤ c.total := by
  by_cases zero : n = 0
  · subst zero
    cases counted
  · rw [ofTokens_eq (by omega)] at counted
    cases counted
    have bound := (Histogram.ofList (windows n tokens)).overlap_le_total best.histogram
    rw [Histogram.total_ofList] at bound
    exact bound

/-- For every positive order there are tables: that of a sequence counts its n-grams position by position, and that of
references has for every n-gram the greatest count in one of them. The matches of a table are at most its n-grams. -/
theorem tables_of_positions {n : ℕ} (positive : 0 < n) :
    (∀ tokens : List α, ∃ c, Counts.ofTokens tokens n = .ok c ∧ c.Tabulates n tokens) ∧
    ∀ references : List (List α), references ≠ [] →
      ∃ best, Counts.ofReferences references n = .ok best ∧
        (∀ g, IsGreatest
          {count | ∃ reference ∈ references, ∃ c, Counts.ofTokens reference n = .ok c ∧ c.get g = count} (best.get g)) ∧
        ∀ (m : ℕ) (hypothesis : List α) (c : Counts α), Counts.ofTokens hypothesis m = .ok c →
          best.clippedMatches c ≤ c.total := by
  refine ⟨exists_ofTokens positive, fun references given => ?_⟩
  obtain ⟨best, found, greatest⟩ := ofReferences_eq positive given
  refine ⟨best, found, fun g => ?_, fun m hypothesis c counted => clippedMatches_le_total counted best⟩
  rw [greatest]
  constructor
  · obtain ⟨reference, member, most⟩ := exists_greatestCount given n g
    refine ⟨reference, member, _, ofTokens_eq positive reference, ?_⟩
    rw [Counts.get, Histogram.get_ofList, most]
  · rintro count ⟨reference, member, c, counted, rfl⟩
    rw [ofTokens_eq positive] at counted
    cases counted
    rw [Counts.get, Histogram.get_ofList]
    exact (greatestCount_le_iff references n g _).mp le_rfl reference member

/-- Three bigrams of two kinds, against references with one and with two of the first kind. -/
theorem tables_of_three_bigrams :
    0 < 2 ∧ [["a", "b"], ["a", "b", "a", "b"]] ≠ [] ∧
      ∃ c, Counts.ofTokens ["a", "b", "a", "b"] 2 = .ok c ∧
        c.get ["a", "b"] = 2 ∧ c.get ["a"] = 0 ∧ c.total = 3 ∧ c.distinct = 2 ∧
        ∃ best, Counts.ofReferences [["a", "b"], ["a", "b", "a", "b"]] 2 = .ok best ∧ 2 ≤ best.get ["a", "b"] ∧
          best.clippedMatches c ≤ 3 := by
  obtain ⟨sequences, references⟩ := @tables_of_positions String _ 2 (by decide)
  obtain ⟨c, counted, table⟩ := sequences ["a", "b", "a", "b"]
  obtain ⟨best, found, greatest, bound⟩ := references [["a", "b"], ["a", "b", "a", "b"]] (by decide)
  have twice : c.get ["a", "b"] = 2 := (table.get ["a", "b"] rfl).trans (by decide)
  have three : c.total = 3 := table.total
  refine ⟨by decide, by decide, c, counted, twice, table.get_other ["a"] (by decide), three,
    table.distinct.trans (by decide), best, found, ?_, ?_⟩
  · rw [← twice]
    exact (greatest ["a", "b"]).2 ⟨["a", "b", "a", "b"], by decide, c, counted, rfl⟩
  · rw [← three]
    exact bound 2 _ c counted

end Bleu.Ngram

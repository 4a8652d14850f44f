import Bleu.Proofs.Statistics

/-!
# What statistics look like

`Statistics.Reachable` are the statistics that counting and adding up can form, with whatever highest order each pair
was counted. They are `Statistics.Regular`: windows get fewer from order to order, matches do not outnumber them and
do not resume after an order without any. `Reachable.regular` derives it, and with it that all listed orders have a
precision and that the lists are determined by the counts.
-/
namespace Bleu.Statistics
open Ngram Outcomes

/-- The statistics that can be formed. -/
inductive Reachable : Statistics → Prop
  | identity : Reachable .identity
  | ofPair {α : Type} [DecidableEq α] {references : List (List α)} {hypothesis : List α} {maxOrder : Nat}
      {s : Statistics} (given : references ≠ []) (positive : 0 < maxOrder)
      (counted : ofPair references hypothesis maxOrder = .ok s) : Reachable s
  | combine {a b : Statistics} (left : Reachable a) (right : Reachable b) : Reachable (a.combine b)

/-- What holds of the matches and windows of all pairs. Beyond the listed orders both count zero. -/
structure Regular (s : Statistics) : Prop where
  paired : s.matched.length = s.totals.length
  positive : ∀ i < s.totals.length, 0 < s.totals.getD i 0
  matched_le : ∀ i, s.matched.getD i 0 ≤ s.totals.getD i 0
  decreasing : ∀ i, i + 1 < s.totals.length → s.totals.getD (i + 1) 0 < s.totals.getD i 0
  unmatched : ∀ i, s.matched.getD i 0 = 0 → s.matched.getD (i + 1) 0 = 0
  first : s.totals.getD 0 0 = s.hypothesisLength
  empty : s.hypothesisLength = 0 ↔ s.matched = [] ∧ s.totals = []

/-! ## One pair -/

theorem getD_map_range (f : Nat → Nat) (n i : Nat) : ((List.range n).map f).getD i 0 = if i < n then f i else 0 := by
  by_cases listed : i < n
  · simp [List.getD_eq_getElem?_getD, listed]
  · simp [List.getD_eq_getElem?_getD, listed]

theorem regular_identity : identity.Regular where
  paired := rfl
  positive := by simp [identity]
  matched_le := by simp [identity]
  decreasing := by simp [identity]
  unmatched := by simp [identity]
  first := rfl
  empty := by simp [identity]

theorem regular_ofPair {α : Type} [DecidableEq α] {maxOrder : Nat} (positive : 0 < maxOrder)
    {references : List (List α)} (given : references ≠ []) {hypothesis : List α} {s : Statistics}
    (counted : ofPair references hypothesis maxOrder = .ok s) : s.Regular := by
  obtain ⟨_, same, matched, totals, length⟩ := ofPair_eq positive given hypothesis
  cases counted.symm.trans same
  -- The orders are those the hypothesis reaches, so a listed order has at least one window.
  have orders : s.totals.length = min maxOrder hypothesis.length := by simp [totals]
  constructor
  · simp [matched, totals]
  · intro i listed
    rw [totals, getD_map_range, if_pos (by omega)]
    omega
  · intro i
    rw [matched, totals, getD_map_range, getD_map_range]
    by_cases listed : i < min maxOrder hypothesis.length
    · rw [if_pos listed, if_pos listed, ← windowCount_eq (by omega) (by omega)]
      exact matchCount_le (by omega) references hypothesis
    · rw [if_neg listed, if_neg listed]
  · intro i listed
    rw [totals, getD_map_range, getD_map_range, if_pos (by omega), if_pos (by omega)]
    omega
  · intro i unmatched
    rw [matched, getD_map_range] at unmatched ⊢
    by_cases listed : i + 1 < min maxOrder hypothesis.length
    · rw [if_pos (by omega)] at unmatched
      rw [if_pos listed, matchCount_succ_eq_zero (by omega) unmatched]
    · rw [if_neg listed]
  · rw [totals, length, getD_map_range]
    split_ifs <;> omega
  · rw [matched, totals, length]
    simp
    omega

/-! ## Sums -/

/-- Padded with zeros, windows never grow in number. -/
theorem Regular.totals_succ_le {s : Statistics} (regular : s.Regular) (i : Nat) :
    s.totals.getD (i + 1) 0 ≤ s.totals.getD i 0 := by
  by_cases listed : i + 1 < s.totals.length
  · exact le_of_lt (regular.decreasing i listed)
  · rw [List.getD_eq_default _ _ (by omega)]
    exact Nat.zero_le _

theorem Regular.length_totals_eq_zero {s : Statistics} (regular : s.Regular) :
    s.hypothesisLength = 0 ↔ s.totals.length = 0 := by
  have paired := regular.paired
  rw [regular.empty, ← List.length_eq_zero_iff, ← List.length_eq_zero_iff]
  omega

theorem regular_combine {a b : Statistics} (left : a.Regular) (right : b.Regular) : (a.combine b).Regular := by
  have counts := getD_combine left.paired right.paired
  have orders := length_totals_combine a b
  have paired := paired_combine a b
  constructor
  · exact paired
  · intro i listed
    rw [(counts i).2]
    by_cases inA : i < a.totals.length
    · have := left.positive i inA
      omega
    · have := right.positive i (by omega)
      omega
  · intro i
    rw [(counts i).1, (counts i).2]
    exact Nat.add_le_add (left.matched_le i) (right.matched_le i)
  · intro i listed
    rw [(counts i).2, (counts (i + 1)).2]
    -- One of the two lists the order above, and the other one does not grow.
    by_cases inA : i + 1 < a.totals.length
    · exact Nat.add_lt_add_of_lt_of_le (left.decreasing i inA) (right.totals_succ_le i)
    · exact Nat.add_lt_add_of_le_of_lt (left.totals_succ_le i) (right.decreasing i (by omega))
  · intro i unmatched
    rw [(counts i).1] at unmatched
    rw [(counts (i + 1)).1, left.unmatched i (by omega), right.unmatched i (by omega)]
  · rw [(counts 0).2, left.first, right.first]
    rfl
  · have length : (a.combine b).hypothesisLength = a.hypothesisLength + b.hypothesisLength := rfl
    have leftEmpty := left.length_totals_eq_zero
    have rightEmpty := right.length_totals_eq_zero
    unfold Paired at paired
    rw [← List.length_eq_zero_iff, ← List.length_eq_zero_iff]
    omega

theorem Reachable.regular {s : Statistics} (reachable : s.Reachable) : s.Regular := by
  induction reachable with
  | identity => exact regular_identity
  | ofPair given positive counted => exact regular_ofPair positive given counted
  | combine left right first second => exact regular_combine first second

/-- Sums of pairs can be formed. -/
theorem reachable_of_ofPairs {α : Type} [DecidableEq α] {maxOrder : Nat} (positive : 0 < maxOrder)
    {pairs : List (List (List α) × List α)} {s : Statistics} (summed : ofPairs maxOrder pairs = .ok s) : s.Reachable := by
  induction pairs generalizing s with
  | nil =>
    cases summed
    exact .identity
  | cons pair rest ih =>
    rw [← List.singleton_append, ofPairs_append, ofPairs_singleton] at summed
    obtain ⟨first, counted, summed⟩ := bind_eq_ok.mp summed
    obtain ⟨others, later, added⟩ := bind_eq_ok.mp summed
    cases added
    have given : pair.1 ≠ [] := by
      intro unmatched
      rw [unmatched, ofPair_nil] at counted
      cases counted
    exact .combine (.ofPair given positive counted) (ih later)

/-! ## What follows -/

theorem exists_fractions {ns ds : List Nat} (length : ns.length = ds.length) (positive : ∀ d ∈ ds, 0 < d) :
    ∃ ps : List Fraction, ps.map Fraction.numerator = ns ∧ ps.map Fraction.denominator = ds := by
  induction ns generalizing ds with
  | nil =>
    cases ds with
    | nil => exact ⟨[], rfl, rfl⟩
    | cons d rest => simp at length
  | cons n others ih =>
    cases ds with
    | nil => simp at length
    | cons d rest =>
      obtain ⟨ps, numerators, denominators⟩ := ih (by simpa using length) fun e member => positive e (by simp [member])
      exact ⟨.ofPos n d (positive d (by simp)) :: ps, by simp [Fraction.ofPos, numerators],
        by simp [Fraction.ofPos, denominators]⟩

/-- Every listed order has a precision. -/
theorem Regular.quotients_eq {s : Statistics} (regular : s.Regular) :
    s.quotients = .ok s.precisions ∧ s.precisions.map Fraction.numerator = s.matched ∧
      s.precisions.map Fraction.denominator = s.totals := by
  have positive : ∀ d ∈ s.totals, 0 < d := by
    intro d member
    obtain ⟨i, inside, rfl⟩ := List.getElem_of_mem member
    simpa [inside] using regular.positive i inside
  obtain ⟨ps, matched, totals⟩ := exists_fractions regular.paired positive
  have formed : s.quotients = .ok ps := quotients_eq_ok matched.symm totals.symm fun p member =>
    positive _ (totals ▸ List.mem_map_of_mem member)
  have listed : s.precisions = ps := by rw [precisions, formed]; rfl
  rw [listed]
  exact ⟨formed, matched, totals⟩

/-- A precision is the quotient of the counts of its order. -/
theorem Regular.of_mem_precisions {s : Statistics} (regular : s.Regular) {p : Fraction} (member : p ∈ s.precisions) :
    0 < p.denominator ∧ p.numerator ≤ p.denominator := by
  obtain ⟨_, matched, totals⟩ := regular.quotients_eq
  obtain ⟨i, inside, rfl⟩ := List.getElem_of_mem member
  have positive := regular.positive i (by rw [← totals, List.length_map]; exact inside)
  have le := regular.matched_le i
  rw [← totals] at positive le
  rw [← matched] at le
  simpa [inside] using And.intro positive le

theorem Regular.totals_succ_lt {s : Statistics} (regular : s.Regular) (i : Nat) (listed : i + 1 < s.totals.length) :
    s.totals.getD (i + 1) 0 < s.hypothesisLength := by
  induction i with
  | zero =>
    rw [← regular.first]
    exact regular.decreasing 0 listed
  | succ i ih => exact (regular.decreasing (i + 1) listed).trans (ih (by omega))

/-- Above order one there are fewer windows than tokens. -/
theorem Regular.denominator_lt {s : Statistics} (regular : s.Regular) {p : Fraction} (above : p ∈ s.precisions.tail) :
    p.denominator < s.hypothesisLength := by
  obtain ⟨i, found⟩ := List.mem_iff_getElem?.mp above
  rw [List.getElem?_tail] at found
  have counted : s.totals[i + 1]? = some p.denominator := by
    rw [← regular.quotients_eq.2.2, List.getElem?_map, found, Option.map_some]
  have fewer := regular.totals_succ_lt i (List.getElem?_eq_some_iff.mp counted).1
  rwa [List.getD_eq_getElem?_getD, counted] at fewer

/-- A hypothesis of one token has no second order. -/
theorem Regular.length_precisions_le {s : Statistics} (regular : s.Regular) (short : s.hypothesisLength ≤ 1) :
    s.precisions.length ≤ 1 := by
  have length : s.precisions.length = s.totals.length := by rw [← regular.quotients_eq.2.2, List.length_map]
  by_contra more
  have decreasing := regular.decreasing 0 (by omega)
  have positive := regular.positive 1 (by omega)
  rw [regular.first, Nat.zero_add] at decreasing
  omega

/-- An order is listed just when it has windows. -/
theorem Regular.lt_length_iff {s : Statistics} (regular : s.Regular) (i : Nat) :
    i < s.totals.length ↔ 0 < s.totals.getD i 0 := by
  constructor
  · exact regular.positive i
  · intro counted
    by_contra outside
    rw [List.getD_eq_default _ _ (by omega)] at counted
    omega

/-- Statistics with the same counts have the same lists. -/
theorem Regular.lists_eq {s t : Statistics} (regular : s.Regular) (other : t.Regular)
    (same : ∀ i, s.matched.getD i 0 = t.matched.getD i 0 ∧ s.totals.getD i 0 = t.totals.getD i 0) :
    s.matched = t.matched ∧ s.totals = t.totals := by
  have listed : ∀ i, i < s.totals.length ↔ i < t.totals.length := by
    intro i
    rw [regular.lt_length_iff, other.lt_length_iff, (same i).2]
  have orders : s.totals.length = t.totals.length := eq_of_forall_lt_iff listed
  have paired := regular.paired
  have otherPaired := other.paired
  exact ⟨eq_of_getD (by omega) fun i => (same i).1, eq_of_getD orders fun i => (same i).2⟩

/-- The statistics that can be formed are regular. All their orders have a precision, and nothing else has the same
counts. -/
theorem Reachable.invariant {s : Statistics} (reachable : s.Reachable) :
    s.Regular ∧
      (s.quotients = .ok s.precisions ∧ s.precisions.map Fraction.numerator = s.matched ∧
        s.precisions.map Fraction.denominator = s.totals) ∧
      ∀ t : Statistics, t.Reachable →
        (∀ i, s.matched.getD i 0 = t.matched.getD i 0 ∧ s.totals.getD i 0 = t.totals.getD i 0) →
        s.matched = t.matched ∧ s.totals = t.totals :=
  ⟨reachable.regular, reachable.regular.quotients_eq, fun _ other same =>
    reachable.regular.lists_eq other.regular same⟩

/-- Two pairs, counted up to different orders. -/
theorem invariant_two_pairs : (combine ⟨[2], [2], 2, 3, 1⟩ ⟨[2, 0, 0], [3, 2, 1], 3, 3, 1⟩).Regular := by
  have first : ofPair [["a", "b", "c"]] ["a", "b"] 1 = .ok ⟨[2], [2], 2, 3, 1⟩ := rfl
  have second : ofPair [["c", "b", "a"]] ["a", "b", "d"] 4 = .ok ⟨[2, 0, 0], [3, 2, 1], 3, 3, 1⟩ := rfl
  exact (Reachable.invariant (.combine (.ofPair (by simp) (by decide) first) (.ofPair (by simp) (by decide) second))).1

end Bleu.Statistics

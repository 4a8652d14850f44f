import Bleu.Proofs.Double.Bounds
import Bleu.Score

/-!
# Weights as shares

Restricted weights are the entries divided by their sum. Entries that pass the checks of `Weights.ofList` do not
exceed that sum, however it is rounded (`le_sum`), so every weight that is applied is a share of one
(`applicable_le_one`). A restriction fails just when none of the orders left has a positive weight
(`Accepted.restrict`).
-/
namespace Bleu.Weights
open Double

/-- Whether weights pass the checks on lists of numbers. -/
def Accepted (w : Weights) : Prop := ofList w.values = .ok w

/-! ## Entries -/

theorem firstInvalid?_eq_none_iff {values : List Float} :
    firstInvalid? values = none ↔ ∀ x ∈ values, isWeight x = true := by
  simp only [firstInvalid?, Option.map_eq_none_iff, List.find?_eq_none]
  constructor
  · intro valid x member
    obtain ⟨i, inside, rfl⟩ := List.getElem_of_mem member
    have listed : (values[i], i) ∈ values.zipIdx := by
      rw [List.mem_zipIdx_iff_getElem?]
      exact List.getElem?_eq_getElem inside
    simpa using valid _ listed
  · intro weights entry member
    have listed : entry.1 ∈ values := (List.mem_zipIdx' member).2 ▸ List.getElem_mem _
    simp [weights entry.1 listed]

theorem ofList_eq_ok_iff {values : List Float} {w : Weights} :
    ofList values = .ok w ↔ w.values = values ∧ (∀ x ∈ values, isWeight x = true) ∧ ¬ sum values ≤ 0 := by
  rw [← firstInvalid?_eq_none_iff]
  cases w with
  | mk given nonempty =>
    unfold ofList
    by_cases empty : values = []
    · simp [empty, nonempty]
    · cases first : firstInvalid? values with
      | some entry => simp [empty]
      | none =>
        by_cases nonpos : sum values ≤ 0
        · simp [empty, nonpos]
        · simp [empty, nonpos, eq_comm]

theorem Accepted.isWeight {w : Weights} (accepted : w.Accepted) : ∀ x ∈ w.values, isWeight x = true :=
  (ofList_eq_ok_iff.mp accepted).2.1

theorem isWeight_iff (x : Float) : isWeight x = true ↔ x.isFinite = true ∧ 0 ≤ x := by
  simp only [isWeight, Bool.and_eq_true, Bool.not_eq_true', decide_eq_false_iff_not]
  constructor
  · rintro ⟨finite, nonneg⟩
    exact ⟨finite, (not_lt_iff ((isFinite_iff x).mp finite).1 number_zero).mp nonneg⟩
  · rintro ⟨finite, nonneg⟩
    exact ⟨finite, not_lt_of_le nonneg⟩

theorem Accepted.nonneg {w : Weights} (accepted : w.Accepted) (usable : Nat) : ∀ x ∈ w.values.take usable, 0 ≤ x :=
  fun x member => ((isWeight_iff x).mp (accepted.isWeight x (List.mem_of_mem_take member))).2

/-! ## Sums -/

/-- A running sum of entries stays above its start and above every entry. -/
theorem le_foldl_add {values : List Float} {start : Float} (nonneg : 0 ≤ start) (weights : ∀ x ∈ values, 0 ≤ x) :
    start ≤ values.foldl (· + ·) start ∧ ∀ x ∈ values, x ≤ values.foldl (· + ·) start := by
  induction values generalizing start with
  | nil => exact ⟨Double.le_refl (number_right nonneg), by simp⟩
  | cons y rest ih =>
    have entry : 0 ≤ y := weights y (by simp)
    have grown := le_add_right nonneg entry
    obtain ⟨above, others⟩ := ih (Double.le_trans nonneg grown) fun x member => weights x (by simp [member])
    refine ⟨Double.le_trans grown above, fun x member => ?_⟩
    rcases List.mem_cons.mp member with rfl | later
    · exact Double.le_trans (le_add_left nonneg entry) above
    · exact others x later

theorem le_sum {values : List Float} (weights : ∀ x ∈ values, 0 ≤ x) : ∀ x ∈ values, x ≤ sum values :=
  (le_foldl_add (by decide) weights).2

theorem sum_nonneg {values : List Float} (weights : ∀ x ∈ values, 0 ≤ x) : 0 ≤ sum values :=
  (le_foldl_add (by decide) weights).1

/-! ## Shares -/

theorem restrict_eq_ok_iff {w applied : Weights} {usable : Nat} :
    w.restrict usable = .ok applied ↔ w.values.take usable ≠ [] ∧ ¬ sum (w.values.take usable) ≤ 0 ∧
      applied.values = (w.values.take usable).map (· / sum (w.values.take usable)) := by
  cases applied with
  | mk values given =>
    unfold restrict
    dsimp only
    by_cases empty : w.values.take usable = []
    · simp [empty]
    · by_cases nonpos : sum (w.values.take usable) ≤ 0
      · simp [empty, nonpos]
      · simp [empty, nonpos, eq_comm]

theorem restrict_le_one {w applied : Weights} {usable : Nat} (accepted : w.Accepted)
    (restricted : w.restrict usable = .ok applied) : ∀ x ∈ applied.values, ¬ 1 < x := by
  have weights := accepted.nonneg usable
  obtain ⟨_, nonzero, same⟩ := restrict_eq_ok_iff.mp restricted
  have positive := pos_of_not_le (number_right (sum_nonneg weights)) nonzero
  intro x member
  rw [same] at member
  obtain ⟨entry, kept, rfl⟩ := List.mem_map.mp member
  exact not_one_lt_div positive (le_sum weights entry kept)

theorem even_le_one {applied : Weights} {usable : Nat} (made : even usable = .ok applied) :
    ∀ x ∈ applied.values, ¬ 1 < x := by
  obtain ⟨positive, same⟩ := even_eq_ok_iff.mp made
  intro x member
  rw [same] at member
  rw [(List.mem_replicate.mp member).2]
  exact not_one_lt_div (ofNat_pos (Nat.pos_of_ne_zero positive)) (one_le_ofNat (Nat.pos_of_ne_zero positive))

/-- Every weight that is applied is a share of one. -/
theorem applicable_le_one {weights : Option Weights} {applied : Weights} {usable : Nat}
    (accepted : ∀ w ∈ weights, w.Accepted) (chosen : applicableWeights weights usable = .ok applied) :
    ∀ x ∈ applied.values, ¬ 1 < x := by
  cases weights with
  | none => exact even_le_one chosen
  | some w => exact restrict_le_one (accepted w rfl) chosen

/-! ## Which restrictions fail -/

/-- Whether one of the first `usable` orders has a positive weight. -/
def Weighs (w : Weights) (usable : Nat) : Prop := ∃ x ∈ w.values.take usable, 0 < x

theorem sum_nonpos {values : List Float} (nonpos : ∀ x ∈ values, x ≤ 0) : sum values ≤ 0 := by
  suffices below : ∀ start : Float, start ≤ 0 → values.foldl (· + ·) start ≤ 0 from below 0 (by decide)
  induction values with
  | nil => exact fun start below => below
  | cons y rest ih =>
    intro start below
    exact ih (fun x member => nonpos x (by simp [member])) _ (add_nonpos below (nonpos y (by simp)))

/-- A sum of entries is positive just when one of them is. -/
theorem sum_nonpos_iff {values : List Float} (weights : ∀ x ∈ values, 0 ≤ x) :
    sum values ≤ 0 ↔ ¬ ∃ x ∈ values, 0 < x := by
  constructor
  · rintro nonpos ⟨x, member, positive⟩
    exact not_lt_of_le nonpos (Double.lt_of_lt_of_le positive (le_sum weights x member))
  · intro weightless
    refine sum_nonpos fun x member => (not_lt_iff number_zero (number_right (weights x member))).mp ?_
    exact fun positive => weightless ⟨x, member, positive⟩

/-- Orders above the highest one do not matter. -/
theorem take_min (w : Weights) (usable : Nat) : w.values.take (min w.maxOrder usable) = w.values.take usable := by
  simp [List.take_eq_take_iff, maxOrder, Nat.min_comm]

theorem exists_restrict {w : Weights} {usable : Nat} (positive : ¬ sum (w.values.take usable) ≤ 0) :
    ∃ applied, w.restrict usable = .ok applied := by
  have nonempty : w.values.take usable ≠ [] := by
    intro empty
    rw [empty] at positive
    exact positive (by decide)
  exact ⟨⟨_, by simpa using nonempty⟩, restrict_eq_ok_iff.mpr ⟨nonempty, positive, rfl⟩⟩

theorem restrict_of_sum_nonpos {w : Weights} {usable : Nat} (nonpos : sum (w.values.take usable) ≤ 0) :
    w.restrict usable = .error (.unresolvableWeights usable) := by
  unfold restrict
  dsimp only
  split_ifs
  · rfl
  · rfl

/-- Weights apply to the orders that are scored if those of them that are reached have a sum to divide by. -/
theorem exists_applicable_iff {weights : Option Weights} {usable : Nat} (positive : 0 < usable) :
    (∃ applied, applicableWeights weights (min (scoredOrder weights) usable) = .ok applied) ↔
      ∀ w ∈ weights, ¬ sum (w.values.take usable) ≤ 0 := by
  cases weights with
  | none =>
    have given : min defaultMaxOrder usable ≠ 0 := by
      rw [defaultMaxOrder]
      omega
    simp [applicableWeights, scoredOrder, even, given]
  | some w =>
    simp only [applicableWeights, scoredOrder, Option.elim_some, Option.mem_some_iff, forall_eq', ← w.take_min usable]
    by_cases nonpos : sum (w.values.take (min w.maxOrder usable)) ≤ 0
    · simp [restrict_of_sum_nonpos nonpos, nonpos]
    · simpa [nonpos] using exists_restrict nonpos

/-- Weights with a sum to divide by are restricted to all their orders as to any greater number. -/
theorem restrict_min {w : Weights} (positive : ¬ sum w.values ≤ 0) (usable : Nat) :
    w.restrict (min w.maxOrder usable) = w.restrict usable := by
  rcases Nat.le_total usable w.maxOrder with reached | exceeds
  · rw [Nat.min_eq_right reached]
  · have all : w.values.take usable = w.values := List.take_of_length_le exceeds
    have same : w.values.take w.maxOrder = w.values := List.take_length
    rw [Nat.min_eq_left exceeds]
    simp only [restrict, all, same, w.values_ne_nil, positive, dif_neg, if_neg, not_false_eq_true]

/-- Accepted weights can be restricted to orders of which one counts, and to no others. -/
theorem Accepted.restrict {w : Weights} (accepted : w.Accepted) (usable : Nat) :
    (w.Weighs usable → ∃ applied, w.restrict usable = .ok applied) ∧
      (¬ w.Weighs usable → w.restrict usable = .error (.unresolvableWeights usable)) := by
  have weights := accepted.nonneg usable
  constructor
  · intro weighs
    exact exists_restrict fun nonpos => (sum_nonpos_iff weights).mp nonpos weighs
  · intro weightless
    exact restrict_of_sum_nonpos ((sum_nonpos_iff weights).mpr weightless)

/-! ## One order only -/

/-- The weights that count nothing but the order above the given ones. -/
def only (below : Nat) : Weights where
  values := List.replicate below 0 ++ [1]
  values_ne_nil := by simp

theorem sum_only (below : Nat) : sum (only below).values = 1 := by
  have zeros : (List.replicate below (0 : Float)).foldl (· + ·) 0 = 0 := by
    induction below with
    | zero => rfl
    | succ n ih =>
      have zero : (0 : Float) + 0 = 0 := by decide
      rw [List.replicate_succ, List.foldl_cons, zero, ih]
  rw [sum, only, List.foldl_append, zeros]
  decide

theorem accepted_only (below : Nat) : (only below).Accepted := by
  refine ofList_eq_ok_iff.mpr ⟨rfl, fun x member => ?_, ?_⟩
  · rcases List.mem_append.mp member with zero | one
    · rw [(List.mem_replicate.mp zero).2]
      decide
    · rw [List.mem_singleton.mp one]
      decide
  · rw [sum_only]
    decide

theorem restrict_only (below : Nat) : (only below).restrict (below + 1) = .ok (only below) := by
  have all : (only below).values.take (below + 1) = (only below).values := List.take_of_length_le (by simp [only])
  have shares : (only below).values.map (· / 1) = (only below).values := by
    have zero : (0 : Float) / 1 = 0 := by decide
    have one : (1 : Float) / 1 = 1 := by decide
    simp [only, zero, one]
  refine restrict_eq_ok_iff.mpr ?_
  rw [all, sum_only, shares]
  exact ⟨(only below).values_ne_nil, by decide, rfl⟩

end Bleu.Weights

import Bleu.Corpus.Statistics
import Bleu.Proofs.Matches
import Mathlib.Data.List.GetD
import Mathlib.Data.List.TakeWhile

/-!
# Adding up statistics

Statistics of pairs list matches and windows for the same orders (`Statistics.Paired`). Among such statistics
`combine` is associative and commutative and `identity` changes nothing, so that the sum of pairs depends neither on
their grouping (`ofPairs_append`) nor on their order (`ofPairs_perm`). A corpus of one pair scores what the pair scores
(`Score.ofCorpus_singleton`).
-/
namespace Bleu
open Ngram Outcomes
variable {α : Type} [DecidableEq α]

/-! ## Padded sums -/

@[simp] theorem length_addPadded (orders : Nat) (xs ys : List Nat) : (addPadded orders xs ys).length = orders := by
  simp [addPadded]

theorem getD_addPadded (orders : Nat) (xs ys : List Nat) (i : Nat) :
    (addPadded orders xs ys).getD i 0 = if i < orders then xs.getD i 0 + ys.getD i 0 else 0 := by
  by_cases listed : i < orders
  · simp [addPadded, List.getD_eq_getElem?_getD, listed]
  · simp [addPadded, List.getD_eq_getElem?_getD, listed]

/-- A list of known length is known by its entries, padded with zeros. -/
theorem eq_of_getD {xs ys : List Nat} (length : xs.length = ys.length) (same : ∀ i, xs.getD i 0 = ys.getD i 0) :
    xs = ys := by
  refine List.ext_getElem length fun i inX inY => ?_
  simpa [inX, inY] using same i

/-- Nothing is added where nothing is listed. -/
theorem getD_addPadded_of_length_le {orders : Nat} {xs ys : List Nat} (left : xs.length ≤ orders)
    (right : ys.length ≤ orders) (i : Nat) : (addPadded orders xs ys).getD i 0 = xs.getD i 0 + ys.getD i 0 := by
  rw [getD_addPadded]
  by_cases listed : i < orders
  · rw [if_pos listed]
  · rw [if_neg listed, List.getD_eq_default _ _ (by omega), List.getD_eq_default _ _ (by omega)]

/-! ## The longest hypothesis -/

/-- The length of the longest hypothesis. -/
def longest (hypotheses : List (List α)) : Nat := (hypotheses.map List.length).foldr max 0

omit [DecidableEq α] in
theorem longest_pos_iff (hypotheses : List (List α)) : 0 < longest hypotheses ↔ ∃ h ∈ hypotheses, h ≠ [] := by
  induction hypotheses with
  | nil => simp [longest]
  | cons h rest ih =>
    rw [longest] at ih ⊢
    simp [ih, List.length_pos_iff]

namespace Statistics

/-! ## The algebra of sums -/

/-- Matches and windows are listed for the same orders. -/
def Paired (s : Statistics) : Prop := s.matched.length = s.totals.length

theorem paired_identity : identity.Paired := rfl

theorem paired_combine (a b : Statistics) : (a.combine b).Paired := by
  simp [Paired, combine]

/-- Paired statistics are added order by order. -/
theorem getD_combine {a b : Statistics} (left : a.Paired) (right : b.Paired) (i : Nat) :
    (a.combine b).matched.getD i 0 = a.matched.getD i 0 + b.matched.getD i 0 ∧
      (a.combine b).totals.getD i 0 = a.totals.getD i 0 + b.totals.getD i 0 := by
  unfold Paired at left right
  constructor
  · exact getD_addPadded_of_length_le (by omega) (by omega) i
  · exact getD_addPadded_of_length_le (by omega) (by omega) i

theorem length_totals_combine (a b : Statistics) :
    (a.combine b).totals.length = max a.totals.length b.totals.length := by
  simp [combine]

/-- Paired statistics are known by the number of their orders, the counts of every order, and the three sums. -/
theorem eq_of_counts {a b : Statistics} (left : a.Paired) (right : b.Paired)
    (orders : a.totals.length = b.totals.length)
    (counts : ∀ i, a.matched.getD i 0 = b.matched.getD i 0 ∧ a.totals.getD i 0 = b.totals.getD i 0)
    (hypotheses : a.hypothesisLength = b.hypothesisLength) (references : a.referenceLength = b.referenceLength)
    (sentences : a.sentences = b.sentences) : a = b := by
  unfold Paired at left right
  have matched : a.matched = b.matched := eq_of_getD (by omega) fun i => (counts i).1
  have totals : a.totals = b.totals := eq_of_getD orders fun i => (counts i).2
  cases a
  cases b
  simp_all

theorem combine_identity {s : Statistics} (paired : s.Paired) : s.combine identity = s := by
  refine eq_of_counts (paired_combine _ _) paired ?_ (fun i => ?_) rfl rfl rfl
  · rw [length_totals_combine]
    exact max_eq_left (Nat.zero_le _)
  · simpa [identity] using getD_combine paired paired_identity i

theorem identity_combine {s : Statistics} (paired : s.Paired) : identity.combine s = s := by
  refine eq_of_counts (paired_combine _ _) paired ?_ (fun i => ?_) (Nat.zero_add _) (Nat.zero_add _) (Nat.zero_add _)
  · rw [length_totals_combine]
    exact max_eq_right (Nat.zero_le _)
  · simpa [identity] using getD_combine paired_identity paired i

theorem combine_assoc {a b c : Statistics} (first : a.Paired) (second : b.Paired) (third : c.Paired) :
    (a.combine b).combine c = a.combine (b.combine c) := by
  refine eq_of_counts (paired_combine _ _) (paired_combine _ _) ?_ (fun i => ?_) (Nat.add_assoc _ _ _)
    (Nat.add_assoc _ _ _) (Nat.add_assoc _ _ _)
  · simp only [length_totals_combine, max_assoc]
  · have inner := getD_combine first second i
    have outer := getD_combine second third i
    rw [(getD_combine (paired_combine a b) third i).1, (getD_combine (paired_combine a b) third i).2,
      (getD_combine first (paired_combine b c) i).1, (getD_combine first (paired_combine b c) i).2]
    omega

theorem combine_comm (a b : Statistics) : a.combine b = b.combine a := by
  simp [combine, addPadded, max_comm, Nat.add_comm]

/-! ## One pair -/

/-- A pair without references is refused. -/
theorem ofPair_nil (hypothesis : List α) (maxOrder : Nat) :
    ofPair [] hypothesis maxOrder = .error .emptyReferences := rfl

/-- Every other pair is counted, order by order up to the hypothesis's length. -/
theorem ofPair_eq {maxOrder : Nat} (positive : 0 < maxOrder) {references : List (List α)} (given : references ≠ [])
    (hypothesis : List α) :
    ∃ s, ofPair references hypothesis maxOrder = .ok s ∧
      s.matched = (List.range (min maxOrder hypothesis.length)).map
        (fun i => matchCount references hypothesis (i + 1)) ∧
      s.totals = (List.range (min maxOrder hypothesis.length)).map (fun i => hypothesis.length - (i + 1) + 1) ∧
      s.hypothesisLength = hypothesis.length := by
  obtain ⟨first, rest, rfl⟩ := List.exists_cons_of_ne_nil given
  have counted := modifiedPrecisions_eq positive given hypothesis
  refine ⟨_, by simp only [ofPair, List.map_cons, closestLength, counted]; rfl, ?_⟩
  simp [reachedPrecision]

theorem paired_of_ofPair {maxOrder : Nat} {references : List (List α)} {hypothesis : List α} {s : Statistics}
    (counted : ofPair references hypothesis maxOrder = .ok s) : s.Paired := by
  simp only [ofPair, bind_eq_ok] at counted
  obtain ⟨referenceLength, _, precisions, _, built⟩ := counted
  cases built
  simp [Paired]

/-! ## Many pairs -/

theorem paired_of_foldlM {maxOrder : Nat} {start s : Statistics} (paired : start.Paired)
    {pairs : List (List (List α) × List α)}
    (summed : pairs.foldlM (fun sum pair => do return sum.combine (← ofPair pair.1 pair.2 maxOrder)) start = .ok s) :
    s.Paired := by
  induction pairs generalizing start with
  | nil =>
    cases summed
    exact paired
  | cons pair rest ih =>
    simp only [List.foldlM_cons, bind_eq_ok] at summed
    obtain ⟨_, ⟨counted, _, added⟩, later⟩ := summed
    cases added
    exact ih (paired_combine start counted) later

theorem paired_of_ofPairs {maxOrder : Nat} {pairs : List (List (List α) × List α)} {s : Statistics}
    (summed : ofPairs maxOrder pairs = .ok s) : s.Paired :=
  paired_of_foldlM paired_identity summed

/-- What pairs are added to can be added last. -/
theorem foldlM_eq_ofPairs {maxOrder : Nat} {start : Statistics} (paired : start.Paired)
    (pairs : List (List (List α) × List α)) :
    pairs.foldlM (fun sum pair => do return sum.combine (← ofPair pair.1 pair.2 maxOrder)) start =
      (do return start.combine (← ofPairs maxOrder pairs)) := by
  induction pairs generalizing start with
  | nil => exact congrArg Except.ok (combine_identity paired).symm
  | cons pair rest ih =>
    unfold ofPairs
    rw [List.foldlM_cons, List.foldlM_cons]
    cases counted : ofPair pair.1 pair.2 maxOrder with
    | error fault => rfl
    | ok s =>
      have first : s.Paired := paired_of_ofPair counted
      simp only [ok_bind, pure_bind, ih (paired_combine _ _), identity_combine first]
      rw [ih first]
      cases summed : ofPairs maxOrder rest with
      | error fault => rfl
      | ok t => exact congrArg Except.ok (combine_assoc paired first (paired_of_ofPairs summed))

/-- The sum of a list of pairs is the sum of its parts. -/
theorem ofPairs_append (maxOrder : Nat) (pairs others : List (List (List α) × List α)) :
    ofPairs maxOrder (pairs ++ others) =
      (do return (← ofPairs maxOrder pairs).combine (← ofPairs maxOrder others)) := by
  rw [ofPairs, List.foldlM_append]
  change ofPairs maxOrder pairs >>= _ = _
  cases summed : ofPairs maxOrder pairs with
  | error fault => rfl
  | ok s => exact foldlM_eq_ofPairs (paired_of_ofPairs summed) others

theorem ofPairs_singleton (maxOrder : Nat) (references : List (List α)) (hypothesis : List α) :
    ofPairs maxOrder [(references, hypothesis)] = ofPair references hypothesis maxOrder := by
  rw [ofPairs, List.foldlM_cons]
  cases counted : ofPair references hypothesis maxOrder with
  | error fault => rfl
  | ok s => exact congrArg Except.ok (identity_combine (paired_of_ofPair counted))

/-- A sum fails just when a pair lacks references, and with no other fault. -/
theorem ofPairs_eq_error {maxOrder : Nat} (positive : 0 < maxOrder) (pairs : List (List (List α) × List α))
    (fault : Fault) :
    ofPairs maxOrder pairs = .error fault ↔ fault = .emptyReferences ∧ ∃ pair ∈ pairs, pair.1 = [] := by
  induction pairs with
  | nil => simp [ofPairs, pure, Except.pure]
  | cons pair rest ih =>
    obtain ⟨references, hypothesis⟩ := pair
    rw [← List.singleton_append, ofPairs_append, ofPairs_singleton]
    by_cases empty : references = []
    · subst empty
      rw [ofPair_nil, error_bind]
      simp [eq_comm]
    · obtain ⟨s, counted, _⟩ := ofPair_eq positive empty hypothesis
      rw [counted, ok_bind, bind_eq_error, ih]
      simp [empty, pure, Except.pure]

theorem ofPairs_append_comm {maxOrder : Nat} (positive : 0 < maxOrder) (pairs others : List (List (List α) × List α)) :
    ofPairs maxOrder (pairs ++ others) = ofPairs maxOrder (others ++ pairs) := by
  rw [ofPairs_append, ofPairs_append]
  cases left : ofPairs maxOrder pairs with
  | error fault =>
    cases right : ofPairs maxOrder others with
    | error other =>
      -- Both parts are refused, and for the same reason.
      rw [((ofPairs_eq_error positive _ _).mp left).1, ((ofPairs_eq_error positive _ _).mp right).1]
    | ok b => rfl
  | ok a =>
    cases right : ofPairs maxOrder others with
    | error other => rfl
    | ok b => exact congrArg Except.ok (combine_comm a b)

/-- The order of pairs does not matter. -/
theorem ofPairs_perm {maxOrder : Nat} (positive : 0 < maxOrder) {pairs others : List (List (List α) × List α)}
    (perm : pairs.Perm others) : ofPairs maxOrder pairs = ofPairs maxOrder others := by
  induction perm with
  | nil => rfl
  | cons pair _ ih => rw [← List.singleton_append, ofPairs_append, ih, ← ofPairs_append, List.singleton_append]
  | swap first second rest =>
    have neighbours := ofPairs_append_comm positive [second] [first]
    have split := ofPairs_append maxOrder ([second] ++ [first]) rest
    rwa [neighbours, ← ofPairs_append] at split
  | trans _ _ first second => exact first.trans second

/-! ## The orders of a sum -/

theorem length_totals_ofPair {maxOrder : Nat} (positive : 0 < maxOrder) {references : List (List α)}
    {hypothesis : List α} {t : Statistics} (counted : ofPair references hypothesis maxOrder = .ok t) :
    t.totals.length = min maxOrder hypothesis.length := by
  have given : references ≠ [] := by
    rintro rfl
    rw [ofPair_nil] at counted
    cases counted
  obtain ⟨s, same, _, totals, _⟩ := ofPair_eq positive given hypothesis
  cases counted.symm.trans same
  rw [totals, List.length_map, List.length_range]

/-- The statistics of pairs have the orders that the longest hypothesis reaches. -/
theorem length_totals_ofPairs {maxOrder : Nat} (positive : 0 < maxOrder) {pairs : List (List (List α) × List α)}
    {t : Statistics} (summed : ofPairs maxOrder pairs = .ok t) :
    t.totals.length = min maxOrder (longest (pairs.map Prod.snd)) := by
  induction pairs generalizing t with
  | nil =>
    cases summed
    simp [identity, longest]
  | cons pair rest ih =>
    rw [← List.singleton_append, ofPairs_append, ofPairs_singleton] at summed
    obtain ⟨first, counted, summed⟩ := bind_eq_ok.mp summed
    obtain ⟨others, later, added⟩ := bind_eq_ok.mp summed
    cases added
    rw [length_totals_combine, length_totals_ofPair positive counted, ih later]
    simp [longest, Nat.min_max_distrib_left]

theorem length_totals_le {maxOrder : Nat} (positive : 0 < maxOrder) {pairs : List (List (List α) × List α)}
    {t : Statistics} (summed : ofPairs maxOrder pairs = .ok t) : t.totals.length ≤ maxOrder := by
  rw [length_totals_ofPairs positive summed]
  exact Nat.min_le_left _ _

/-! ## Quotients -/

/-- Counts that come from fractions of something give these fractions back. -/
theorem quotients_eq_ok {s : Statistics} {ps : List Fraction} (matched : s.matched = ps.map Fraction.numerator)
    (totals : s.totals = ps.map Fraction.denominator) (counted : ∀ p ∈ ps, 0 < p.denominator) :
    s.quotients = .ok ps := by
  rw [quotients, matched, totals, List.zip_map', List.takeWhile_eq_self_iff.mpr]
  · rw [List.mapM_map, Outcomes.mapM_ok ps, List.map_id]
    intro p member
    simp [Fraction.ofNats, Fraction.ofPos, counted p member]
  · simpa using counted

end Statistics

/-! ## A corpus of one pair -/

theorem scoredOrder_pos (weights : Option Weights) : 0 < scoredOrder weights := by
  cases weights with
  | none => decide
  | some w => exact List.length_pos_iff.mpr w.values_ne_nil

/-- A sentence is scored from the precisions of the orders that it reaches and from the closest length. -/
theorem Score.ofSentence_of_closest [Elementary] {references : List (List α)} {hypothesis : List α} {length : Nat}
    (closest : closestLength hypothesis.length (references.map List.length) = .ok length) (weights : Option Weights)
    (smoother : Smoother) :
    Score.ofSentence references hypothesis weights smoother =
      aggregate ((List.range (min (scoredOrder weights) hypothesis.length)).map fun i =>
        reachedPrecision references hypothesis (i + 1)) hypothesis.length length weights smoother := by
  have given : references ≠ [] := by
    rintro rfl
    cases closest
  have counted := modifiedPrecisions_eq (scoredOrder_pos weights) given hypothesis
  rw [Score.ofSentence, closest, ok_bind, counted, ok_bind]

theorem Score.ofSentence_eq_aggregate [Elementary] {references : List (List α)} (given : references ≠ [])
    (hypothesis : List α) (weights : Option Weights) (smoother : Smoother) :
    ∃ referenceLength, Score.ofSentence references hypothesis weights smoother =
      aggregate ((List.range (min (scoredOrder weights) hypothesis.length)).map fun i =>
        reachedPrecision references hypothesis (i + 1)) hypothesis.length referenceLength weights smoother := by
  obtain ⟨length, closest⟩ : ∃ length, closestLength hypothesis.length (references.map List.length) = .ok length := by
    obtain ⟨first, rest, rfl⟩ := List.exists_cons_of_ne_nil given
    exact ⟨_, rfl⟩
  exact ⟨length, Score.ofSentence_of_closest closest weights smoother⟩

/-- A sentence scores what the statistics of its pair score. -/
theorem Score.ofSentence_eq [Elementary] (references : List (List α)) (hypothesis : List α)
    (weights : Option Weights) (smoother : Smoother) :
    Score.ofSentence references hypothesis weights smoother =
      (do (← Statistics.ofPair references hypothesis (scoredOrder weights)).score weights smoother) := by
  by_cases given : references = []
  · subst given
    rfl
  · have counted := modifiedPrecisions_eq (scoredOrder_pos weights) given hypothesis
    obtain ⟨first, rest, rfl⟩ := List.exists_cons_of_ne_nil given
    simp only [Statistics.ofPair, Score.ofSentence, List.map_cons, closestLength, counted, ok_bind, pure_bind]
    rw [Statistics.score, Statistics.quotients_eq_ok rfl rfl, ok_bind]
    intro p member
    obtain ⟨i, _, rfl⟩ := List.mem_map.mp member
    exact Nat.succ_pos _

/-- A corpus of one pair scores what the pair scores, in every field, or is refused for the same reason. -/
theorem Score.ofCorpus_singleton [Elementary] (references : List (List α)) (hypothesis : List α)
    (weights : Option Weights) (smoother : Smoother) :
    Score.ofCorpus [references] [hypothesis] weights smoother =
      Score.ofSentence references hypothesis weights smoother := by
  have aligned : alignPairs [references] [hypothesis] = .ok [(references, hypothesis)] := rfl
  rw [Score.ofCorpus, Statistics.ofCorpus, aligned, ok_bind, Statistics.ofPairs_singleton, Score.ofSentence_eq]

end Bleu

import Bleu.Corpus.Reduction
import Bleu.Proofs.Statistics

/-!
# The grouping does not matter

Workers that share a corpus add up along some tree, and a group with two failing parts reports whichever fault comes
first. `Reduction.Yields` relates a tree to everything it can come to. `outcome_iff` shows that there is nothing to
choose: every tree over the pairs of a corpus comes to what adding from left to right gives, refusals included.
-/
namespace Bleu
open Outcomes
variable {α : Type} [DecidableEq α]

namespace Reduction
variable {β : Type}

/-- What the sum along a grouping can come to. A group fails with the fault of a failing part, and need not wait for
the other part. -/
inductive Yields (count : β → Except Fault Statistics) : Reduction β → Except Fault Statistics → Prop
  | identity : Yields count identity (.ok .identity)
  | leaf (pair : β) : Yields count (leaf pair) (count pair)
  | node {left right : Reduction β} {a b : Statistics} (first : Yields count left (.ok a))
      (second : Yields count right (.ok b)) : Yields count (node left right) (.ok (a.combine b))
  | left_fails {left : Reduction β} {fault : Fault} (fails : Yields count left (.error fault))
      (right : Reduction β) : Yields count (node left right) (.error fault)
  | right_fails {right : Reduction β} {fault : Fault} (left : Reduction β)
      (fails : Yields count right (.error fault)) : Yields count (node left right) (.error fault)

/-- What a corpus can come to whose pairs are added up along a grouping. A corpus that does not pair up is refused
before. -/
def Outcome (referenceSets : List (List (List α))) (hypotheses : List (List α)) (maxOrder : Nat)
    (tree : Reduction (List (List α) × List α)) (result : Except Fault Statistics) : Prop :=
  match alignPairs referenceSets hypotheses with
  | .error fault => result = .error fault
  | .ok _ => tree.Yields (fun pair => Statistics.ofPair pair.1 pair.2 maxOrder) result

/-! ## Every grouping -/

/-- Along every grouping the pairs come to their sum from left to right, and to nothing else. -/
theorem yields_iff {maxOrder : Nat} (positive : 0 < maxOrder) (tree : Reduction (List (List α) × List α))
    (result : Except Fault Statistics) :
    tree.Yields (fun pair => Statistics.ofPair pair.1 pair.2 maxOrder) result ↔
      result = Statistics.ofPairs maxOrder tree.leaves := by
  -- All faults of pairs are the same one, so the fault of the right part is also that of the whole.
  have fault_eq : ∀ {pairs : List (List (List α) × List α)} {fault : Fault},
      Statistics.ofPairs maxOrder pairs = .error fault → fault = .emptyReferences := fun failed =>
    ((Statistics.ofPairs_eq_error positive _ _).mp failed).1
  induction tree generalizing result with
  | identity =>
    constructor
    · rintro ⟨⟩
      rfl
    · rintro rfl
      exact .identity
  | leaf pair =>
    rw [leaves, Statistics.ofPairs_singleton]
    constructor
    · rintro ⟨⟩
      rfl
    · rintro rfl
      exact .leaf pair
  | node left right leftSum rightSum =>
    rw [leaves, Statistics.ofPairs_append]
    constructor
    · intro yields
      cases yields with
      | node first second =>
        rw [← (leftSum _).mp first, ← (rightSum _).mp second]
        rfl
      | left_fails fails =>
        rw [← (leftSum _).mp fails]
        rfl
      | right_fails _ fails =>
        have failed := (rightSum _).mp fails
        rw [← failed]
        cases first : Statistics.ofPairs maxOrder left.leaves with
        | error fault => rw [fault_eq first, fault_eq failed.symm, error_bind]
        | ok a => rfl
    · rintro rfl
      cases first : Statistics.ofPairs maxOrder left.leaves with
      | error fault => exact .left_fails ((leftSum _).mpr first.symm) right
      | ok a =>
        cases second : Statistics.ofPairs maxOrder right.leaves with
        | error fault => exact .right_fails left ((rightSum _).mpr second.symm)
        | ok b => exact .node ((leftSum _).mpr first.symm) ((rightSum _).mpr second.symm)

/-- The sum that waits for both parts and prefers the left fault is one of the outcomes. -/
theorem yields_run (count : β → Except Fault Statistics) (tree : Reduction β) :
    tree.Yields count (tree.run count) := by
  induction tree with
  | identity => exact .identity
  | leaf pair => exact .leaf pair
  | node left right first second =>
    rw [run]
    cases leftSum : left.run count with
    | error fault => exact .left_fails (leftSum ▸ first) right
    | ok a =>
      cases rightSum : right.run count with
      | error fault => exact .right_fails left (rightSum ▸ second)
      | ok b => exact .node (leftSum ▸ first) (rightSum ▸ second)

theorem leaves_balanced (pairs : List β) : (balanced pairs).leaves = pairs := by
  fun_induction balanced pairs with
  | case1 => rfl
  | case2 pair => rfl
  | case3 first second rest half left right => rw [leaves, left, right, List.take_append_drop]

end Reduction

/-! ## Corpora -/

theorem alignPairs_eq {ρ η : Type} {referenceSets : List ρ} {hypotheses : List η}
    (aligned : referenceSets.length = hypotheses.length) :
    alignPairs referenceSets hypotheses = .ok (referenceSets.zip hypotheses) := if_pos aligned

theorem alignPairs_mismatch {ρ η : Type} {referenceSets : List ρ} {hypotheses : List η}
    (differ : referenceSets.length ≠ hypotheses.length) :
    alignPairs referenceSets hypotheses = .error (.lengthMismatch hypotheses.length referenceSets.length) :=
  if_neg differ

/-- A corpus is refused if it does not pair up, and else just when a reference set is empty. -/
theorem ofCorpus_eq_error {maxOrder : Nat} (positive : 0 < maxOrder) (referenceSets : List (List (List α)))
    (hypotheses : List (List α)) (fault : Fault) :
    Statistics.ofCorpus referenceSets hypotheses maxOrder = .error fault ↔
      if referenceSets.length ≠ hypotheses.length then
        fault = .lengthMismatch hypotheses.length referenceSets.length
      else fault = .emptyReferences ∧ [] ∈ referenceSets := by
  rw [Statistics.ofCorpus]
  by_cases aligned : referenceSets.length = hypotheses.length
  · have listed : (∃ pair ∈ referenceSets.zip hypotheses, pair.1 = []) ↔ [] ∈ referenceSets := by
      conv_rhs => rw [← List.map_fst_zip (le_of_eq aligned), List.mem_map]
    rw [alignPairs_eq aligned, ok_bind, Statistics.ofPairs_eq_error positive, listed, if_neg (by simpa using aligned)]
  · rw [alignPairs_mismatch aligned, error_bind, if_pos aligned]
    simp [eq_comm]

/-- The statistics of a corpus do not depend on how its pairs are grouped: along every tree over the pairs, they come
to those added from left to right. They are refused if the corpus does not pair up, and else just when a reference
set is empty. -/
theorem outcome_iff {maxOrder : Nat} (positive : 0 < maxOrder) (referenceSets : List (List (List α)))
    (hypotheses : List (List α)) (tree : Reduction (List (List α) × List α))
    (covers : tree.leaves = referenceSets.zip hypotheses) :
    (∀ result, tree.Outcome referenceSets hypotheses maxOrder result ↔
        result = Statistics.ofCorpus referenceSets hypotheses maxOrder) ∧
      ∀ fault, Statistics.ofCorpus referenceSets hypotheses maxOrder = .error fault ↔
        if referenceSets.length ≠ hypotheses.length then
          fault = .lengthMismatch hypotheses.length referenceSets.length
        else fault = .emptyReferences ∧ [] ∈ referenceSets := by
  refine ⟨fun result => ?_, ofCorpus_eq_error positive referenceSets hypotheses⟩
  rw [Reduction.Outcome, Statistics.ofCorpus]
  by_cases aligned : referenceSets.length = hypotheses.length
  · rw [alignPairs_eq aligned, ok_bind, ← covers]
    exact tree.yields_iff positive result
  · rw [alignPairs_mismatch aligned, error_bind]

/-- Two pairs, with leaves for nothing around and between them. -/
theorem outcome_two_pairs :
    (Reduction.node .identity (.node (.leaf ([["a", "b"]], ["a", "b"])) (.node .identity (.leaf ([["c"]], ["d"]))))
      ).Outcome [[["a", "b"]], [["c"]]] [["a", "b"], ["d"]] 4 (.ok ⟨[2, 1], [3, 1], 3, 3, 2⟩) :=
  ((outcome_iff (by decide) [[["a", "b"]], [["c"]]] [["a", "b"], ["d"]] _ rfl).1 _).mpr rfl

/-- Counting half by half gives what counting from left to right gives. -/
theorem ofCorpusByHalves_eq {maxOrder : Nat} (positive : 0 < maxOrder) (referenceSets : List (List (List α)))
    (hypotheses : List (List α)) :
    Statistics.ofCorpusByHalves referenceSets hypotheses maxOrder =
      Statistics.ofCorpus referenceSets hypotheses maxOrder := by
  unfold Statistics.ofCorpusByHalves Statistics.ofCorpus
  refine congrArg _ (funext fun pairs => ?_)
  have yields := Reduction.yields_run (fun pair => Statistics.ofPair pair.1 pair.2 maxOrder) (.balanced pairs)
  rw [(Reduction.yields_iff positive _ _).mp yields, Reduction.leaves_balanced]

end Bleu
